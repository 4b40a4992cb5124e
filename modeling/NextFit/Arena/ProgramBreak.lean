import NextFit.Arena
import NextFit.Memory
import NextFit.Rounding

/-! # Arenas on the program break

The data of a running program ends at its break, and the system moves the break up on request.
Several arenas may draw on one break, and other code may move it in between, so the extensions of
one arena can have gaps. A header is two little-endian words of eight bytes, first `size` and then
`next`. Memory accesses are not checked.
-/

namespace NextFit

/-- The break of a program, and the memory below it. -/
structure ProgramBreak where
  position : Nat
  memory : Memory := .blank
  /-- Whether the system lets a break rise by an increment. -/
  grants : (position increment : Nat) → Bool := fun _ increment => increment < 1 <<< 62

/-- Move the break up, and yield where it was. -/
def ProgramBreak.raise? (source : ProgramBreak) (increment : Nat) : Option (Nat × ProgramBreak) :=
  if source.grants source.position increment then
    some (source.position, { source with position := source.position + increment })
  else none

/-- The range from the first byte to the last that one arena got. It starts at `0` as long as the
    arena got nothing. -/
structure Window where
  start : Nat := 0
  stop : Nat := 0
  deriving Repr, DecidableEq, Inhabited

/-- Whether the bytes from an address on lie in the window. -/
def Window.contains (window : Window) (address length : Nat) : Bool :=
  window.start ≤ address && (Size.add? address length).any (· ≤ window.stop)

/-- Take a new range in. Only the first one sets the start. -/
def Window.widen (window : Window) (base stop : Nat) : Window :=
  { start := if window.start = 0 then base else window.start, stop }

/-- An arena that extends by moving the break of a program. -/
structure BreakArena where
  source : ProgramBreak
  window : Window := {}

namespace BreakArena

/-- The bytes of a header word. -/
def wordBytes : Nat := 8

def unit : Nat := 2 * wordBytes

/-- One more than the greatest increment that a break can be asked to rise by. -/
def incrementBound : Nat := 1 <<< 63

/-- Move the break up, and yield where it was. If the system does not let it rise, a request for
    `bytes` is refused. -/
def raise (increment bytes : Nat) : Op BreakArena Nat := do
  let arena ← Op.state
  let some (address, source) := arena.source.raise? increment
    | Op.refuse (.outOfMemory bytes)
  Op.update fun arena => { arena with source }
  return address

/-- Ask for enough to start at a multiple of the unit, and yield that start. -/
def extend (bytes : Nat) : Op BreakArena Nat := do
  let arena ← Op.state
  let aligned ← Size.roundUp arena.source.position unit
  let padding ← Size.sub aligned arena.source.position
  let some increment := (Size.add? bytes padding).filter (· < incrementBound)
    | Op.refuse (.outOfMemory bytes)
  let address ← raise increment bytes
  let base ← Size.roundUp address unit
  let stop ← Size.add base bytes
  let granted ← Size.add address increment
  Op.require (stop ≤ granted) .shortExtension
  Op.update fun arena => { arena with window := arena.window.widen base stop }
  Op.report (.breakMoved bytes base padding)
  return base

/-- Change the memory below the break. -/
def updateMemory (change : Memory → Memory) : Op BreakArena Unit :=
  Op.update fun arena => { arena with source.memory := change arena.source.memory }

def load (arena : BreakArena) (address : Nat) : Header where
  size := arena.source.memory.readWord wordBytes address
  next := arena.source.memory.readWord wordBytes (address + wordBytes)

def store (address : Nat) (header : Header) : Op BreakArena Unit :=
  updateMemory fun memory =>
    (memory.writeWord wordBytes address header.size).writeWord wordBytes (address + wordBytes)
      header.next

def writeBytes (address : Nat) (bytes : List UInt8) : Op BreakArena Unit :=
  updateMemory (·.write address bytes)

instance : ExposedArena BreakArena where
  unit
  extend
  contains arena := arena.window.contains
  load arena address := .ok (arena.load address)
  store
  fill address value count := writeBytes address (List.replicate count value)
  readBytes arena address length := .ok (arena.source.memory.read address length)
  writeBytes
  growForOthers bytes := raise bytes bytes

end BreakArena

end NextFit
