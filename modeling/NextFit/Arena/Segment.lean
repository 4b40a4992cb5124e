import NextFit.Arena
import NextFit.Memory

/-! # Segments

A segment is the data segment of a 32-bit machine: the bytes from a fixed base up to the break.
Growing moves the break and hands out the old one, so everything that was handed out is one range.
A header is two little-endian words of four bytes, first `next` and then `size`. Every access is
checked against the bounds, and every header field against its word.
-/

namespace NextFit

/-- The bytes in `[base, base + length)`. -/
structure Segment where
  base : Nat
  length : Nat := 0
  /-- The greatest length the segment may reach, if there is one. -/
  limit : Option Nat := none
  memory : Memory := .blank
  base_ne_zero : base ≠ 0
  base_aligned : base % 8 = 0
  /-- Every address that was handed out fits a header word. -/
  addressable : length = 0 ∨ base + length ≤ UInt32.size
  /-- Bytes behind the break are still zero. -/
  untouched : ∀ address, base + length ≤ address → memory.byteAt address = 0

namespace Segment

/-- The bytes of a header word. -/
def wordBytes : Nat := 4

def unit : Nat := 2 * wordBytes

/-- Where a segment starts unless it is told otherwise. -/
def defaultBase : Nat := 0x10040000

/-- One more than the greatest number in a header word. -/
def wordBound : Nat := UInt32.size

/-- The empty segment at a base, which must be a multiple of the unit and not `0`. -/
def create (base : Nat) : Except Fault Segment :=
  if base_ne_zero : base = 0 then .error .reservedBase
  else if base_aligned : base % 8 = 0 then
    .ok {
      base, base_ne_zero, base_aligned
      addressable := .inl rfl
      untouched := fun address _ => Memory.byteAt_blank address }
  else .error .misalignedBase

def default : Segment where
  base := defaultBase
  base_ne_zero := by decide
  base_aligned := by decide
  addressable := .inl rfl
  untouched address _ := Memory.byteAt_blank address

instance : Inhabited Segment := ⟨default⟩

def withLimit (segment : Segment) (limit : Nat) : Segment :=
  { segment with limit := some limit }

/-- The break: one more than the last address. -/
def brk (segment : Segment) : Nat :=
  segment.base + segment.length

/-- Whether the bytes from an address on lie between the base and the break. -/
def contains (segment : Segment) (address length : Nat) : Bool :=
  segment.base ≤ address && (Size.add? address length).any (· ≤ segment.brk)

/-- The length after growing, if the limit and the range of header words allow it. -/
def grownLength? (segment : Segment) (bytes : Nat) : Option Nat := do
  let length ← Size.add? segment.length bytes
  let stop ← Size.add? segment.base length
  if segment.limit.all (length ≤ ·) ∧ stop ≤ wordBound then some length else none

/-- A segment grows exactly if its limit and the range of header words allow the new length. -/
theorem grownLength?_eq_some_iff {segment : Segment} {bytes length : Nat} :
    segment.grownLength? bytes = some length ↔
      length = segment.length + bytes ∧ (∀ limit ∈ segment.limit, length ≤ limit) ∧
        segment.base + length ≤ wordBound := by
  have words : wordBound < Size.bound := by decide
  simp only [grownLength?, Option.bind_eq_bind, Option.bind_eq_some_iff, Size.add?_eq_some_iff,
    Option.ite_none_right_eq_some, Option.some.injEq, Option.all_eq_true, decide_eq_true_eq]
  constructor
  · rintro ⟨_, ⟨_, rfl⟩, _, ⟨_, rfl⟩, ⟨inLimit, inWords⟩, rfl⟩
    exact ⟨rfl, inLimit, inWords⟩
  · rintro ⟨rfl, inLimit, inWords⟩
    exact ⟨_, ⟨by omega, rfl⟩, _, ⟨by omega, rfl⟩, ⟨inLimit, inWords⟩, rfl⟩

/-- The fault of touching bytes outside the segment. -/
def outside (segment : Segment) (address length : Nat) : Fault :=
  .outsideSegment length address segment.base segment.brk

/-- Move the break up and yield the old one. -/
def extend (bytes : Nat) : Op Segment Nat := fun segment =>
  match grown : segment.grownLength? bytes with
  | none => Op.refuse (.outOfMemory bytes) segment
  | some length =>
      have bounds := grownLength?_eq_some_iff.1 grown
      { result := .ok segment.brk
        state := { segment with
          length
          addressable := .inr bounds.2.2
          untouched := fun address behind => segment.untouched address (by omega) }
        events := [.segmentGrew segment.brk (segment.base + length)] }

def readBytes (segment : Segment) (address length : Nat) : Except Fault (List UInt8) :=
  if segment.contains address length then .ok (segment.memory.read address length)
  else .error (segment.outside address length)

theorem contains_eq_true_iff {segment : Segment} {address length : Nat} :
    segment.contains address length = true ↔
      segment.base ≤ address ∧ address + length < Size.bound ∧ address + length ≤ segment.brk := by
  rw [contains, Bool.and_eq_true, decide_eq_true_eq, Size.any_add?_le_iff]

/-- Overwrite the bytes from an address on. -/
def writeBytes (address : Nat) (bytes : List UInt8) : Op Segment Unit := fun segment =>
  if inside : segment.contains address bytes.length = true then
    have bounds := contains_eq_true_iff.1 inside
    { result := .ok ()
      state := { segment with
        memory := segment.memory.write address bytes
        untouched := fun query behind => by
          rw [Memory.byteAt_write_of_outside _ _ _ _ (.inr (Nat.le_trans bounds.2.2 behind))]
          exact segment.untouched query behind } }
  else Op.fault (segment.outside address bytes.length) segment

def readWord (segment : Segment) (address : Nat) : Except Fault Nat :=
  LittleEndian.decode <$> segment.readBytes address wordBytes

/-- Write a header word. A number that is too large is noticed before the bounds are. -/
def writeWord (address value : Nat) : Op Segment Unit := do
  Op.require (value < wordBound) (.wideWord value)
  writeBytes address (LittleEndian.encode wordBytes value)

/-- Read the header at an address: its size from the second word, then its link. -/
def load (segment : Segment) (address : Nat) : Except Fault Header := do
  let sizeAddress ← Size.add address wordBytes
  let size ← segment.readWord sizeAddress
  let next ← segment.readWord address
  return { size, next }

/-- Write a header: the link, then the size. A fault at the size leaves the link written. -/
def store (address : Nat) (header : Header) : Op Segment Unit := do
  writeWord address header.next
  let sizeAddress ← Size.add address wordBytes
  writeWord sizeAddress header.size

def fill (address : Nat) (value : UInt8) (count : Nat) : Op Segment Unit := fun segment =>
  if segment.contains address count then
    writeBytes address (List.replicate count value) segment
  else Op.fault (segment.outside address count) segment

instance : ExposedArena Segment where
  unit
  extend
  contains
  load
  store
  fill
  readBytes
  writeBytes
  growForOthers := extend

end Segment

end NextFit
