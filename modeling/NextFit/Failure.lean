import NextFit.Text.Hex

/-! # Ways to fail

An operation ends early in one of three ways. A `Refusal` is an ordinary answer: the request cannot
be met. A `Fault` is a broken promise that a check caught: arithmetic out of range, memory outside
its bounds, a misused heap. An abort is the end of the process that a caller asked for in case of
a refusal. Each has its text in one place, `message`.
-/

namespace NextFit

/-- Why a request for memory is turned down. -/
inductive Refusal where
  /-- The arena cannot grow by this many bytes. -/
  | outOfMemory (requestedBytes : Nat)
  /-- No block for this many bytes fits into the address space. -/
  | sizeOverflow (size : Nat)
  deriving Repr, DecidableEq

namespace Refusal

/-- The sentence that tells a person about the refusal. -/
def message : Refusal → String
  | .outOfMemory bytes => s!"arena could not be extended by {bytes} bytes"
  | .sizeOverflow size => s!"allocation of {size} bytes overflows the address space"

def describe : Refusal → String
  | .outOfMemory bytes => s!"OutOfMemory \x7b requested_bytes: {bytes} \x7d"
  | .sizeOverflow size => s!"SizeOverflow \x7b size: {size} \x7d"

end Refusal

/-- A machine operation whose exact result may not fit its type. -/
inductive Arithmetic where
  | addition
  | subtraction
  | multiplication
  | division
  deriving Repr, DecidableEq

/-- What a message calls the operation. -/
def Arithmetic.verb : Arithmetic → String
  | .addition => "add"
  | .subtraction => "subtract"
  | .multiplication => "multiply"
  | .division => "divide"

/-- A check that failed. -/
inductive Fault where
  /-- The exact result of an operation lies outside its type. -/
  | overflow (operation : Arithmetic)
  | zeroDivisor
  /-- An arena may not start at the address that marks the sentinel. -/
  | reservedBase
  /-- An arena has to start at a multiple of the header unit. -/
  | misalignedBase
  /-- Bytes were addressed outside the segment `[base, brk)`. -/
  | outsideSegment (length address base brk : Nat)
  /-- A header field is too large for its word. -/
  | wideWord (value : Nat)
  /-- A scripted arena has no header at this address. -/
  | missingHeader (address : Nat)
  /-- The program break moved by less than an extension needs. -/
  | shortExtension
  /-- The address given back lies outside the heap's arena. -/
  | foreignAddress (address : Nat)
  /-- The bytes to fill lie outside the heap's arena. -/
  | foreignFill
  /-- A search was to find a block of no units. -/
  | noUnits
  /-- The sentinel was given back as if it were a block. -/
  | sentinelReleased
  /-- The block given back is on the free list already. -/
  | doubleFree (block : Nat)
  /-- Following the links of the free list never comes to an end. -/
  | endlessList
  /-- Bytes were to be shown in groups of none. -/
  | emptyGroup
  deriving Repr, DecidableEq

/-- The sentence that tells a person which check failed. -/
def Fault.message : Fault → String
  | .overflow operation => s!"attempt to {operation.verb} with overflow"
  | .zeroDivisor => "attempt to divide by zero"
  | .reservedBase => "address 0 is reserved for the free-list sentinel"
  | .misalignedBase => "arena base must be header-unit aligned"
  | .outsideSegment length address base brk =>
      s!"access of {length} bytes at {Hex.marked address} outside arena " ++
        s!"[{Hex.marked base}, {Hex.marked brk})"
  | .wideWord value => s!"{Hex.marked value} does not fit a 32-bit word"
  | .missingHeader address => s!"no header at {Hex.marked address}"
  | .shortExtension =>
      "assertion failed: base + bytes <= address as usize + increment as usize"
  | .foreignAddress address => s!"{Hex.marked address} was not allocated from this heap"
  | .foreignFill => "assertion failed: self.arena.contains(address, count)"
  | .noUnits => "assertion failed: units >= 1"
  | .sentinelReleased => "assertion failed: block != SENTINEL"
  | .doubleFree block => s!"double free of block at {Hex.marked block}"
  | .endlessList => "the free list has no end"
  | .emptyGroup => "chunk size must be non-zero"

/-- How an operation ends when it yields no value. -/
inductive Failure where
  /-- The request was turned down. -/
  | refused (reason : Refusal)
  /-- A check failed half-way. -/
  | faulted (fault : Fault)
  /-- The process ended because this request was turned down. -/
  | aborted (size : Nat) (reason : Refusal)
  deriving Repr, DecidableEq

end NextFit
