import NextFit.Op
import NextFit.Header

/-! # Arenas

An arena is where a heap gets its memory. It only ever grows, and never hands out address `0`, which
marks the sentinel of the free list. Headers are stored in it at the start of each block.
-/

namespace NextFit

/-- Growable memory that holds block headers. Reading changes nothing; the other operations may
    leave a partial change behind when they fail. -/
class Arena (A : Type) where
  /-- How many bytes a header takes, which is the unit of all block sizes. -/
  unit : Nat
  /-- Grow by a number of bytes, and yield the address of the first new one. -/
  extend (bytes : Nat) : Op A Nat
  /-- Whether the bytes from an address on are memory that was handed out. -/
  contains (arena : A) (address length : Nat) : Bool
  load (arena : A) (address : Nat) : Except Fault Header
  store (address : Nat) (header : Header) : Op A Unit
  /-- Set consecutive bytes to one value. -/
  fill (address : Nat) (value : UInt8) (count : Nat) : Op A Unit

/-- An arena that others than its heap reach as well: they look at its bytes, overwrite them, and
    draw memory from the same source. -/
class ExposedArena (A : Type) extends Arena A where
  readBytes (arena : A) (address length : Nat) : Except Fault (List UInt8)
  writeBytes (address : Nat) (bytes : List UInt8) : Op A Unit
  /-- Memory goes to somebody else; yields its first address. -/
  growForOthers (bytes : Nat) : Op A Nat

end NextFit
