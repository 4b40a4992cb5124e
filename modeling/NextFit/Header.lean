import NextFit.Size

/-! # Block headers

Every block, free or allocated, starts with a header.
-/

namespace NextFit

/-- The record at the start of a block. -/
structure Header where
  /-- How many header units the block spans, this header included. -/
  size : Nat
  /-- The next free block. It means something only while the block is free. -/
  next : Nat
  deriving Repr, DecidableEq, Inhabited

namespace Header

/-- The header of a block that spans nothing and leads to the sentinel. -/
def zero : Header := { size := 0, next := 0 }

/-- The address behind the last byte of the block at `address`. -/
def stop (header : Header) (address unit : Nat) : Except Fault Nat := do
  let bytes ← Size.mul header.size unit
  Size.add address bytes

def describe (header : Header) : String :=
  s!"BlockHeader \x7b size: {header.size}, next: {header.next} \x7d"

theorem stop_of_lt {header : Header} {address unit : Nat}
    (h : address + header.size * unit < Size.bound) :
    header.stop address unit = .ok (address + header.size * unit) := by
  simp only [stop, Size.mul_of_lt (Nat.lt_of_le_of_lt (Nat.le_add_left _ _) h), bind, Except.bind]
  exact Size.add_of_lt h

theorem eq_of_stop {header : Header} {address unit stop : Nat}
    (h : header.stop address unit = .ok stop) : stop = address + header.size * unit := by
  rw [Header.stop] at h
  cases product : Size.mul header.size unit with
  | error fault =>
      rw [product] at h
      cases h
  | ok bytes =>
      rw [product] at h
      rw [Size.eq_of_add h, Size.eq_of_mul product]

end Header

end NextFit
