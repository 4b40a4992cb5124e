/-! # Regions

Memory that was handed out in one piece.
-/

namespace NextFit

/-- The bytes in `[start, stop)`. -/
structure Region where
  start : Nat
  stop : Nat
  deriving Repr, DecidableEq

namespace Region

/-- Whether the region holds all the bytes from an address on. -/
def contains (region : Region) (address length : Nat) : Bool :=
  region.start ≤ address && address + length ≤ region.stop

theorem contains_eq_true_iff {region : Region} {address length : Nat} :
    region.contains address length = true ↔
      region.start ≤ address ∧ address + length ≤ region.stop := by
  simp [contains]

end Region

end NextFit
