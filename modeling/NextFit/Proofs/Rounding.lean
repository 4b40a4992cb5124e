import Mathlib.Algebra.Order.Floor.Div
import NextFit.Rounding

/-! # Counting units up to the greatest size

To count the units of a block and to raise its size to whole units are two roundings, and they leave
the range of sizes at different points. Neither matters to a heap: a block whose bytes are a size has
a count, and there the two agree.
-/

namespace NextFit

variable {unit size : Nat}

theorem ceilDiv_eq (positive : 0 < unit) (size : Nat) :
    size ⌈/⌉ unit = (size + (unit - 1)) / unit := by
  rw [Nat.ceilDiv_eq_add_pred_div, Nat.add_sub_assoc positive]

/-- The count says `none` exactly if one of its two sums is no size. -/
theorem unitsFor_eq (positive : 0 < unit) (size : Nat) :
    unitsFor size unit = .ok
      (if size + unit - 1 ≤ Size.greatest ∧ size ⌈/⌉ unit + 1 ≤ Size.greatest then
        some (size ⌈/⌉ unit + 1)
      else none) := by
  have sum : size + unit - 1 = size + (unit - 1) := Nat.add_sub_assoc positive size
  rw [unitsFor, Size.sub_of_le positive, sum, ceilDiv_eq positive]
  simp only [Size.le_greatest_iff]
  refine congrArg Except.ok ?_
  by_cases raised : size + (unit - 1) < Size.bound
  · have first : Size.add? size (unit - 1) = some (size + (unit - 1)) := if_pos raised
    simp only [first, raised, true_and]
    rfl
  · have first : Size.add? size (unit - 1) = none := if_neg raised
    simp only [first, raised, false_and, if_false]
    rfl

/-- No sum on the way is more than the bytes of the block, header included. -/
theorem sums_le_bytes (positive : 0 < unit) (size : Nat) :
    size + unit - 1 ≤ (size ⌈/⌉ unit + 1) * unit ∧
      size ⌈/⌉ unit + 1 ≤ (size ⌈/⌉ unit + 1) * unit := by
  refine ⟨?_, Nat.le_mul_of_pos_right _ positive⟩
  rw [ceilDiv_eq positive, Nat.mul_comm, Nat.add_sub_assoc positive]
  exact Nat.le_of_lt (Nat.lt_mul_div_succ _ positive)

/-- An allocation takes one unit more than its bytes fill, unless so many units leave the range of
    sizes. -/
theorem unitsFor_filter (positive : 0 < unit) (size : Nat) :
    ∃ wanted, unitsFor size unit = .ok wanted ∧
      wanted.filter (fun units => (Size.mul? units unit).isSome) =
        if (size ⌈/⌉ unit + 1) * unit < Size.bound then some (size ⌈/⌉ unit + 1) else none := by
  refine ⟨_, unitsFor_eq positive size, ?_⟩
  obtain ⟨raised, counted⟩ := sums_le_bytes positive size
  by_cases fits : (size ⌈/⌉ unit + 1) * unit < Size.bound
  case pos =>
    have product : Size.mul? (size ⌈/⌉ unit + 1) unit = some _ := if_pos fits
    have most := Size.le_greatest_iff.2 fits
    rw [if_pos fits, if_pos ⟨Nat.le_trans raised most, Nat.le_trans counted most⟩,
      Option.filter_some, product]
    rfl
  case neg =>
    have product : Size.mul? (size ⌈/⌉ unit + 1) unit = none := if_neg fits
    rw [if_neg fits]
    split
    · rw [Option.filter_some, product]
      rfl
    · rfl

/-- Where a size can be raised to whole units, its units are counted, and they are as many. -/
theorem Size.exists_units_of_roundUp {rounded : Nat} (positive : 0 < unit)
    (raised : Size.roundUp size unit = .ok rounded) :
    ∃ units, unitsFor size unit = .ok (some units) ∧ units * unit = rounded + unit := by
  cases Nat.lt_or_ge (size + unit) Size.bound with
  | inr beyond => cases raised.symm.trans (Size.roundUp_of_le beyond)
  | inl fits =>
      have whole : rounded = size ⌈/⌉ unit * unit := by
        rw [ceilDiv_eq positive, ← Nat.add_sub_assoc positive]
        exact Except.ok.inj (raised.symm.trans (Size.roundUp_of_lt positive fits))
      have fewer : size ⌈/⌉ unit ≤ size + (unit - 1) := by
        rw [ceilDiv_eq positive]
        exact Nat.div_le_self _ _
      have sums : size + unit - 1 ≤ Size.greatest ∧ size ⌈/⌉ unit + 1 ≤ Size.greatest := by
        simp only [Size.le_greatest_iff]
        omega
      refine ⟨size ⌈/⌉ unit + 1, ?_, by rw [whole, Nat.add_mul, Nat.one_mul]⟩
      rw [unitsFor_eq positive, if_pos sums]

end NextFit
