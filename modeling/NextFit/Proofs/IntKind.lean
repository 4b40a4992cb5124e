import Mathlib.Algebra.Order.Ring.Int
import Mathlib.Order.Bounds.Basic
import NextFit.Rounding

/-! # Rounding up in every integer type

Rounding up evaluates wherever there is room for one more unit, and then yields a multiple of the unit
(`roundUp_isLeast_iff`). The division goes towards zero, so below zero it takes away too little: if there
was anything to take away, the result is one unit above the least multiple that is not below the value.
Sizes are never below zero.
-/

namespace NextFit

/-- The multiples of a unit that are not below a value. -/
def multiplesFrom (unit value : Int) : Set Int :=
  { multiple | unit ∣ multiple ∧ value ≤ multiple }

/-- The least of these multiples is less than one unit above the value. -/
theorem isLeast_multiplesFrom_iff {unit value multiple : Int} (positive : 0 < unit) :
    IsLeast (multiplesFrom unit value) multiple ↔
      unit ∣ multiple ∧ value ≤ multiple ∧ multiple < value + unit := by
  constructor
  · rintro ⟨⟨divides, above⟩, least⟩
    refine ⟨divides, above, ?_⟩
    by_contra high
    have lower : multiple ≤ multiple - unit :=
      least ⟨Int.dvd_sub divides (Int.dvd_refl unit), by omega⟩
    omega
  · rintro ⟨divides, above, close⟩
    refine ⟨⟨divides, above⟩, ?_⟩
    rintro other ⟨divides', above'⟩
    by_contra lower
    have apart : unit ≤ multiple - other := Int.le_of_dvd (by omega) (Int.dvd_sub divides divides')
    omega

/-- Division that goes towards zero, and back. -/
theorem tdiv_mul_le_of_nonneg {number unit : Int} (nonneg : 0 ≤ number) (positive : 0 < unit) :
    0 ≤ number.tdiv unit ∧ number.tdiv unit ≤ number.tdiv unit * unit ∧
      number.tdiv unit * unit ≤ number := by
  have quotient : 0 ≤ number.tdiv unit := Int.tdiv_nonneg nonneg (Int.le_of_lt positive)
  have rest : 0 ≤ number.tmod unit := Int.tmod_nonneg unit nonneg
  have whole := Int.tdiv_mul_add_tmod number unit
  exact ⟨quotient, le_mul_of_one_le_right quotient positive, by omega⟩

theorem le_tdiv_mul_of_nonpos {number unit : Int} (nonpos : number ≤ 0) (positive : 0 < unit) :
    number ≤ number.tdiv unit * unit ∧ number.tdiv unit * unit ≤ number.tdiv unit ∧
      number.tdiv unit ≤ 0 := by
  have mirrored := tdiv_mul_le_of_nonneg (Int.neg_nonneg.2 nonpos) positive
  rw [Int.neg_tdiv, Int.neg_mul] at mirrored
  omega

/-- What is left over has the sign of the number that was divided. -/
theorem tmod_nonneg_iff {number unit : Int} :
    0 ≤ number.tmod unit ↔ 0 ≤ number ∨ unit ∣ number := by
  constructor
  · intro rest
    by_contra! other
    obtain ⟨negative, divides⟩ := other
    have mirrored := Int.tmod_nonneg unit (Int.neg_nonneg.2 (Int.le_of_lt negative))
    rw [Int.neg_tmod] at mirrored
    exact divides (Int.dvd_of_tmod_eq_zero (by omega))
  · rintro (nonneg | divides)
    · exact Int.tmod_nonneg unit nonneg
    · exact Int.le_of_eq (Int.tmod_eq_zero_of_dvd divides).symm

namespace IntKind

variable {kind : IntKind} {value unit result : Int}

/-- The type has this number. -/
def Has (kind : IntKind) (number : Int) : Prop :=
  kind.least ≤ number ∧ number ≤ kind.greatest

theorem least_nonpos (kind : IntKind) : kind.least ≤ 0 := by
  have power : 0 ≤ Int.pow 2 (kind.bits - 1) := Int.pow_nonneg (by decide)
  unfold least
  split <;> omega

/-- With a number and a positive one, a type has what comes of dividing and multiplying back. -/
theorem Has.tdiv (has : kind.Has value) (positive : 0 < unit) (hasUnit : kind.Has unit) :
    kind.Has (value.tdiv unit) ∧ kind.Has (value.tdiv unit * unit) := by
  have least := kind.least_nonpos
  simp only [Has] at has hasUnit ⊢
  rcases Int.le_total 0 value with nonneg | nonpos
  · have bounds := tdiv_mul_le_of_nonneg nonneg positive
    omega
  · have bounds := le_tdiv_mul_of_nonpos nonpos positive
    omega

theorem checked_bind_eq_ok_iff {α : Type} {operation : Arithmetic} {exact : Int}
    {next : Int → Except Fault α} {last : α} :
    (kind.checked operation exact >>= next) = .ok last ↔ kind.Has exact ∧ next exact = .ok last := by
  unfold checked
  split
  case isTrue inside => exact (and_iff_right inside).symm
  case isFalse outside => exact ⟨nofun, fun h => absurd h.1 outside⟩

/-- Rounding evaluates if each of its steps stays inside the type. -/
theorem roundUp_eq_ok_iff (positive : 0 < unit) :
    kind.roundUp value unit = .ok result ↔
      kind.Has (value + unit) ∧ kind.Has (value + unit - 1) ∧
        kind.Has ((value + unit - 1).tdiv unit) ∧
        kind.Has ((value + unit - 1).tdiv unit * unit) ∧
        result = (value + unit - 1).tdiv unit * unit := by
  have apart : unit ≠ 0 := Int.ne_of_gt positive
  simp only [roundUp, checked_bind_eq_ok_iff, if_neg apart, checked_eq_ok_iff, Has]

/-- Only the first step can leave the type. -/
theorem exists_roundUp_iff (positive : 0 < unit) (has : kind.Has value) (hasUnit : kind.Has unit) :
    (∃ result, kind.roundUp value unit = .ok result) ↔ value + unit ≤ kind.greatest := by
  simp only [roundUp_eq_ok_iff positive]
  constructor
  · rintro ⟨_, raised, -⟩
    exact raised.2
  · intro room
    have raised : kind.Has (value + unit) := ⟨by have := has.1; omega, room⟩
    have last : kind.Has (value + unit - 1) := ⟨by have := has.1; omega, by omega⟩
    obtain ⟨units, product⟩ := last.tdiv positive hasUnit
    exact ⟨_, raised, last, units, product, rfl⟩

/-- The result is the least multiple that is not below the value, or the one behind it. It is the least
    one for every value that is less than a unit below zero, and else only for those that stand one above
    a multiple. -/
theorem roundUp_isLeast_iff (kind : IntKind) (value : Int) (positive : 0 < unit) :
    (kind.Has value → kind.Has unit →
      ((∃ result, kind.roundUp value unit = .ok result) ↔ value + unit ≤ kind.greatest)) ∧
    ∀ result, kind.roundUp value unit = .ok result →
      unit ∣ result ∧
      (IsLeast (multiplesFrom unit value) result ↔ -unit < value ∨ unit ∣ value - 1) ∧
      (IsLeast (multiplesFrom unit value) result ∨
        IsLeast (multiplesFrom unit value) (result - unit)) := by
  refine ⟨exists_roundUp_iff positive, ?_⟩
  intro result evaluated
  obtain ⟨-, -, -, -, rfl⟩ := (roundUp_eq_ok_iff positive).1 evaluated
  have divides : unit ∣ (value + unit - 1).tdiv unit * unit := Int.dvd_mul_left _ _
  have whole := Int.tdiv_mul_add_tmod (value + unit - 1) unit
  have above := Int.lt_tmod_of_pos (value + unit - 1) positive
  have below := Int.tmod_lt_of_pos (value + unit - 1) positive
  -- The result is the least one if and only if what was left over is not negative.
  have exact_iff : IsLeast (multiplesFrom unit value) ((value + unit - 1).tdiv unit * unit) ↔
      0 ≤ (value + unit - 1).tmod unit := by
    rw [isLeast_multiplesFrom_iff positive]
    omega
  refine ⟨divides, ?_, ?_⟩
  · have shifted : unit ∣ value + unit - 1 ↔ unit ∣ value - 1 := by
      rw [show value + unit - 1 = value - 1 + unit by omega]
      exact Int.dvd_add_left (Int.dvd_refl unit)
    rw [exact_iff, tmod_nonneg_iff, shifted]
    omega
  · rcases lt_or_ge ((value + unit - 1).tmod unit) 0 with negative | nonneg
    · right
      rw [isLeast_multiplesFrom_iff positive]
      exact ⟨Int.dvd_sub divides (Int.dvd_refl unit), by omega, by omega⟩
    · exact .inl (exact_iff.2 nonneg)

theorem roundUp_isLeast_iff_below_zero :
    roundUp { signed := true, bits := 32 } (-13) 8 = .ok 0 ∧
      ¬ IsLeast (multiplesFrom 8 (-13)) 0 ∧ IsLeast (multiplesFrom 8 (-13)) (0 - 8) := by
  have evaluated : roundUp { signed := true, bits := 32 } (-13) 8 = .ok 0 := by decide
  obtain ⟨-, rounds⟩ :=
    roundUp_isLeast_iff { signed := true, bits := 32 } (-13) (show (0 : Int) < 8 by decide)
  obtain ⟨-, least_iff, least_or⟩ := rounds 0 evaluated
  have missed : ¬ IsLeast (multiplesFrom 8 (-13)) 0 := by
    rw [least_iff]
    decide
  exact ⟨evaluated, missed, least_or.resolve_left missed⟩

/-- A multiple below zero does not stay where it is. -/
theorem roundUp_moves_multiple :
    roundUp { signed := true, bits := 32 } (-8) 8 = .ok 0 ∧
      IsLeast (multiplesFrom 8 (-8)) (-8) ∧ ¬ IsLeast (multiplesFrom 8 (-8)) 0 := by
  simp only [isLeast_multiplesFrom_iff (show (0 : Int) < 8 by decide)]
  decide

end IntKind

end NextFit
