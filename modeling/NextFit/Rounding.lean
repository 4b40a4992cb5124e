import NextFit.Size

/-! # Rounding to whole units

`IntKind.roundUp` raises a machine integer to a multiple of a unit, in steps of which each has to
stay inside the type. `unitsFor` counts the units that a block needs. Units need not be powers of
two.
-/

namespace NextFit

/-- A machine integer type: unsigned or two's complement, of some width. -/
structure IntKind where
  signed : Bool
  bits : Nat
  deriving Repr, DecidableEq

namespace IntKind

/-- The type of sizes and addresses. -/
def size : IntKind := { signed := false, bits := 64 }

def least (kind : IntKind) : Int :=
  if kind.signed then -Int.pow 2 (kind.bits - 1) else 0

def greatest (kind : IntKind) : Int :=
  if kind.signed then Int.pow 2 (kind.bits - 1) - 1 else Int.pow 2 kind.bits - 1

/-- An exact result as a number of the type, or the fault of the operation that produced it. -/
def checked (kind : IntKind) (operation : Arithmetic) (exact : Int) : Except Fault Int :=
  if kind.least ≤ exact ∧ exact ≤ kind.greatest then .ok exact else .error (.overflow operation)

/-- Go up by a unit less one, then cut down to a multiple of the unit: `(value + unit - 1) / unit *
    unit`. The division drops the fraction, so it goes towards zero. -/
def roundUp (kind : IntKind) (value unit : Int) : Except Fault Int := do
  let raised ← kind.checked .addition (value + unit)
  let last ← kind.checked .subtraction (raised - 1)
  if unit = 0 then throw .zeroDivisor
  let units ← kind.checked .division (last.tdiv unit)
  kind.checked .multiplication (units * unit)

theorem checked_eq_ok_iff {kind : IntKind} {operation : Arithmetic} {exact result : Int} :
    kind.checked operation exact = .ok result ↔
      (kind.least ≤ exact ∧ exact ≤ kind.greatest) ∧ result = exact := by
  unfold checked
  split <;> rename_i inside
  · simp [inside, eq_comm]
  · simp [inside]

end IntKind

/-- A size raised to a multiple of a unit. -/
def Size.roundUp (value unit : Nat) : Except Fault Nat :=
  Int.toNat <$> IntKind.size.roundUp value unit

theorem IntKind.checked_size_of_lt {operation : Arithmetic} {exact : Int} {n : Nat}
    (whole : exact = n) (fits : n < Size.bound) :
    IntKind.size.checked operation exact = .ok (n : Int) := by
  have greatest : IntKind.size.greatest = (Size.bound : Int) - 1 := rfl
  refine checked_eq_ok_iff.2 ⟨⟨whole ▸ Int.natCast_nonneg n, ?_⟩, whole.symm⟩
  omega

/-- A size can be raised if there is room for one more unit. -/
theorem Size.roundUp_of_lt {value unit : Nat} (positive : 0 < unit)
    (fits : value + unit < Size.bound) :
    Size.roundUp value unit = .ok ((value + unit - 1) / unit * unit) := by
  have less := Nat.div_le_self (value + unit - 1) unit
  have multiple := Nat.div_mul_le_self (value + unit - 1) unit
  have raised : IntKind.size.checked .addition (value + unit) = .ok ((value + unit : Nat) : Int) :=
    IntKind.checked_size_of_lt (Int.natCast_add _ _).symm fits
  have last : IntKind.size.checked .subtraction ((value + unit : Nat) - 1) =
      .ok ((value + unit - 1 : Nat) : Int) := IntKind.checked_size_of_lt (by omega) (by omega)
  have units : IntKind.size.checked .division (((value + unit - 1 : Nat) : Int).tdiv unit) =
      .ok (((value + unit - 1) / unit : Nat) : Int) :=
    IntKind.checked_size_of_lt (Int.ofNat_tdiv _ _).symm (by omega)
  have product : IntKind.size.checked .multiplication
      (((value + unit - 1) / unit : Nat) * (unit : Int)) =
        .ok (((value + unit - 1) / unit * unit : Nat) : Int) :=
    IntKind.checked_size_of_lt (Int.natCast_mul _ _).symm (by omega)
  have apart : (unit : Int) ≠ 0 := by omega
  simp only [Size.roundUp, IntKind.roundUp, raised, last, units, product, bind, Except.bind,
    if_neg apart]
  rfl

/-- Without room for one more unit, a size cannot be raised. -/
theorem Size.roundUp_of_le {value unit : Nat} (beyond : Size.bound ≤ value + unit) :
    Size.roundUp value unit = .error (.overflow .addition) := by
  have greatest : IntKind.size.greatest = (Size.bound : Int) - 1 := rfl
  have raised : IntKind.size.checked .addition (value + unit) = .error (.overflow .addition) :=
    if_neg fun inside => by omega
  simp only [Size.roundUp, IntKind.roundUp, raised, bind, Except.bind]
  rfl

/-- How many units a block for `size` bytes occupies: the bytes in whole units, and one unit for
    the header. `none` if the count leaves the range of sizes on the way. -/
def unitsFor (size unit : Nat) : Except Fault (Option Nat) := do
  let slack ← Size.sub unit 1
  return do
    let raised ← Size.add? size slack
    Size.add? (raised / unit) 1

/-- The header alone takes a unit. -/
theorem unitsFor_pos {size unit units : Nat} (counted : unitsFor size unit = .ok (some units)) :
    0 < units := by
  rw [unitsFor] at counted
  cases below : Size.sub unit 1 with
  | error fault =>
      rw [below] at counted
      cases counted
  | ok slack =>
      rw [below] at counted
      obtain ⟨raised, -, sum⟩ := Option.bind_eq_some_iff.1 (Except.ok.inj counted)
      rw [(Size.add?_eq_some_iff.1 sum).2]
      exact Nat.succ_pos _

example : unitsFor 5 8 = .ok (some 2) := rfl
example : unitsFor 25 12 = .ok (some 4) := rfl
example : unitsFor Size.greatest 8 = .ok none := rfl
example : Size.roundUp 13 8 = .ok 16 := rfl

end NextFit
