import NextFit.Failure

/-! # Machine sizes

Sizes and addresses are natural numbers below `2 ^ 64`. The operations here keep them there: those
that end in `?` say `none` when the exact result is not a size, the others fault. A result is always
the exact one.
-/

namespace NextFit.Size

/-- One more than the greatest size. -/
def bound : Nat := UInt64.size

def greatest : Nat := bound - 1

/-- The number itself, if it is a size. -/
def ofNat? (n : Nat) : Option Nat :=
  if n < bound then some n else none

def add? (a b : Nat) : Option Nat :=
  ofNat? (a + b)

def mul? (a b : Nat) : Option Nat :=
  ofNat? (a * b)

/-- The sum; a sum that is no size is a fault. -/
def add (a b : Nat) : Except Fault Nat :=
  if a + b < bound then .ok (a + b) else .error (.overflow .addition)

def sub (a b : Nat) : Except Fault Nat :=
  if b ≤ a then .ok (a - b) else .error (.overflow .subtraction)

def mul (a b : Nat) : Except Fault Nat :=
  if a * b < bound then .ok (a * b) else .error (.overflow .multiplication)

/-- The sum of a list, added up from the left. -/
def sum (sizes : List Nat) : Except Fault Nat :=
  sizes.foldlM add 0

/-- The address at a signed distance, going round at both ends of the address space. -/
def offset (address : Nat) (distance : Int) : Nat :=
  ((address + distance) % bound).toNat

theorem le_greatest_iff {n : Nat} : n ≤ greatest ↔ n < bound := by
  have least : 0 < bound := by decide
  unfold greatest
  omega

theorem ofNat?_eq_some_iff {n m : Nat} : ofNat? n = some m ↔ n < bound ∧ m = n := by
  unfold ofNat?
  split
  · simp [*, eq_comm]
  · simp [*]

theorem add?_eq_some_iff {a b c : Nat} : add? a b = some c ↔ a + b < bound ∧ c = a + b :=
  ofNat?_eq_some_iff

theorem mul?_eq_some_iff {a b c : Nat} : mul? a b = some c ↔ a * b < bound ∧ c = a * b :=
  ofNat?_eq_some_iff

/-- The sum is a size and does not go beyond a bound. -/
theorem any_add?_le_iff {a b stop : Nat} :
    (add? a b).any (· ≤ stop) = true ↔ a + b < bound ∧ a + b ≤ stop := by
  simp only [Option.any_eq_true, add?_eq_some_iff, decide_eq_true_eq]
  constructor
  · rintro ⟨sum, ⟨size, rfl⟩, high⟩
    exact ⟨size, high⟩
  · rintro ⟨size, high⟩
    exact ⟨_, ⟨size, rfl⟩, high⟩

theorem add_of_lt {a b : Nat} (h : a + b < bound) : add a b = .ok (a + b) :=
  if_pos h

theorem sub_of_le {a b : Nat} (h : b ≤ a) : sub a b = .ok (a - b) :=
  if_pos h

theorem mul_of_lt {a b : Nat} (h : a * b < bound) : mul a b = .ok (a * b) :=
  if_pos h

theorem eq_of_add {a b c : Nat} (h : add a b = .ok c) : c = a + b := by
  unfold add at h
  split at h
  · exact (Except.ok.inj h).symm
  · cases h

theorem eq_of_mul {a b c : Nat} (h : mul a b = .ok c) : c = a * b := by
  unfold mul at h
  split at h
  · exact (Except.ok.inj h).symm
  · cases h

/-- An offset is again an address. -/
theorem offset_lt (address : Nat) (distance : Int) : offset address distance < bound := by
  have positive : (0 : Int) < (bound : Nat) := by decide
  have nonneg := Int.emod_nonneg ((address : Int) + distance) (Int.ne_of_gt positive)
  have below := Int.emod_lt_of_pos ((address : Int) + distance) positive
  unfold offset
  omega

end NextFit.Size
