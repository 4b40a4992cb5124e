/-! # Hexadecimal text

Numbers and bytes in base sixteen, with lowercase letters. A number has no leading zeros;
a byte always has two digits, so reading a written byte string gives it back.
-/

namespace NextFit.Hex

/-- The digits of a number, without leading zeros. -/
def digits (n : Nat) : String :=
  String.ofList (Nat.toDigits 16 n)

/-- A number behind its `0x` mark, as messages show sizes and addresses. -/
def marked (n : Nat) : String :=
  "0x" ++ digits n

/-- The two digits of a byte. -/
def ofByte (b : UInt8) : List Char :=
  [Nat.digitChar (b.toNat / 16), Nat.digitChar (b.toNat % 16)]

/-- A byte string, two digits a byte and nothing between them. -/
def ofBytes (bs : List UInt8) : String :=
  String.ofList (bs.flatMap ofByte)

/-- The value of one digit, in either case. -/
def digitValue? (c : Char) : Option Nat :=
  if '0' ≤ c ∧ c ≤ '9' then some (c.toNat - '0'.toNat)
  else if 'a' ≤ c ∧ c ≤ 'f' then some (c.toNat - 'a'.toNat + 10)
  else if 'A' ≤ c ∧ c ≤ 'F' then some (c.toNat - 'A'.toNat + 10)
  else none

/-- Read a byte string. An odd digit out or a character that is no digit gives `none`. -/
def toBytes? : List Char → Option (List UInt8)
  | [] => some []
  | [_] => none
  | high :: low :: rest => do
      let h ← digitValue? high
      let l ← digitValue? low
      let bs ← toBytes? rest
      return UInt8.ofNat (16 * h + l) :: bs

theorem digitValue?_digitChar {n : Nat} (h : n < 16) : digitValue? (Nat.digitChar n) = some n := by
  revert n
  decide

theorem ofNat_high_low (b : UInt8) : UInt8.ofNat (16 * (b.toNat / 16) + b.toNat % 16) = b := by
  rw [Nat.div_add_mod]
  exact UInt8.ofNat_toNat

/-- Every byte string reads back from its digits. -/
theorem toBytes?_flatMap_ofByte (bs : List UInt8) : toBytes? (bs.flatMap ofByte) = some bs := by
  induction bs with
  | nil => rfl
  | cons b rest ih =>
      have bound := b.toNat_lt
      have high : digitValue? (Nat.digitChar (b.toNat / 16)) = some (b.toNat / 16) :=
        digitValue?_digitChar (by omega)
      have low : digitValue? (Nat.digitChar (b.toNat % 16)) = some (b.toNat % 16) :=
        digitValue?_digitChar (by omega)
      simp only [List.flatMap_cons, ofByte, List.cons_append, List.nil_append, toBytes?, high, low,
        ih, Option.bind_eq_bind, Option.bind_some, Option.pure_def, ofNat_high_low]

end NextFit.Hex
