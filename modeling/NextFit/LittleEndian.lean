/-! # Little-endian words

A number as a fixed count of bytes with the lowest byte first. Writing a number that fits and
reading any bytes undo each other.
-/

namespace NextFit.LittleEndian

/-- One more than the greatest number that fits a count of bytes. -/
def bound : (width : Nat) → Nat
  | 0 => 1
  | width + 1 => 256 * bound width

/-- The lowest `width` bytes of a number. -/
def encode : (width value : Nat) → List UInt8
  | 0, _ => []
  | width + 1, value => UInt8.ofNat value :: encode width (value / 256)

/-- The number that the bytes stand for. -/
def decode : List UInt8 → Nat
  | [] => 0
  | b :: rest => b.toNat + 256 * decode rest

@[simp] theorem length_encode (width value : Nat) : (encode width value).length = width := by
  induction width generalizing value with
  | zero => rfl
  | succ width ih => simp [encode, ih]

/-- Reading what was written gives the part of the number that fits. -/
theorem decode_encode (width value : Nat) : decode (encode width value) = value % bound width := by
  induction width generalizing value with
  | zero => simp [encode, decode, bound, Nat.mod_one]
  | succ width ih =>
      simp only [encode, decode, bound, ih, UInt8.toNat_ofNat', Nat.reducePow]
      rw [Nat.mod_mul]

/-- Writing what was read gives the same bytes. -/
theorem encode_decode (bs : List UInt8) : encode bs.length (decode bs) = bs := by
  induction bs with
  | nil => rfl
  | cons b rest ih =>
      have small := b.toNat_lt
      have low : UInt8.ofNat (b.toNat + 256 * decode rest) = b := by
        apply UInt8.toNat_inj.1
        rw [UInt8.toNat_ofNat']
        omega
      have high : (b.toNat + 256 * decode rest) / 256 = decode rest := by omega
      simp only [List.length_cons, encode, decode, low, high, ih]

theorem decode_lt (bs : List UInt8) : decode bs < bound bs.length := by
  induction bs with
  | nil => exact Nat.one_pos
  | cons b rest ih =>
      have small := b.toNat_lt
      simp only [decode, bound, List.length_cons]
      omega

end NextFit.LittleEndian
