import Mathlib.Algebra.Group.Nat.Defs
import XamlBinary.Bytes.LittleEndian

/-!
Numbers and their bytes determine each other, as long as the number fits.
-/

namespace XamlBinary.LittleEndian

theorem value_lt (bs : List UInt8) : value bs < 256 ^ bs.length := by
  induction bs with
  | nil => simp
  | cons b bs ih =>
      have hb : b.toNat < 256 := b.toNat_lt
      rw [value_cons, List.length_cons, Nat.pow_succ]
      omega

theorem value_bytes (width n : Nat) : value (bytes width n) = n % 256 ^ width := by
  induction width generalizing n with
  | zero => simp [bytes, Nat.mod_one]
  | succ width ih =>
      rw [bytes, value_cons, ih, Nat.pow_succ, Nat.mul_comm (256 ^ width), Nat.mod_mul]
      simp

theorem value_bytes_of_lt {width n : Nat} (h : n < 256 ^ width) :
    value (bytes width n) = n := by
  rw [value_bytes, Nat.mod_eq_of_lt h]

/-- The number that `width` bytes spell determines them. -/
theorem bytes_mod_value {bytes : List UInt8} {width n : Nat} (hlength : bytes.length = width)
    (hn : n = value bytes % 256 ^ width) : LittleEndian.bytes width n = bytes := by
  subst hlength
  rw [hn, Nat.mod_eq_of_lt (value_lt bytes), bytes_value]

end XamlBinary.LittleEndian
