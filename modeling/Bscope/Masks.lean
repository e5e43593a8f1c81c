import Mathlib.Data.Nat.Bitwise

set_option autoImplicit false

/- Words under a mask of their high bits, and words written byte by byte. -/
namespace Bscope.Masks

theorem shifted_value {w : Nat} (x : BitVec w) (n : Nat) :
    (x >>> n <<< n).toNat = x.toNat / 2 ^ n * 2 ^ n := by
  rw [BitVec.toNat_shiftLeft, BitVec.toNat_ushiftRight, Nat.shiftRight_eq_div_pow, Nat.shiftLeft_eq]
  apply Nat.mod_eq_of_lt
  exact Nat.lt_of_le_of_lt (Nat.div_mul_le_self _ _) x.isLt

/-- Under a mask without its low `n` bits a word is known by what stands above them. -/
theorem masked_eq_iff {w : Nat} (x y : BitVec w) (n : Nat) :
    x &&& BitVec.allOnes w <<< n = y &&& BitVec.allOnes w <<< n ↔
      x.toNat / 2 ^ n = y.toNat / 2 ^ n := by
  rw [← BitVec.shiftLeft_ushiftRight, ← BitVec.shiftLeft_ushiftRight, ← BitVec.toNat_inj,
    shifted_value, shifted_value]
  exact Nat.mul_left_inj (Nat.ne_of_gt (Nat.two_pow_pos n))

theorem and_shifted (n m k : Nat) : n &&& m <<< k = (n / 2 ^ k &&& m) <<< k := by
  apply Nat.eq_of_testBit_eq
  intro i
  rw [Nat.testBit_and, Nat.testBit_shiftLeft, Nat.testBit_shiftLeft, Nat.testBit_and,
    Nat.testBit_div_two_pow]
  by_cases above : k ≤ i
  · rw [Nat.sub_add_cancel above]
    simp [above]
  · simp [above]

/-- One byte of a number, left in its place. -/
theorem and_byte (n k : Nat) : n &&& 255 <<< k = (n / 2 ^ k % 256) <<< k := by
  rw [and_shifted, ← Nat.and_two_pow_sub_one_eq_mod _ 8]

/-- The number with four digits of a byte each, the first one highest. -/
def quad (a b c d : Nat) : Nat := ((a * 256 + b) * 256 + c) * 256 + d

theorem quad_or (a b c d : Nat) (hb : b < 256) (hc : c < 256) (hd : d < 256) :
    a <<< 24 ||| b <<< 16 ||| c <<< 8 ||| d = quad a b c d := by
  have low : c <<< 8 ||| d = c * 256 + d := by
    rw [← Nat.shiftLeft_add_eq_or_of_lt (show d < 2 ^ 8 from hd), Nat.shiftLeft_eq]
  have middle : b <<< 16 ||| (c * 256 + d) = (b * 256 + c) * 256 + d := by
    rw [← Nat.shiftLeft_add_eq_or_of_lt (show c * 256 + d < 2 ^ 16 by omega), Nat.shiftLeft_eq]
    omega
  have below : (b * 256 + c) * 256 + d < 2 ^ 24 := by omega
  rw [Nat.or_assoc, Nat.or_assoc, low, middle, ← Nat.shiftLeft_add_eq_or_of_lt below,
    Nat.shiftLeft_eq]
  unfold quad
  omega

end Bscope.Masks
