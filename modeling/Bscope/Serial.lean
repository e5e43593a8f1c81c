import Mathlib.Algebra.Group.Nat.Defs

set_option autoImplicit false

/- Serial numbers: places in a stream, counted from any first word on and told apart
by the sign of a difference of words. -/
namespace Bscope.Serial

/-- The word of the place `n` in a stream whose place 0 has the word `base`. -/
def word (base : UInt32) (n : Nat) : UInt32 := base + UInt32.ofNat n

/-- A difference of words that is negative when it is read as a signed one. -/
def Negative (x : UInt32) : Prop := x.toInt32 < 0

instance (x : UInt32) : Decidable (Negative x) := inferInstanceAs (Decidable (_ < _))

theorem negative_iff (x : UInt32) : Negative x ↔ 2 ^ 31 ≤ x.toNat := by
  have sign : x.toInt32 < 0 ↔ x.toBitVec.toInt < 0 := Int32.lt_iff_toInt_lt
  rw [Negative, sign, BitVec.toInt_neg_iff]
  show 2 ^ 32 ≤ 2 * x.toNat ↔ _
  omega

@[simp] theorem word_zero (base : UInt32) : word base 0 = base := by
  simp [word]

theorem word_add (base : UInt32) (m n : Nat) :
    word base (m + n) = word base m + UInt32.ofNat n := by
  rw [word, word, UInt32.ofNat_add, UInt32.add_assoc]

/-- Every word is that of a place. -/
theorem word_toNat_sub (base x : UInt32) : word base (x - base).toNat = x := by
  rw [word, UInt32.ofNat_toNat, UInt32.add_comm, UInt32.sub_add_cancel]

theorem toNat_ofNat_small (n : Nat) (small : n < 2 ^ 32) : (UInt32.ofNat n).toNat = n := by
  rw [UInt32.toNat_ofNat', Nat.mod_eq_of_lt small]

/-- The distance from a place to a later one. -/
theorem toNat_word_sub (base : UInt32) (p q : Nat) (order : p ≤ q) (near : q - p < 2 ^ 32) :
    (word base q - word base p).toNat = q - p := by
  have split : word base q = word base p + UInt32.ofNat (q - p) := by
    rw [← word_add]
    congr 1
    omega
  rw [split, UInt32.add_comm, UInt32.add_sub_cancel, toNat_ofNat_small _ near]

/-- The distance to an earlier place goes round. -/
theorem toNat_word_sub_back (base : UInt32) (p q : Nat) (order : p < q) (near : q ≤ p + 2 ^ 32) :
    (word base p - word base q).toNat = 2 ^ 32 - (q - p) := by
  by_cases whole : q = p + 2 ^ 32
  · have same : word base q = word base p := by
      have round : UInt32.ofNat (2 ^ 32) = 0 := rfl
      rw [whole, word_add, round, UInt32.add_zero]
    rw [same, whole]
    simp
  · have ahead := toNat_word_sub base p q (Nat.le_of_lt order) (by omega)
    have negate : word base p - word base q = -(word base q - word base p) := UInt32.neg_sub.symm
    rw [negate, UInt32.toNat_neg, ahead]
    exact Nat.mod_eq_of_lt (show 2 ^ 32 - (q - p) < 2 ^ 32 by omega)

/-- Words less than half the circle apart are told apart as their places are. -/
theorem negative_word_sub (base : UInt32) (p q : Nat) (below : p < q + 2 ^ 31)
    (above : q < p + 2 ^ 31) : Negative (word base p - word base q) ↔ p < q := by
  rw [negative_iff]
  by_cases order : q ≤ p
  · rw [toNat_word_sub base q p order (by omega)]
    omega
  · rw [toNat_word_sub_back base p q (by omega) (by omega)]
    omega

/-- A place that is more than half the circle ahead seems to be behind. -/
theorem negative_word_sub_far (base : UInt32) (p q : Nat) (far : p + 2 ^ 31 < q)
    (near : q ≤ p + 2 ^ 32) : ¬ Negative (word base p - word base q) := by
  rw [negative_iff, toNat_word_sub_back base p q (by omega) near]
  omega

/-- A difference that is small enough is positive when it is read as a signed one. -/
theorem positive_iff (x : UInt32) (small : x.toNat < 2 ^ 31) : 0 < x.toInt32 ↔ 0 < x.toNat := by
  have sign : 0 < x.toInt32 ↔ 0 < x.toBitVec.toInt := Int32.lt_iff_toInt_lt
  have value : x.toBitVec.toInt = x.toNat := BitVec.toInt_eq_toNat_of_lt (by
    show 2 * x.toNat < 2 ^ 32
    omega)
  rw [sign, value]
  omega

/-- The same of the word before the first of them. -/
theorem negative_sub_one_sub (x y : UInt32) : Negative (x - 1 - y) ↔ Negative (x - (y + 1)) := by
  have same : x - 1 - y = x - (y + 1) := by grind
  rw [same]

end Bscope.Serial
