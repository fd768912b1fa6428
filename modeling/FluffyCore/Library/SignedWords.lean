import Mathlib.Algebra.Order.Ring.Int

/-!
# Signed 64-bit words

Converting an unsigned word to a signed one keeps the bits, and so do negation and
multiplication as far as they fit. What is read back is the balanced residue of the true
result. It is the true result exactly on a range, which is not the same for a word and for
its negation.

The usual test for an overflowing product divides the wrapped product by the factor again.
It is exact for positive factors: a wrapped product is at most half of the word range in
size, and what does not fit is larger.
-/

namespace FluffyCore.Library.SignedWords

/-- A number reads back as itself exactly when it fits. -/
theorem bmod_eq_iff (value : Int) :
    value.bmod (2 ^ 64) = value ↔ -2 ^ 63 ≤ value ∧ value < 2 ^ 63 := by
  rw [Int.bmod_def]
  split <;> omega

/-- The signed reading of an unsigned word. -/
theorem toInt_toInt64 (word : UInt64) : word.toInt64.toInt = (word.toNat : Int).bmod (2 ^ 64) :=
  BitVec.toInt_eq_toNat_bmod word.toBitVec

/-- The signed reading of the negated word. -/
theorem toInt_neg_toInt64 (word : UInt64) :
    (-word.toInt64).toInt = (-(word.toNat : Int)).bmod (2 ^ 64) := by
  rw [Int64.toInt_neg, toInt_toInt64, Int.bmod_neg_bmod]

/-- A word keeps its value below the middle of its range. Above it is read as negative. -/
theorem toInt64_exact_iff (word : UInt64) :
    word.toInt64.toInt = word.toNat ∧ 0 ≤ word.toInt64.toInt ↔ word.toNat < 2 ^ 63 := by
  rw [toInt_toInt64, bmod_eq_iff, Int.bmod_def]
  split <;> omega

/-- The negation is that of the true value up to the middle, where the signed range has one
number more. Above it is read as positive. -/
theorem neg_toInt64_exact_iff (word : UInt64) :
    (-word.toInt64).toInt = -word.toNat ∧ (-word.toInt64).toInt ≤ 0 ↔ word.toNat ≤ 2 ^ 63 := by
  have bound := word.toNat_lt
  rw [toInt_neg_toInt64, bmod_eq_iff, Int.bmod_def]
  split <;> omega

/-- Dividing and multiplying again does not leave the side of zero a number is on, and moves
it towards zero. -/
theorem mul_tdiv_between (value : Int) {divisor : Int} (positive : 0 < divisor) :
    (0 ≤ value → 0 ≤ value.tdiv divisor * divisor ∧ value.tdiv divisor * divisor ≤ value) ∧
    (value ≤ 0 → value ≤ value.tdiv divisor * divisor ∧ value.tdiv divisor * divisor ≤ 0) := by
  have split := Int.tdiv_mul_add_tmod value divisor
  constructor
  · intro nonneg
    have quotient := Int.mul_nonneg (Int.tdiv_nonneg nonneg (Int.le_of_lt positive))
      (Int.le_of_lt positive)
    have remainder := Int.tmod_nonneg divisor nonneg
    omega
  · intro nonpos
    have opposite : 0 ≤ -value := Int.neg_nonneg_of_nonpos nonpos
    have quotient := Int.mul_nonneg (Int.tdiv_nonneg opposite (Int.le_of_lt positive))
      (Int.le_of_lt positive)
    have remainder := Int.tmod_nonneg divisor opposite
    rw [Int.neg_tdiv, Int.neg_mul] at quotient
    rw [Int.neg_tmod] at remainder
    omega

/-- The quotient by a positive word always fits. -/
theorem toInt_div_of_pos (value divisor : Int64) (positive : 0 < divisor.toInt) :
    (value / divisor).toInt = value.toInt.tdiv divisor.toInt := by
  rw [Int64.toInt_div, bmod_eq_iff]
  have low := value.le_toInt
  have high := value.toInt_lt
  have smaller := Int.natAbs_tdiv_le_natAbs value.toInt divisor.toInt
  rcases Int.le_total 0 value.toInt with nonneg | nonpos
  · have quotient := Int.tdiv_nonneg nonneg (Int.le_of_lt positive)
    omega
  · have quotient := Int.tdiv_nonneg (Int.neg_nonneg_of_nonpos nonpos) (Int.le_of_lt positive)
    rw [Int.neg_tdiv] at quotient
    omega

/-- **Multiply and divide back.** The test finds a product of a positive factor unchanged
exactly when the true product fits. -/
theorem mul_div_eq_iff (value factor : Int64) (positive : 0 < factor.toInt) :
    value * factor / factor = value ↔
      -2 ^ 63 ≤ value.toInt * factor.toInt ∧ value.toInt * factor.toInt < 2 ^ 63 := by
  rw [← Int64.toInt_inj, toInt_div_of_pos _ _ positive]
  constructor
  · intro same
    have low := (value * factor).le_toInt
    have high := (value * factor).toInt_lt
    have between := mul_tdiv_between (value * factor).toInt positive
    rw [same] at between
    rcases Int.le_total 0 (value * factor).toInt with nonneg | nonpos
    · have := between.1 nonneg
      omega
    · have := between.2 nonpos
      omega
  · intro fits
    rw [Int64.toInt_mul, (bmod_eq_iff _).2 fits, Int.mul_tdiv_cancel _ (Int.ne_of_gt positive)]

end FluffyCore.Library.SignedWords
