import Tenure.Number.Magnitude

/-!
# Whole numbers in binary64 arithmetic

A whole number of at most `2⁵³` has a binary64 value of its own. Multiples and sums that stay within this
bound are exact, and rounding to whole numbers gives the number back.

* `ofUnits_whole`: no rounding of such a number.
* `ofFraction_whole`, `scale_whole`, `add_whole`: the operations are exact.
* `round?_whole`: every whole number is rounded to itself.
-/

namespace Tenure.Magnitude

/-- The whole numbers up to this one, `2⁵³`, are binary64 values. -/
def wholeLimit : Nat := 9007199254740992

variable {n k a b : Nat}

theorem unitsPerOne_pos : 0 < unitsPerOne := by decide +kernel

/-- The low bits of a shifted whole number that do not fit are zero. -/
theorem pow_excess_dvd (h : n ≤ wholeLimit) {u shift : Nat} (power : u = Nat.pow 2 shift) :
    Nat.pow 2 (excess (n * u)) ∣ n * u := by
  subst power
  have limit : wholeLimit = Nat.pow 2 53 := by decide
  rcases Nat.eq_zero_or_pos n with rfl | pos
  · rw [Nat.zero_mul]
    exact Nat.dvd_zero _
  · have nonzero : n * Nat.pow 2 shift ≠ 0 := Nat.ne_of_gt (Nat.mul_pos pos (Nat.two_pow_pos shift))
    rcases Nat.lt_or_eq_of_le h with below | rfl
    · -- the number has at most 53 bits, so that no more is cut off than the shift has put there
      have bits : Nat.log2 (n * Nat.pow 2 shift) < 53 + shift := by
        rw [Nat.log2_lt nonzero, Nat.pow_add]
        exact Nat.mul_lt_mul_of_pos_right (Nat.lt_of_lt_of_eq below limit) (Nat.two_pow_pos shift)
      have cut : excess (n * Nat.pow 2 shift) ≤ shift := by
        unfold excess
        omega
      exact Nat.dvd_trans (Nat.pow_dvd_pow 2 cut) (Nat.dvd_mul_left _ _)
    · -- the limit has one bit more, which is zero
      have whole : wholeLimit * Nat.pow 2 shift = Nat.pow 2 (53 + shift) := by
        rw [limit]
        exact (Nat.pow_add 2 53 shift).symm
      have cut : excess (Nat.pow 2 (53 + shift)) ≤ 53 + shift := by
        have bits : Nat.log2 (Nat.pow 2 (53 + shift)) = 53 + shift := Nat.log2_two_pow
        unfold excess
        omega
      rw [whole]
      exact Nat.pow_dvd_pow 2 cut

theorem ofUnits_whole (h : n ≤ wholeLimit) :
    ofUnits (n * unitsPerOne) 1 = .finite (n * unitsPerOne) := by
  obtain ⟨shift, power⟩ : ∃ shift, unitsPerOne = Nat.pow 2 shift := ⟨1074, by decide +kernel⟩
  have exact_units := roundUnits_of_dvd (pow_excess_dvd h power)
  have small : wholeLimit < Nat.pow 2 1024 := by decide +kernel
  unfold ofUnits
  generalize Nat.pow 2 1024 = limit at small ⊢
  rw [exact_units, if_pos]
  exact Nat.mul_lt_mul_of_pos_right (Nat.lt_of_le_of_lt h small) unitsPerOne_pos

theorem ofFraction_whole (h : n ≤ wholeLimit) : ofFraction n 1 = .finite (n * unitsPerOne) :=
  ofUnits_whole h

theorem scale_whole (h : n * k ≤ wholeLimit) :
    scale (.finite (n * unitsPerOne)) k = .finite (n * k * unitsPerOne) := by
  rw [scale, Nat.mul_right_comm]
  exact ofUnits_whole h

theorem add_whole (h : a + b ≤ wholeLimit) :
    add (.finite (a * unitsPerOne)) (.finite (b * unitsPerOne)) =
      .finite ((a + b) * unitsPerOne) := by
  rw [add, ← Nat.add_mul]
  exact ofUnits_whole h

theorem round?_whole (n : Nat) : round? (.finite (n * unitsPerOne)) = some n := by
  have pos := unitsPerOne_pos
  rw [round?]
  generalize unitsPerOne = u at *
  have same : n * (2 * u) = 2 * (n * u) := Nat.mul_left_comm ..
  have next : (n + 1) * (2 * u) = 2 * (n * u) + 2 * u := by
    rw [Nat.add_mul, Nat.one_mul, same]
  have quotient : (2 * (n * u) + u) / (2 * u) = n := Nat.div_eq_of_lt_le (by omega) (by omega)
  rw [quotient]

end Tenure.Magnitude
