import Gerber.Proofs.Scaling.Rational
import Mathlib.Algebra.Order.Round
import Mathlib.Data.Rat.Floor
import Mathlib.Tactic.FieldSimp
import Mathlib.Tactic.Linarith

/-!
# Nearest integers of fractions

A fraction goes to the nearest integer, and a half goes away from zero.  The nearest integer of 64
bits is the same one for all fractions that are in range.
-/

namespace Gerber.Decimal

/-- The integer nearest to a fraction; a half goes away from zero. -/
def nearestInt (q : ℚ) : ℤ := q.num.sign * round |q|

private theorem roundDiv_up (num : Nat) {den : Nat} (hden : 0 < den) :
    roundDiv .up num den = (2 * num + den) / (2 * den) := by
  have hsplit := Nat.div_add_mod num den
  have hrest := Nat.mod_lt num hden
  have htwice : 2 * num + den = 2 * den * (num / den) + (2 * (num % den) + den) := by
    rw [Nat.mul_assoc]
    omega
  rw [htwice, Nat.mul_add_div (by omega), roundDiv]
  by_cases hlow : 2 * (num % den) < den
  · have hzero : (2 * (num % den) + den) / (2 * den) = 0 := Nat.div_eq_of_lt (by omega)
    rw [if_pos hlow, hzero, Nat.add_zero]
  · have hone : (2 * (num % den) + den) / (2 * den) = 1 :=
      Nat.div_eq_of_lt_le (by omega) (by omega)
    rw [if_neg hlow, hone]
    simp

private theorem round_abs_eq (q : ℚ) : round |q| = (roundDiv .up q.num.natAbs q.den : ℤ) := by
  have hden : (q.den : ℚ) ≠ 0 := Nat.cast_ne_zero.mpr q.den_ne_zero
  have habs : |q| = q.num.natAbs / q.den := by
    rw [Nat.cast_natAbs, Int.cast_abs, ← Nat.abs_cast q.den, ← abs_div, Rat.num_div_den]
  have hhalf : |q| + 1 / 2 = ((2 * q.num.natAbs + q.den : ℕ) : ℚ) / ((2 * q.den : ℕ) : ℚ) := by
    rw [habs]
    push_cast
    field_simp
  rw [round_eq, hhalf, Rat.floor_natCast_div_natCast, roundDiv_up _ q.den_pos]
  push_cast
  rfl

theorem natAbs_nearestInt (q : ℚ) : ((nearestInt q).natAbs : ℤ) = round |q| := by
  rw [nearestInt, round_abs_eq]
  rcases lt_trichotomy q 0 with hq | rfl | hq
  · rw [Int.sign_eq_neg_one_of_neg (Rat.num_neg.mpr hq)]
    omega
  · rfl
  · rw [Int.sign_eq_one_of_pos (Rat.num_pos.mpr hq)]
    omega

theorem nearestInt_intCast (n : ℤ) : nearestInt n = n := by
  rw [nearestInt, Rat.num_intCast, ← Int.cast_abs, round_intCast, Int.sign_mul_abs]

theorem abs_sub_nearestInt_le (q : ℚ) : |q - nearestInt q| ≤ 1 / 2 := by
  have hround := abs_sub_round |q|
  rw [nearestInt]
  rcases lt_trichotomy q 0 with hq | rfl | hq
  · rw [abs_of_neg hq] at hround ⊢
    rw [Int.sign_eq_neg_one_of_neg (Rat.num_neg.mpr hq), ← abs_neg]
    refine le_of_eq_of_le (congrArg _ ?_) hround
    push_cast
    ring
  · norm_num
  · rw [abs_of_pos hq] at hround ⊢
    rw [Int.sign_eq_one_of_pos (Rat.num_pos.mpr hq), Int.one_mul]
    exact hround

private theorem nearest_eq (q : ℚ) :
    Scalar.nearest q = max (-2 ^ 63) (min (nearestInt q) (2 ^ 63 - 1)) := by
  rw [nearestInt, round_abs_eq]
  rfl

/-- Numbers of 64 bits have more digits than coordinates. -/
theorem nearest_of_lt {q : ℚ} (h : (nearestInt q).natAbs < 2 ^ 63) :
    Scalar.nearest q = nearestInt q := by
  rw [nearest_eq]
  omega

theorem natAbs_nearest_lt_iff {q : ℚ} {limit : Nat} (h : limit < 2 ^ 63) :
    (Scalar.nearest q).natAbs < limit ↔ (nearestInt q).natAbs < limit := by
  rw [nearest_eq]
  omega

end Gerber.Decimal
