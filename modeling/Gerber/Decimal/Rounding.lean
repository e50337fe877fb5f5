/-!
# Rounding quotients

A quotient of natural numbers is rounded to the nearest natural number.
-/

namespace Gerber.Decimal

/-- Where a quotient goes that lies half way between two natural numbers. -/
inductive Tie where
  | toEven
  | up
deriving DecidableEq

/-- The natural number nearest to `num / den`. -/
def roundDiv (tie : Tie) (num den : Nat) : Nat :=
  let low := num / den
  let rest := 2 * (num % den)
  if rest < den then low
  else if den < rest then low + 1
  else if tie = .toEven ∧ low % 2 = 0 then low
  else low + 1

/-- A rounded quotient is at most half a unit away from the quotient. -/
theorem roundDiv_within (tie : Tie) {num den : Nat} (hden : 0 < den) :
    2 * num ≤ 2 * (roundDiv tie num den * den) + den ∧
      2 * (roundDiv tie num den * den) ≤ 2 * num + den := by
  have hsplit : den * (num / den) + num % den = num := Nat.div_add_mod num den
  have hrest : num % den < den := Nat.mod_lt num hden
  have hcomm : num / den * den = den * (num / den) := Nat.mul_comm _ _
  have hsucc : (num / den + 1) * den = den * (num / den) + den := by
    rw [Nat.add_mul, Nat.one_mul, hcomm]
  unfold roundDiv
  dsimp only
  split
  · rw [hcomm]; omega
  · split
    · rw [hsucc]; omega
    · split
      · rw [hcomm]; omega
      · rw [hsucc]; omega

end Gerber.Decimal
