import Gerber.Scalar.Float

/-!
# Decimal places

Floating-point numbers cut to a number of decimal places.
-/

namespace Gerber.Decimal

/-- The factor that moves the point by a number of places. -/
def placeFactor : Int → Float
  | .ofNat n => powFloat 10.0 n
  | .negSucc n => 1.0 / powFloat 10.0 (n + 1)

/-- The number rounded to `places` decimal places, half a unit away from zero; a negative count
stands for places before the point.  The product may overflow; what was finite is then infinite or
no number. -/
def roundTo (places : Int) (x : Float) : Float :=
  (x * placeFactor places).round / placeFactor places

/-- The count of places that a word of 32 bits stands for: words with the highest bit are negative
counts. -/
def placesOfWord (word : Nat) : Int := Int.bmod word (Nat.pow 2 32)

theorem placesOfWord_of_lt {word : Nat} (h : word < Nat.pow 2 31) :
    placesOfWord word = word := by
  have hsmall : word < 2 ^ 31 := by simpa only [Nat.pow_eq] using h
  have hunfold : placesOfWord word = Int.bmod word (2 ^ 32) := rfl
  rw [hunfold]
  exact Int.bmod_eq_of_le (by omega) (by omega)

end Gerber.Decimal
