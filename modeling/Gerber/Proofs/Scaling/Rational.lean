import Gerber.Decimal.Rounding
import Gerber.Proofs.Scaling.Lengths
import Mathlib.Algebra.Order.Field.Rat
import Mathlib.Data.Rat.Sqrt
import Mathlib.Tactic.NormNum

/-!
# Rational scalars

Fractions are scalars that compute exactly.  They have no infinities and no absent number, and a
hypotenuse that is no fraction is cut down to one.
-/

namespace Gerber

def Numeral.toRat : Numeral → ℚ
  | .finite negative digits exponent =>
    let magnitude : ℚ := digits * 10 ^ exponent
    if negative then -magnitude else magnitude
  | .infinite _ => 0
  | .notANumber => 0

/-- A fraction with a number of decimal places. -/
def Decimal.fixedRat (places : Nat) (x : ℚ) : Text :=
  let digits := roundDiv .toEven (x.num.natAbs * 10 ^ places) x.den
  let sign : Text := if x.num < 0 then ['-'] else []
  sign ++ Text.ofNat (digits / 10 ^ places) ++
    '.' :: (Text.ofNat (digits % 10 ^ places)).leftpad places '0'

instance : Scalar ℚ where
  ofNat n := n
  ofNumeral := Numeral.toRat
  pow10 n := 10 ^ n
  lt x y := x < y
  hypot x y := Rat.sqrt (x * x + y * y)
  nat? x := if x.den = 1 ∧ 0 ≤ x.num then some x.num.natAbs else none
  count x := min x.floor.toNat (Nat.pow 2 32 - 1)
  nearest x :=
    let rounded : Int := Decimal.roundDiv .up x.num.natAbs x.den
    max (-Int.pow 2 63) (min (x.num.sign * rounded) (Int.pow 2 63 - 1))
  shown x := if x.den = 1 then Text.ofInt x.num else Text.ofInt x.num ++ '/' :: Text.ofNat x.den
  shownTo := Decimal.fixedRat

private theorem isAbsent_rat (x : ℚ) : Scalar.isAbsent x = false := by
  simp only [Scalar.isAbsent, BEq.rfl, Bool.not_true]

theorem inch_rat : (inch : ℚ) = 127 / 5 := by
  norm_num [Scalar.decimal, Scalar.ofNumeral, Numeral.toRat]

/-- Fractions are converted from millimetres to inches exactly. -/
theorem exact_inch_rat : Exact (inch : ℚ) where
  mul_one x := by
    have hone : (Scalar.one : ℚ) = 1 := Nat.cast_one
    rw [hone, mul_one]
  zero_mul := by
    have hzero : (Scalar.zero : ℚ) = 0 := Nat.cast_zero
    rw [hzero, zero_mul]
  add_mul x y := add_mul x y inch
  mul_assoc x y := mul_assoc x y inch
  lt_mul x y := by
    have hpos : (0 : ℚ) < inch := by norm_num [inch_rat]
    exact decide_eq_decide.mpr (mul_lt_mul_iff_of_pos_right hpos)
  isAbsent_mul x := by rw [isAbsent_rat, isAbsent_rat]

end Gerber
