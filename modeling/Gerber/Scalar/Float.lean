import Gerber.Decimal.Hypotenuse
import Gerber.Decimal.Layout
import Gerber.Scalar

/-!
# Floating-point scalars

The program computes with floating-point numbers of 64 bits.
-/

namespace Gerber

open Decimal

/-- The number nearest to a numeral.  A power of ten that puts the first digit beyond the range
of the type is not computed. -/
def Numeral.toFloat : Numeral → Float
  | .finite negative digits exponent =>
    let first := (Text.ofNat digits).length + exponent
    if digits = 0 ∨ first < -330 then Binary64.nearest negative 0 1
    else if 310 < first then Binary64.infinity negative
    else
      let value := scaleTen digits exponent
      Binary64.nearest negative value.1 value.2
  | .infinite negative => Binary64.infinity negative
  | .notANumber => Binary64.absent

/-- The natural number that a floating-point number equals, if there is one. -/
def Decimal.Binary64.nat? : Binary64 → Option Nat
  | .finite negative mantissa exponent =>
    let value := scaleTwo mantissa exponent
    if value.1 % value.2 = 0 ∧ (mantissa = 0 ∨ negative = false) then some (value.1 / value.2)
    else none
  | _ => none

def Decimal.powFloat (base : Float) (n : Nat) : Float := go base 1.0 n
where
  go (base acc : Float) (n : Nat) : Float :=
    if n = 0 then acc
    else
      let acc := if n % 2 = 1 then acc * base else acc
      if n / 2 = 0 then acc else go (base * base) acc (n / 2)
  termination_by n
  decreasing_by omega

/-- How messages show a number: all its digits, without a power of ten. -/
def shownNumber : Layout where
  tie := .up
  positional := fun _ => true
  wholeTail := []
  infinite := "inf".toList
  absent := "NaN".toList

instance : Scalar Float where
  ofNat n := Binary64.nearest false n 1
  ofNumeral := Numeral.toFloat
  pow10 := powFloat 10.0
  lt x y := x < y
  hypot := hypotenuse
  nat? x := (Binary64.ofFloat x).nat?
  count x := x.toUInt32.toNat
  nearest x := x.round.toInt64.toInt
  shown := shownNumber.write
  shownTo := fixedText

end Gerber
