import Gerber.Decimal.Shortest
import Gerber.Text.Digits

/-!
# Number texts

A layout says how a floating-point number is written once its digits are chosen: which sizes are
written positionally, whether a whole number keeps a point, and what stands for the values that
have no digits.
-/

namespace Gerber.Decimal

/-- The decisions of a number text. -/
structure Layout where
  /-- Where the digits of an exact tie come from. -/
  tie : Tie
  /-- Whether a number is written without a power of ten, by the place of its first digit. -/
  positional : Int → Bool
  /-- What follows a whole number that is written positionally. -/
  wholeTail : Text
  /-- What stands for an infinity, after its sign. -/
  infinite : Text
  /-- What stands for the absent number. -/
  absent : Text

/-- The digits with the last of them at the decimal place `place`, written positionally. -/
def positionalText (wholeTail : Text) (digits : Text) (place : Int) : Text :=
  if 0 ≤ place then digits ++ List.replicate place.toNat '0' ++ wholeTail
  else
    let fractional := (-place).toNat
    if fractional < digits.length then
      digits.take (digits.length - fractional) ++
        '.' :: digits.drop (digits.length - fractional)
    else '0' :: '.' :: (List.replicate (fractional - digits.length) '0' ++ digits)

/-- The digits with a point after the first of them and a signed power of ten. -/
def scientificText (digits : Text) (first : Int) : Text :=
  let point : Text := if digits.length ≤ 1 then [] else '.' :: digits.drop 1
  let sign : Text := if first < 0 then ['-'] else ['+']
  digits.take 1 ++ point ++ 'e' :: (sign ++ Text.ofNat first.natAbs)

namespace Layout

/-- The text of a number without its sign. -/
def magnitude (layout : Layout) (mantissa : Nat) (exponent : Int) : Text :=
  if mantissa = 0 then '0' :: layout.wholeTail
  else
    let number := shortest layout.tie mantissa exponent
    let digits := Text.ofNat number.1
    let first := number.2 + digits.length - 1
    if layout.positional first then positionalText layout.wholeTail digits number.2
    else scientificText digits first

def write (layout : Layout) (x : Float) : Text :=
  match Binary64.ofFloat x with
  | .finite negative mantissa exponent =>
    (if negative then ['-'] else []) ++ layout.magnitude mantissa exponent
  | .infinite negative => (if negative then ['-'] else []) ++ layout.infinite
  | .notANumber => layout.absent

end Layout

/-- The text of a number with `places` decimal places; a tie goes to the even neighbour. -/
def fixedText (places : Nat) (x : Float) : Text :=
  match Binary64.ofFloat x with
  | .finite negative mantissa exponent =>
    let value := scaleTwo (mantissa * Nat.pow 10 places) exponent
    let digits := Text.ofNat (roundDiv .toEven value.1 value.2)
    let padded := List.replicate (places + 1 - digits.length) '0' ++ digits
    (if negative then ['-'] else []) ++ positionalText [] padded (-(places : Int))
  | .infinite negative => (if negative then ['-'] else []) ++ "inf".toList
  | .notANumber => "NaN".toList

end Gerber.Decimal
