import Gerber.Text.Digits

/-!
# Numerals

The texts that write a number: an optional sign, then decimal digits with an optional point and
an optional power of ten, or the name of an infinity or of the absent number.  A numeral keeps
the sign apart from the digits, because zero has two of them.
-/

namespace Gerber

/-- What a number text says, before it is rounded to a number type. -/
inductive Numeral where
  /-- The number `digits * 10 ^ exponent`, negated if `negative`. -/
  | finite (negative : Bool) (digits : Nat) (exponent : Int)
  | infinite (negative : Bool)
  | notANumber
deriving DecidableEq

namespace Numeral

/-- The power of ten at the end of a numeral: nothing, or a letter `e`, a sign and digits. -/
def exponent? : Text → Option Int
  | [] => some 0
  | c :: t =>
    if c == 'e' || c == 'E' then
      match t with
      | '-' :: digits =>
        if Text.isDigits digits then some (-(Text.digitsValue digits : Int)) else none
      | '+' :: digits => if Text.isDigits digits then some (Text.digitsValue digits) else none
      | digits => if Text.isDigits digits then some (Text.digitsValue digits) else none
    else none

/-- The digits after a decimal point and what follows them. -/
def fraction : Text → Text × Text
  | '.' :: t => (t.takeWhile Char.isDigit, t.dropWhile Char.isDigit)
  | t => ([], t)

/-- Digits, a point among them or not, and a power of ten; at least one digit is required. -/
def decimal? (negative : Bool) (t : Text) : Option Numeral :=
  let whole := t.takeWhile Char.isDigit
  let tail := fraction (t.dropWhile Char.isDigit)
  if (whole ++ tail.1).isEmpty then none
  else
    (exponent? tail.2).map fun e =>
      .finite negative (Text.digitsValue (whole ++ tail.1)) (e - tail.1.length)

/-- The names that stand for no finite number, in capital or small letters. -/
def named? (negative : Bool) (t : Text) : Option Numeral :=
  let name := t.map Char.toLower
  if name == "inf".toList || name == "infinity".toList then some (.infinite negative)
  else if name == "nan".toList then some .notANumber
  else none

def unsigned? (negative : Bool) (t : Text) : Option Numeral :=
  (decimal? negative t).or (named? negative t)

/-- The numeral that the whole text writes. -/
def ofText? : Text → Option Numeral
  | '-' :: t => unsigned? true t
  | '+' :: t => unsigned? false t
  | t => unsigned? false t

end Numeral

end Gerber
