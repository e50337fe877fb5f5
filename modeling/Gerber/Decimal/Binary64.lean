import Gerber.Decimal.Rounding

/-!
# Binary floating-point numbers

A floating-point number of 64 bits is an integer of at most 53 bits times a power of two, an
infinity or no number.  The exact value of each such number is available here, and every
quotient of natural numbers is rounded to the nearest of them.
-/

namespace Gerber.Decimal

/-- The exact reading of a floating-point number. -/
inductive Binary64 where
  /-- The number `mantissa * 2 ^ exponent`, negated if `negative`. -/
  | finite (negative : Bool) (mantissa : Nat) (exponent : Int)
  | infinite (negative : Bool)
  | notANumber
deriving DecidableEq

/-- `n * 2 ^ e` as a quotient. -/
def scaleTwo (n : Nat) (e : Int) : Nat × Nat :=
  if 0 ≤ e then (n * Nat.pow 2 e.toNat, 1) else (n, Nat.pow 2 (-e).toNat)

/-- `n * 10 ^ e` as a quotient. -/
def scaleTen (n : Nat) (e : Int) : Nat × Nat :=
  if 0 ≤ e then (n * Nat.pow 10 e.toNat, 1) else (n, Nat.pow 10 (-e).toNat)

namespace Binary64

/-- Reads the sign, exponent and fraction fields. -/
def ofFloat (x : Float) : Binary64 :=
  let bits := x.toBits.toNat
  let negative := Nat.pow 2 63 ≤ bits
  let field : Nat := bits / Nat.pow 2 52 % Nat.pow 2 11
  let fraction : Nat := bits % Nat.pow 2 52
  if field = 2047 then if fraction = 0 then infinite negative else notANumber
  else if field = 0 then finite negative fraction (-1074)
  else finite negative (Nat.pow 2 52 + fraction) ((field : Int) - 1075)

/-- The fields of the infinity, above those of every finite number. -/
def infinityBits : Nat := 2047 * Nat.pow 2 52

/-- The exponent of the last place of the number nearest to the positive quotient `num / den`:
53 bits are kept, fewer where the exponent would fall below the least one. -/
def lastPlace (num den : Nat) : Int :=
  let guess := (num.log2 : Int) - den.log2 - 53
  let scaled := scaleTwo den (guess + 53)
  let place := if scaled.1 ≤ num * scaled.2 then guess + 1 else guess
  max place (-1074)

/-- The fields, without the sign, of the number nearest to `num / den`; a quotient half way
between two numbers goes to the even one. -/
def magnitudeBits (num den : Nat) : Nat :=
  if num = 0 then 0
  else
    let place := lastPlace num den
    let unit := scaleTwo 1 place
    let mantissa := roundDiv .toEven (num * unit.2) (den * unit.1)
    min ((place + 1074).toNat * Nat.pow 2 52 + mantissa) infinityBits

/-- The floating-point number with the given sign that is nearest to `num / den`. -/
def nearest (negative : Bool) (num den : Nat) : Float :=
  let bits := magnitudeBits num den
  Float.ofBits (UInt64.ofNat (if negative then Nat.pow 2 63 + bits else bits))

def infinity (negative : Bool) : Float := if negative then -1.0 / 0.0 else 1.0 / 0.0

def absent : Float := 0.0 / 0.0

end Binary64

end Gerber.Decimal
