import Gerber.Decimal.Numeral

/-!
# Scalars

Coordinates, sizes and angles are scalars.  Everything that is computed with them is written over
this class, so that it can be run on floating-point numbers and studied over exact ones.
-/

namespace Gerber

/-- A type of numbers in which coordinates and sizes are computed. -/
class Scalar (α : Type) extends Add α, Sub α, Mul α, Div α, Neg α, BEq α where
  /-- The scalar of a natural number. -/
  ofNat : Nat → α
  /-- The scalar that a numeral writes. -/
  ofNumeral : Numeral → α
  /-- The power of ten with a natural exponent. -/
  pow10 : Nat → α
  /-- Whether the first scalar is less than the second. -/
  lt : α → α → Bool
  /-- The length of the hypotenuse over two sides. -/
  hypot : α → α → α
  /-- The natural number that the scalar equals, if there is one. -/
  nat? : α → Option Nat
  /-- The scalar without its fraction as a natural number of 32 bits; what is out of range goes
  to the nearest such number. -/
  count : α → Nat
  /-- The nearest integer of 64 bits; half an integer is rounded away from zero. -/
  nearest : α → Int
  /-- The scalar as messages show it. -/
  shown : α → Text
  /-- The scalar as messages show it with a given number of decimal places. -/
  shownTo : Nat → α → Text

namespace Scalar

variable {α : Type} [Scalar α]

def zero : α := ofNat 0

def one : α := ofNat 1

def decimal (digits : Nat) (exponent : Int) : α := ofNumeral (.finite false digits exponent)

def isZero (x : α) : Bool := x == zero

/-- Whether the scalar is no number: only then does it differ from itself. -/
def isAbsent (x : α) : Bool := !(x == x)

def ofText? (t : Text) : Option α := (Numeral.ofText? t).map ofNumeral

end Scalar

end Gerber
