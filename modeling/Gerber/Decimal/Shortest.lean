import Gerber.Decimal.Binary64

/-!
# Shortest decimals

A floating-point number is written with the fewest digits that read back as the same number.
The decimals that read back fill the interval that reaches half way to the two neighbours; its
ends belong to it if the mantissa is even.  Decimal grids are tried from the coarsest on, and on
the first grid that meets the interval the point nearest to the number is taken.
-/

namespace Gerber.Decimal

/-- The distance from `mantissa * 2 ^ exponent` to the lower end of its interval, in quarters of
the last place: the neighbour below a power of two is only half as far. -/
def lowerQuarters (mantissa : Nat) (exponent : Int) : Nat :=
  if mantissa = Nat.pow 2 52 ∧ -1074 < exponent then 1 else 2

/-- The digits that stand at the decimal place `place` and above for the grid point nearest to
`mantissa * 2 ^ exponent`, if one of the two neighbouring grid points reads back. -/
def gridDigits? (tie : Tie) (mantissa : Nat) (exponent place : Int) : Option Nat :=
  let binary := scaleTwo 1 (exponent - 2)
  let grid := scaleTen 1 place
  let up := binary.1 * grid.2
  let down := binary.2 * grid.1
  let middle := 4 * mantissa * up
  let lo := (4 * mantissa - lowerQuarters mantissa exponent) * up
  let hi := (4 * mantissa + 2) * up
  let inside (n : Nat) : Bool :=
    if mantissa % 2 = 0 then lo ≤ n * down && n * down ≤ hi else lo < n * down && n * down < hi
  let below := middle / down
  match inside below, inside (below + 1) with
  | true, true => some (roundDiv tie middle down)
  | true, false => some below
  | false, true => some (below + 1)
  | false, false => none

/-- A decimal place above every grid that meets the interval of a number whose highest binary
place is `binary`. -/
def coarsestPlace (binary : Int) : Int := (binary + 2) * 30103 / 100000 + 1

/-- The fewest digits and their last decimal place for the number `mantissa * 2 ^ exponent`. -/
def shortest (tie : Tie) (mantissa : Nat) (exponent : Int) : Nat × Int :=
  let start := coarsestPlace (mantissa.log2 + exponent)
  ((List.range 24).findSome? fun (k : Nat) =>
    (gridDigits? tie mantissa exponent (start - k)).map fun digits => (digits, start - k)).getD
      (0, 0)

end Gerber.Decimal
