import Gerber.Decimal.Binary64

/-!
# Hypotenuses

The length of the hypotenuse over two sides: the root of the sum of their squares, corrected once
by the excess of its own square.  Sides whose squares would leave the range of the type are scaled
by a power of two first.
-/

namespace Gerber.Decimal

/-- The power `2 ^ e`. -/
def powTwo (e : Int) : Float :=
  let value := scaleTwo 1 e
  Binary64.nearest false value.1 value.2

/-- The hypotenuse over the sides `long` and `short`, `short` being at most `long`.  The root `h` is
one step of Newton's method away from the answer; the excess of its square over the sum of the
squares is written in the difference of `h` to one of the sides, so that little of it
cancels. -/
def correctedRoot (long short : Float) : Float :=
  let h := (long * long + short * short).sqrt
  let excess :=
    if h ≤ 2.0 * short then
      let d := h - short
      long * (2.0 * d - long) + (d - 2.0 * (long - short)) * d
    else
      let d := h - long
      2.0 * d * (long - 2.0 * short) + ((4.0 * d - short) * short + d * d)
  h - excess / (2.0 * h)

/-- The hypotenuse over the sides `long` and `short`, `short` being at most `long`.  Where
`short` is so small that the answer rounds to `long`, their sum does. -/
def hypotenuseOrdered (long short : Float) : Float :=
  if powTwo 511 < long then
    if short ≤ long * powTwo (-54) then long + short
    else correctedRoot (long * powTwo (-600)) (short * powTwo (-600)) / powTwo (-600)
  else if short < powTwo (-459) then
    if short / powTwo (-54) ≤ long then long + short
    else correctedRoot (long / powTwo (-600)) (short / powTwo (-600)) * powTwo (-600)
  else if short ≤ long * powTwo (-54) then long + short
  else correctedRoot long short

/-- The length of the hypotenuse over the sides `x` and `y`.  A side without end makes it
infinite, whatever the other side is. -/
def hypotenuse (x y : Float) : Float :=
  match Binary64.ofFloat x, Binary64.ofFloat y with
  | .infinite _, _ | _, .infinite _ => Binary64.infinity false
  | .notANumber, _ | _, .notANumber => Binary64.absent
  | .finite _ _ _, .finite _ _ _ =>
    if x.abs < y.abs then hypotenuseOrdered y.abs x.abs else hypotenuseOrdered x.abs y.abs

end Gerber.Decimal
