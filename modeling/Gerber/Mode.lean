/-!
# Modes

The modal state of a command stream, and what a step does at its coordinate.
-/

namespace Gerber

/-- Whether a step adds to the image or takes from it. -/
inductive Polarity where
  | dark
  | clear
deriving DecidableEq

/-- How arcs relate to quadrants. -/
inductive Quadrant where
  | single
  | multi
deriving DecidableEq

/-- The path of a draw. -/
inductive Interpolation where
  | linear
  | clockwise
  | counterclockwise
deriving DecidableEq

/-- What a step does at its coordinate. -/
inductive Action where
  | draw
  | move
  | flash
  | stop
deriving DecidableEq

end Gerber
