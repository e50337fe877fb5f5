import Gerber.Coord
import Gerber.Mode

/-!
# Steps

A step is one graphics operation with its complete modal state.
-/

namespace Gerber

/-- One graphics operation.  `region` and `stepRepeat` are the indices of the region and of the
step-and-repeat block that are open at the step; `origin` is where the aperture block that the
step stems from was flashed; `line` is the source line of the command that completed it. -/
structure Step (α : Type) where
  number : Nat
  polarity : Polarity
  quadrant : Quadrant
  interpolation : Interpolation
  aperture : Option Nat
  prev : Coord α
  coord : Coord α
  action : Action
  region : Option Nat
  stepRepeat : Option Nat
  origin : Vec α
  line : Nat

namespace Step

variable {α : Type} [Scalar α]

/-- The step that every list of steps starts from. -/
def root : Step α where
  number := 0
  polarity := .dark
  quadrant := .multi
  interpolation := .linear
  aperture := none
  prev := .zero
  coord := .zero
  action := .move
  region := none
  stepRepeat := none
  origin := .zero
  line := 0

/-- The state that the next step starts from: the modal state is kept, and the coordinate becomes
the previous one. -/
def successor (s : Step α) (number : Nat) : Step α :=
  { s with number, prev := s.coord, coord := .zero, origin := .zero, line := 0 }

end Step

end Gerber
