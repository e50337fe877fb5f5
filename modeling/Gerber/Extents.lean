import Gerber.Step

/-!
# Extents

The bounding box of the coordinates that a program visits.
-/

namespace Gerber

/-- The least and the greatest of some scalars. -/
structure Span (α : Type) where
  lo : α
  hi : α

/-- The bounding box of some places: the span of each axis.  An axis has none as long as no number
has been seen on it. -/
structure Extents (α : Type) where
  x : Option (Span α)
  y : Option (Span α)

variable {α : Type}

namespace Extents

def empty : Extents α := ⟨none, none⟩

def isEmpty (e : Extents α) : Bool := e.x.isNone || e.y.isNone

end Extents

variable [Scalar α]

/-- The span that also reaches `value`.  What is no number has no place in it; of two equal ends,
which may be zeros of different sign, the later one counts. -/
def Span.reach (span : Option (Span α)) (value : α) : Option (Span α) :=
  if Scalar.isAbsent value then span
  else
    match span with
    | none => some ⟨value, value⟩
    | some ⟨lo, hi⟩ =>
      some ⟨if Scalar.lt lo value then lo else value, if Scalar.lt value hi then hi else value⟩

namespace Extents

def cover (e : Extents α) (v : Vec α) : Extents α := ⟨Span.reach e.x v.x, Span.reach e.y v.y⟩

/-- The box that also holds what a step visits: both ends of a draw, the end of a move or flash,
and nothing for a stop. -/
def visit (e : Extents α) (s : Step α) : Extents α :=
  match s.action with
  | .stop => e
  | .draw => (e.cover s.prev.place).cover s.coord.place
  | .move => e.cover s.coord.place
  | .flash => e.cover s.coord.place

def ofSteps (steps : List (Step α)) : Extents α := steps.foldl visit empty

end Extents

end Gerber
