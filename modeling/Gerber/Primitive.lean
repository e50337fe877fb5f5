/-!
# Macro primitives

The shapes that an aperture macro is built from.
-/

namespace Gerber

/-- A shape that an aperture macro can draw. -/
inductive Primitive where
  | circle
  | vectorLine
  | centerLine
  | outline
  | polygon
  | moire
  | thermal
deriving DecidableEq

namespace Primitive

/-- The shape that a code of a macro line stands for.  Code 2 is an old spelling of 20. -/
def ofCode? : Nat → Option Primitive
  | 1 => some circle
  | 2 => some vectorLine
  | 20 => some vectorLine
  | 21 => some centerLine
  | 4 => some outline
  | 5 => some polygon
  | 6 => some moire
  | 7 => some thermal
  | _ => none

def code : Primitive → Nat
  | circle => 1
  | vectorLine => 20
  | centerLine => 21
  | outline => 4
  | polygon => 5
  | moire => 6
  | thermal => 7

def title : Primitive → String
  | circle => "Circle"
  | vectorLine => "VectorLine"
  | centerLine => "CenterLine"
  | outline => "Outline"
  | polygon => "Polygon"
  | moire => "Moire"
  | thermal => "Thermal"

/-- The code of a shape stands for that shape. -/
theorem ofCode?_code (p : Primitive) : ofCode? p.code = some p := by cases p <;> rfl

end Primitive

end Gerber
