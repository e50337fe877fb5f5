import Gerber.Scalar

/-!
# Coordinates

Places in the plane, in millimetres, and the coordinates that commands set.
-/

namespace Gerber

/-- A place or a distance in the plane. -/
structure Vec (α : Type) where
  x : α
  y : α
deriving DecidableEq

/-- A coordinate of a command.  The axes `x` and `y` are modal; `i` and `j` are the offsets of an
arc centre and hold only what the command itself sets.  `seq` counts the coordinates read, in a word
of 64 bits. -/
structure Coord (α : Type) where
  x : α
  y : α
  i : α
  j : α
  seq : UInt64

variable {α : Type} [Scalar α]

namespace Vec

def zero : Vec α := ⟨Scalar.zero, Scalar.zero⟩

def add (v w : Vec α) : Vec α := ⟨v.x + w.x, v.y + w.y⟩

def scale (v : Vec α) (s : α) : Vec α := ⟨v.x * s, v.y * s⟩

end Vec

namespace Coord

def zero : Coord α := ⟨Scalar.zero, Scalar.zero, Scalar.zero, Scalar.zero, 0⟩

def place (c : Coord α) : Vec α := ⟨c.x, c.y⟩

/-- The same coordinate moved by `d`; the arc offsets are relative and stay. -/
def translate (c : Coord α) (d : Vec α) : Coord α := { c with x := c.x + d.x, y := c.y + d.y }

def distance (c d : Coord α) : α := Scalar.hypot (c.x - d.x) (c.y - d.y)

def isNear (c d : Coord α) (tolerance : α) : Bool := Scalar.lt (c.distance d) tolerance

end Coord

end Gerber
