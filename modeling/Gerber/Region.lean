import Gerber.Coord
import Gerber.Error

/-!
# Regions

A region is a contour: its first and latest vertex, how many there are, and the lines on which it
was opened and closed.
-/

namespace Gerber

/-- A contour. -/
structure Region (α : Type) where
  start : Option (Coord α)
  last : Option (Coord α)
  vertices : Nat
  openLine : Nat
  closeLine : Option Nat

namespace Region

variable {α : Type}

def opened (line : Nat) : Region α := ⟨none, none, 0, line, none⟩

def isOpen (r : Region α) : Bool := r.closeLine.isNone

def addVertex (r : Region α) (c : Coord α) : Region α :=
  { r with start := r.start.or (some c), last := some c, vertices := r.vertices + 1 }

variable [Scalar α]

/-- The distance from the last vertex to the first; without vertices it is zero. -/
def gap (r : Region α) : α :=
  match r.start, r.last with
  | some start, some last => start.distance last
  | _, _ => Scalar.zero

def isContour (r : Region α) (tolerance : α) : Bool :=
  match r.start, r.last with
  | some start, some last => start.isNear last tolerance
  | _, _ => true

end Region

/-- The regions of a file in the order in which they were opened.  Steps refer to them by index. -/
structure Regions (α : Type) where
  regions : List (Region α)

namespace Regions

variable {α : Type}

def empty : Regions α := ⟨[]⟩

def get? (r : Regions α) (id : Nat) : Option (Region α) := r.regions[id]?

/-- Opens a region.  Its index is the number of regions before it. -/
def add (r : Regions α) (line : Nat) : Regions α := ⟨r.regions ++ [.opened line]⟩

/-- Whether a region is open; without a region there is nothing to ask about. -/
def isOpen (r : Regions α) (id : Option Nat) : Except Fault Bool :=
  match id.bind r.get? with
  | some region => .ok region.isOpen
  | none => .error .regionNotOpen

def addVertex (r : Regions α) (id : Nat) (c : Coord α) : Regions α :=
  match r.get? id with
  | some region => if region.isOpen then ⟨r.regions.set id (region.addVertex c)⟩ else r
  | none => r

/-- Closes an open region on a line; the result holds the closed region too. -/
def close (r : Regions α) (id : Option Nat) (line : Nat) :
    Except Fault (Regions α × Region α) :=
  match id with
  | none => .error .regionNotOpen
  | some k =>
    match r.get? k with
    | none => .error .regionNotOpen
    | some region =>
      if region.isOpen then
        let closed := { region with closeLine := some line }
        .ok (⟨r.regions.set k closed⟩, closed)
      else .error .regionNotOpen

end Regions

end Gerber
