import Gerber.Coord
import Gerber.Error

/-!
# Figures

Macro primitives with all their modifiers evaluated.  Lengths are in millimetres, rotations in
degrees about the origin of the aperture.
-/

namespace Gerber

/-- A shape with its sizes. -/
inductive Figure (α : Type) where
  | circle (exposure : Bool) (diameter : α) (center : Vec α) (rotation : α)
  | vectorLine (exposure : Bool) (width : α) (start finish : Vec α) (rotation : α)
  | centerLine (exposure : Bool) (width height : α) (center : Vec α) (rotation : α)
  | outline (exposure : Bool) (points : List (Vec α)) (rotation : α)
  | polygon (exposure : Bool) (vertices : Nat) (center : Vec α) (diameter rotation : α)
  | moire (center : Vec α) (outerDiameter ringThickness ringGap : α) (maxRings : Nat)
      (crosshairThickness crosshairLength rotation : α)
  | thermal (center : Vec α) (outerDiameter innerDiameter gap rotation : α)
deriving DecidableEq

namespace Figure

variable {α : Type} [Scalar α]

def isOn (exposure : α) : Bool := !Scalar.isZero exposure

/-- The first `n` points whose axes follow one another in a list. -/
def points (scale : α) : Nat → List α → List (Vec α)
  | n + 1, x :: y :: t => ⟨x * scale, y * scale⟩ :: points scale n t
  | _, _ => []

/-- An outline of exposure, vertex count, one point more than that, and a rotation. -/
def ofOutline (values : List α) (scale : α) : Except ApertureFault (Figure α) :=
  match values with
  | exposure :: count :: rest =>
    match Scalar.nat? count with
    | some n =>
      if n < 1 ∨ values.length < n then
        .error (.outlineVertices (Scalar.shown count) values.length)
      else
        match rest.drop (2 * (n + 1)) with
        | rotation :: _ => .ok (.outline (isOn exposure) (points scale (n + 1) rest) rotation)
        | [] => .error (.missingModifiers .outline (2 + 2 * (n + 1) + 1) values.length)
    | none => .error (.outlineVertices (Scalar.shown count) values.length)
  | _ => .error (.missingModifiers .outline 2 values.length)

/-- The figure of a primitive whose modifiers have the given values.  Values beyond those that the
primitive needs are left aside; the rotation of a circle may be missing. -/
def ofValues (primitive : Primitive) (values : List α) (scale : α) :
    Except ApertureFault (Figure α) :=
  match primitive, values with
  | .circle, e :: d :: x :: y :: rest =>
    .ok (.circle (isOn e) (d * scale) ⟨x * scale, y * scale⟩ (rest.headD Scalar.zero))
  | .circle, _ => .error (.missingModifiers .circle 4 values.length)
  | .vectorLine, e :: w :: sx :: sy :: ex :: ey :: r :: _ =>
    .ok (.vectorLine (isOn e) (w * scale) ⟨sx * scale, sy * scale⟩ ⟨ex * scale, ey * scale⟩ r)
  | .vectorLine, _ => .error (.missingModifiers .vectorLine 7 values.length)
  | .centerLine, e :: w :: h :: x :: y :: r :: _ =>
    .ok (.centerLine (isOn e) (w * scale) (h * scale) ⟨x * scale, y * scale⟩ r)
  | .centerLine, _ => .error (.missingModifiers .centerLine 6 values.length)
  | .outline, _ => ofOutline values scale
  | .polygon, e :: n :: x :: y :: d :: r :: _ =>
    .ok (.polygon (isOn e) (Scalar.count n) ⟨x * scale, y * scale⟩ (d * scale) r)
  | .polygon, _ => .error (.missingModifiers .polygon 6 values.length)
  | .moire, x :: y :: d :: t :: g :: n :: ct :: cl :: r :: _ =>
    .ok (.moire ⟨x * scale, y * scale⟩ (d * scale) (t * scale) (g * scale) (Scalar.count n)
      (ct * scale) (cl * scale) r)
  | .moire, _ => .error (.missingModifiers .moire 9 values.length)
  | .thermal, x :: y :: od :: id :: g :: r :: _ =>
    .ok (.thermal ⟨x * scale, y * scale⟩ (od * scale) (id * scale) (g * scale) r)
  | .thermal, _ => .error (.missingModifiers .thermal 6 values.length)

end Figure

end Gerber
