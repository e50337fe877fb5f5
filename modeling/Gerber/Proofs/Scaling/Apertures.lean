import Gerber.Aperture
import Gerber.Proofs.Scaling.Lengths

/-!
# Scaling of apertures

A definition in inches gives the aperture that it gives in millimetres, with its lengths multiplied.
Macros are kept as they are written, so they have no lengths; their figures have.
-/

namespace Gerber

variable {α : Type} [Scalar α]

namespace Figure

def scale (k : α) : Figure α → Figure α
  | circle exposure diameter center rotation =>
    circle exposure (diameter * k) (center.scale k) rotation
  | vectorLine exposure width start finish rotation =>
    vectorLine exposure (width * k) (start.scale k) (finish.scale k) rotation
  | centerLine exposure width height center rotation =>
    centerLine exposure (width * k) (height * k) (center.scale k) rotation
  | outline exposure points rotation => outline exposure (points.map (·.scale k)) rotation
  | polygon exposure vertices center diameter rotation =>
    polygon exposure vertices (center.scale k) (diameter * k) rotation
  | moire center outerDiameter ringThickness ringGap maxRings crosshairThickness crosshairLength
      rotation =>
    moire (center.scale k) (outerDiameter * k) (ringThickness * k) (ringGap * k) maxRings
      (crosshairThickness * k) (crosshairLength * k) rotation
  | thermal center outerDiameter innerDiameter gap rotation =>
    thermal (center.scale k) (outerDiameter * k) (innerDiameter * k) (gap * k) rotation

variable {k : α}

private theorem points_scale (hk : Exact k) (n : Nat) (values : List α) :
    points k n values = (points Scalar.one n values).map (·.scale k) := by
  fun_induction points Scalar.one n values with
  | case1 n x y t ih => simp only [points, ih, List.map_cons, Vec.scale, hk.mul_one]
  | case2 n values hshort =>
    unfold points
    split
    · exact absurd rfl (hshort _ _ _ _ rfl)
    · rfl

private theorem ofOutline_scale (hk : Exact k) (values : List α) :
    ofOutline values k = (ofOutline values Scalar.one).map (scale k) := by
  unfold ofOutline
  split
  · split
    · split_ifs
      · rfl
      · split
        · simp only [Except.map_ok, scale, points_scale hk]
        · rfl
    · rfl
  · rfl

private theorem ofValues_scale (hk : Exact k) (primitive : Primitive) (values : List α) :
    ofValues primitive values k = (ofValues primitive values Scalar.one).map (scale k) := by
  unfold ofValues
  split <;> simp [ofOutline_scale hk, scale, Vec.scale, hk.mul_one]

end Figure

namespace ApertureMacro

variable {k : α}

private theorem figure_scale (hk : Exact k) (bindings : Bindings α) (p : MacroPrimitive α) :
    figure bindings k p = (figure bindings Scalar.one p).map (Figure.scale k) := by
  unfold figure
  split
  · rfl
  · rw [Figure.ofValues_scale hk, Except.map_mapError]

private theorem figuresFrom_scale (hk : Exact k) (index : Nat) (bindings : Bindings α)
    (assignments : List (Assignment α)) (primitives : List (MacroPrimitive α)) :
    figuresFrom k index bindings assignments primitives =
      (figuresFrom Scalar.one index bindings assignments primitives).map
        (·.map (Figure.scale k)) := by
  induction primitives generalizing index bindings assignments with
  | nil => rfl
  | cons p rest ih =>
    simp only [figuresFrom, Except.map_bind, figure_scale hk, ih, Except.bind_map]
    rfl

private theorem figures_scale (hk : Exact k) (m : ApertureMacro α) (parameters : List α) :
    m.figures parameters k =
      (m.figures parameters Scalar.one).map (·.map (Figure.scale k)) :=
  figuresFrom_scale hk _ _ _ _

end ApertureMacro

def MacroInstance.scale (m : MacroInstance α) (k : α) : MacroInstance α :=
  { m with figures := m.figures.map (Figure.scale k) }

def BlockAperture.scale (b : BlockAperture α) (k : α) : BlockAperture α :=
  { b with steps := b.steps.map (·.scale k) }

namespace Shape

def scale (k : α) : Shape α → Shape α
  | circle diameter hole => circle (diameter * k) (hole.map (· * k))
  | rectangle width height hole => rectangle (width * k) (height * k) (hole.map (· * k))
  | obround width height hole => obround (width * k) (height * k) (hole.map (· * k))
  | polygon outerDiameter vertices rotation hole =>
    polygon (outerDiameter * k) vertices rotation (hole.map (· * k))
  | custom instanced => custom (instanced.scale k)
  | block b => block (b.scale k)

variable {k : α}

private theorem ofCircle_scale (hk : Exact k) (parameters : List α) :
    ofCircle k parameters = (ofCircle Scalar.one parameters).map (scale k) := by
  unfold ofCircle
  split <;> simp [scale, hk.mul_one]

private theorem ofSides_scale (hk : Exact k) {shape : α → α → Option α → Shape α}
    (hshape : ∀ x y hole, (shape x y hole).scale k = shape (x * k) (y * k) (hole.map (· * k)))
    (parameters : List α) :
    ofSides k shape parameters = (ofSides Scalar.one shape parameters).map (scale k) := by
  unfold ofSides
  split <;> simp [hshape, hk.mul_one]

private theorem ofVertices_scale (diameter vertices rotation : α) (hole : Option α) :
    ofVertices (diameter * k) vertices rotation (hole.map (· * k)) =
      (ofVertices diameter vertices rotation hole).map (scale k) := by
  unfold ofVertices
  split
  · split_ifs <;> rfl
  · rfl

private theorem ofPolygon_scale (hk : Exact k) (parameters : List α) :
    ofPolygon k parameters = (ofPolygon Scalar.one parameters).map (scale k) := by
  unfold ofPolygon
  split <;> simp [← ofVertices_scale, hk.mul_one]

private theorem ofMacro_scale (hk : Exact k) (macros : Macros α) (name : Text)
    (parameters : List α) : ofMacro macros k name parameters =
      (ofMacro macros Scalar.one name parameters).map (scale k) := by
  unfold ofMacro
  split
  · rfl
  · rw [ApertureMacro.figures_scale hk, Except.map_map, Except.map_map]
    rfl

private theorem ofTemplate_scale (hk : Exact k) (macros : Macros α)
    (located : DefinitionFault → Fault) (template : Text) (parameters : List α) :
    ofTemplate macros k located template parameters =
      (ofTemplate macros Scalar.one located template parameters).map (scale k) := by
  unfold ofTemplate
  split
  · rw [ofCircle_scale hk, Except.map_mapError]
  · rw [ofSides_scale hk fun _ _ _ => rfl, Except.map_mapError]
  · rw [ofSides_scale hk fun _ _ _ => rfl, Except.map_mapError]
  · rw [ofPolygon_scale hk, Except.map_mapError]
  · exact ofMacro_scale hk macros _ parameters

end Shape

namespace Aperture

def scale (a : Aperture α) (k : α) : Aperture α := { a with shape := a.shape.scale k }

theorem ofCommand_inInches (hk : Exact (inch : α)) {format : Format}
    (h : format.units = .millimeters) (source : Text) (macros : Macros α) :
    ofCommand source format.inInches macros =
      (ofCommand source format macros).map (·.scale inch) := by
  unfold ofCommand
  simp only
  split
  · rfl
  · rw [Except.map_bind]
    refine bind_congr fun (code, rest) => ?_
    simp only
    split
    · rfl
    · split
      · rfl
      · have hunits : format.inInches.units.scale = (inch : α) := Units.scale_inches
        have hone : (format.units.scale : α) = Scalar.one := by rw [h]; rfl
        rw [hunits, hone, Shape.ofTemplate_scale hk, Except.map_bind, Except.bind_map]
        rfl

theorem block?_scale (a : Aperture α) (k : α) :
    (a.scale k).block? = a.block?.map (·.scale k) := by
  unfold block? scale
  cases a.shape <;> rfl

end Aperture

namespace Apertures

def scale (table : Apertures α) (k : α) : Apertures α := ⟨table.entries.map (·.scale k)⟩

variable {k : α} (table : Apertures α)

theorem scale_define (a : Aperture α) :
    (table.define a).scale k = (table.scale k).define (a.scale k) := by
  have hinsert (entries : List (Aperture α)) :
      (insert a entries).map (·.scale k) = insert (a.scale k) (entries.map (·.scale k)) := by
    induction entries with
    | nil => rfl
    | cons b rest ih =>
      have hcode (a : Aperture α) : (a.scale k).code = a.code := rfl
      simp only [insert, List.map_cons, hcode]
      split_ifs <;> simp [ih]
  exact congrArg Apertures.mk (hinsert table.entries)

theorem get?_scale (code : Nat) :
    (table.scale k).get? code = (table.get? code).map (·.scale k) := by
  unfold get? scale
  rw [List.find?_map]
  rfl

theorem lookup_scale (code : Nat) :
    (table.scale k).lookup code = (table.lookup code).map (·.scale k) := by
  unfold lookup
  rw [get?_scale]
  cases table.get? code <;> rfl

theorem block?_scale (code : Nat) :
    (table.scale k).block? code = (table.block? code).map (·.scale k) := by
  unfold block?
  rw [get?_scale]
  cases table.get? code with
  | none => rfl
  | some a => exact a.block?_scale k

end Apertures

end Gerber
