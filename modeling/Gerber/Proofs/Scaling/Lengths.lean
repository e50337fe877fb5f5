import Gerber.Coord.Body
import Gerber.Proofs.Except
import Gerber.Region
import Gerber.Step
import Gerber.StepRepeat
import Mathlib.Tactic.SplitIfs

/-!
# Scaling of lengths

All lengths multiplied by one factor, and nothing else changed.  If the factor is exact, then
reading coordinates, collecting regions and counting runs commute with it.
-/

namespace Gerber

variable {α : Type} [Scalar α]

/-- Multiplying by a factor is exact: it keeps zero and the order, and it can be done before sums
and products as well as after them. -/
structure Exact (k : α) : Prop where
  mul_one : ∀ x : α, x * Scalar.one = x
  zero_mul : Scalar.zero * k = Scalar.zero
  add_mul : ∀ x y : α, (x + y) * k = x * k + y * k
  mul_assoc : ∀ x y : α, x * y * k = x * (y * k)
  lt_mul : ∀ x y : α, Scalar.lt (x * k) (y * k) = Scalar.lt x y
  isAbsent_mul : ∀ x : α, Scalar.isAbsent (x * k) = Scalar.isAbsent x

abbrev inch : α := Scalar.decimal 254 (-1)

theorem Units.scale_inches : Units.inches.scale = (inch : α) := rfl

def Format.inInches (format : Format) : Format := { format with units := .inches }

private theorem Format.decode_inInches {format : Format} (hk : Exact (inch : α))
    (h : format.units = .millimeters) (numeral : Text) :
    (format.inInches.decode numeral : Except Fault α) =
      (format.decode numeral).map (· * inch) := by
  have hwidth : format.inInches.width = format.width := rfl
  have hdecimal : format.inInches.decimalDigits = format.decimalDigits := rfl
  have hunits : format.inInches.units = .inches := rfl
  unfold decode
  dsimp only
  rw [hwidth, hdecimal, hunits, h]
  simp only [Units.scale, hk.mul_one]
  split_ifs <;> rfl

namespace Vec

variable {k : α}

theorem scale_zero (hk : Exact k) : (zero : Vec α).scale k = zero := by
  simp only [scale, zero, hk.zero_mul]

theorem scale_add (hk : Exact k) (v w : Vec α) :
    (v.add w).scale k = (v.scale k).add (w.scale k) := by
  simp only [scale, add, hk.add_mul]

end Vec

namespace Coord

def scale (c : Coord α) (k : α) : Coord α :=
  { c with x := c.x * k, y := c.y * k, i := c.i * k, j := c.j * k }

variable {k : α}

theorem scale_zero (hk : Exact k) : (zero : Coord α).scale k = zero := by
  simp only [scale, zero, hk.zero_mul]

theorem place_scale (c : Coord α) : (c.scale k).place = c.place.scale k := rfl

theorem scale_translate (hk : Exact k) (c : Coord α) (d : Vec α) :
    (c.translate d).scale k = (c.scale k).translate (d.scale k) := by
  simp only [scale, translate, Vec.scale, hk.add_mul]

private theorem following_scale (hk : Exact k) (previous : Option (Coord α)) :
    following (previous.map (·.scale k)) = (following previous).scale k := by
  cases previous <;> simp [following, scale, zero, hk.zero_mul]

private theorem setAxis?_scale (c : Coord α) (letter : Char) (value : α) :
    (c.scale k).setAxis? letter (value * k) = (c.setAxis? letter value).map (·.scale k) := by
  unfold setAxis?
  split_ifs <;> rfl

variable {format : Format}

private theorem readAxes_inInches (hk : Exact (inch : α)) (h : format.units = .millimeters)
    (body : Text) (c : Coord α) (t : Text) :
    readAxes format.inInches body (c.scale inch) t =
      (readAxes format body c t).map (·.scale inch) := by
  fun_induction readAxes format body c t with
  | case1 c => rw [readAxes, Except.map_ok]
  | case2 c letter t e hdecode =>
    rw [readAxes, Format.decode_inInches hk h, hdecode]
    rfl
  | case3 c letter t value hdecode c' haxis ih =>
    rw [readAxes, Format.decode_inInches hk h, hdecode]
    simp only [Except.map_ok, setAxis?_scale, haxis, Option.map_some]
    exact ih
  | case4 c letter t value hdecode haxis =>
    rw [readAxes, Format.decode_inInches hk h, hdecode]
    simp only [Except.map_ok, setAxis?_scale, haxis, Option.map_none, Except.map_error]

theorem ofBody_inInches (hk : Exact (inch : α)) (h : format.units = .millimeters)
    (previous : Option (Coord α)) (body : Text) :
    ofBody format.inInches (previous.map (·.scale inch)) body =
      (ofBody format previous body).map (·.scale inch) := by
  unfold ofBody
  split
  · rfl
  · rw [following_scale hk, readAxes_inInches hk h]

end Coord

namespace Step

def scale (s : Step α) (k : α) : Step α :=
  { s with prev := s.prev.scale k, coord := s.coord.scale k, origin := s.origin.scale k }

variable {k : α}

@[simp] theorem scale_aperture (s : Step α) : (s.scale k).aperture = s.aperture := rfl

@[simp] theorem scale_action (s : Step α) : (s.scale k).action = s.action := rfl

@[simp] theorem scale_region (s : Step α) : (s.scale k).region = s.region := rfl

@[simp] theorem scale_stepRepeat (s : Step α) : (s.scale k).stepRepeat = s.stepRepeat := rfl

theorem scale_root (hk : Exact k) : (root : Step α).scale k = root := by
  simp only [scale, root, Coord.scale_zero hk, Vec.scale_zero hk]

theorem scale_successor (hk : Exact k) (s : Step α) (number : Nat) :
    (s.successor number).scale k = (s.scale k).successor number := by
  simp only [scale, successor, Coord.scale_zero hk, Vec.scale_zero hk]

end Step

def Region.scale (r : Region α) (k : α) : Region α :=
  { r with start := r.start.map (·.scale k), last := r.last.map (·.scale k) }

@[simp] theorem Region.isOpen_scale (r : Region α) (k : α) : (r.scale k).isOpen = r.isOpen := rfl

theorem Region.scale_addVertex (r : Region α) (c : Coord α) (k : α) :
    (r.addVertex c).scale k = (r.scale k).addVertex (c.scale k) := by
  cases hstart : r.start <;> simp [addVertex, scale, hstart]

namespace Regions

def scale (r : Regions α) (k : α) : Regions α := ⟨r.regions.map (·.scale k)⟩

variable {k : α} (r : Regions α)

theorem get?_scale (id : Nat) : (r.scale k).get? id = (r.get? id).map (·.scale k) := by
  simp [get?, scale]

theorem length_scale : (r.scale k).regions.length = r.regions.length := by simp [scale]

theorem scale_add (line : Nat) : (r.add line).scale k = (r.scale k).add line := by
  simp [add, scale, Region.opened, Region.scale]

theorem isOpen_scale (id : Option Nat) : (r.scale k).isOpen id = r.isOpen id := by
  cases id with
  | none => rfl
  | some id =>
    simp only [isOpen, Option.bind_some, get?_scale]
    cases r.get? id <;> rfl

theorem scale_addVertex (id : Nat) (c : Coord α) :
    (r.addVertex id c).scale k = (r.scale k).addVertex id (c.scale k) := by
  simp only [addVertex, get?_scale]
  cases r.get? id with
  | none => rfl
  | some region =>
    simp only [Option.map_some]
    rw [Region.isOpen_scale, ← Region.scale_addVertex]
    split
    · simp [scale, List.map_set]
    · rfl

theorem close_scale (id : Option Nat) (line : Nat) :
    (r.scale k).close id line =
      (r.close id line).map fun (regions, region) => (regions.scale k, region.scale k) := by
  cases id with
  | none => rfl
  | some id =>
    simp only [close, get?_scale]
    cases r.get? id with
    | none => rfl
    | some region =>
      simp only [Option.map_some]
      rw [Region.isOpen_scale]
      split
      · simp [scale, List.map_set, Region.scale]
      · rfl

end Regions

namespace StepRepeat

def scale (b : StepRepeat α) (k : α) : StepRepeat α :=
  { b with stepX := b.stepX * k, stepY := b.stepY * k }

variable {k : α}

@[simp] theorem scale_steps (b : StepRepeat α) : (b.scale k).steps = b.steps := rfl

theorem ofCommand_inInches (hk : Exact (inch : α)) {format : Format}
    (h : format.units = .millimeters) (source : Text) (line : Nat) :
    (ofCommand source format.inInches line : Except StepRepeatFault (StepRepeat α)) =
      (ofCommand source format line).map (·.scale inch) := by
  unfold ofCommand
  split
  · rfl
  · simp only [Except.map_bind]
    refine bind_congr fun repeatX => bind_congr fun repeatY => ?_
    refine bind_congr fun stepX => bind_congr fun stepY => ?_
    split
    · rfl
    · split
      · rfl
      · simp [scale, Format.inInches, h, Units.scale, hk.mul_one, pure, Except.pure]

theorem offsets_scale (hk : Exact k) (b : StepRepeat α) :
    (b.scale k).offsets = b.offsets.map (·.scale k) := by
  unfold offsets
  rw [List.map_map]
  refine List.map_congr_left fun place _ => ?_
  simp only [offsetAt, offset, scale, Function.comp_apply, Vec.scale, hk.mul_assoc]

end StepRepeat

namespace StepRepeats

def scale (r : StepRepeats α) (k : α) : StepRepeats α := ⟨r.blocks.map (·.scale k)⟩

variable {k : α} (r : StepRepeats α)

theorem get?_scale (id : Nat) : (r.scale k).get? id = (r.get? id).map (·.scale k) := by
  simp [get?, scale]

theorem length_scale : (r.scale k).blocks.length = r.blocks.length := by simp [scale]

theorem scale_add (b : StepRepeat α) : (r.add b).scale k = (r.scale k).add (b.scale k) := by
  simp [add, scale]

theorem adjust_scale (id : Nat) (delta : Int) :
    (r.scale k).adjust id delta = (r.adjust id delta).map (·.scale k) := by
  simp only [adjust, get?_scale]
  cases r.get? id with
  | none => rfl
  | some block =>
    have hid : (block.scale k).id = block.id := rfl
    simp only [Option.map_some, StepRepeat.scale_steps, hid]
    split_ifs
    · rfl
    · simp [scale, List.map_set, StepRepeat.scale]

end StepRepeats

end Gerber
