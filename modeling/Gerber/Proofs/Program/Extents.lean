import Gerber.Proofs.Decimal.Values
import Gerber.Proofs.Program.Prepared

/-!
# The least bounding box

The extents of a program are the least box that holds all that its steps visit.  In which order they
visit it makes no difference.
-/

namespace Gerber

open Decimal

namespace Span

/-- The span reaches from the least of some values to the greatest of them. -/
structure IsLeast (span : Span Float) (values : List Float) : Prop where
  lo_mem : span.lo ∈ values
  hi_mem : span.hi ∈ values
  lo_le : ∀ v ∈ values, span.lo ≤ v
  le_hi : ∀ v ∈ values, v ≤ span.hi

/-- The span of an axis is the least one for some values, and there is none if there are no
values. -/
def Bounds : Option (Span Float) → List Float → Prop
  | none, values => values = []
  | some span, values => span.IsLeast values

/-- The ends of two spans are equal numbers. -/
def Same : Option (Span Float) → Option (Span Float) → Prop
  | none, none => True
  | some a, some b => a.lo == b.lo ∧ a.hi == b.hi
  | _, _ => False

variable {value : Float} {span other : Option (Span Float)} {values values' : List Float}

private theorem end_append (r : Float → Float → Prop) {last : Float} (keeps : Prop)
    [Decidable keeps]
    (hkeep : keeps → r last value) (htake : ¬ keeps → r value last) (hrefl : r value value)
    (htrans : ∀ v ∈ values, r value last → r last v → r value v) (hmem : last ∈ values)
    (hall : ∀ v ∈ values, r last v) :
    (if keeps then last else value) ∈ values ++ [value] ∧
      ∀ v ∈ values ++ [value], r (if keeps then last else value) v := by
  by_cases h : keeps
  · rw [if_pos h]
    refine ⟨List.mem_append_left _ hmem, fun v hv => ?_⟩
    rcases List.mem_append.mp hv with hold | hnew
    · exact hall v hold
    · rw [List.mem_singleton.mp hnew]
      exact hkeep h
  · rw [if_neg h]
    refine ⟨List.mem_concat_self, fun v hv => ?_⟩
    rcases List.mem_append.mp hv with hold | hnew
    · exact htrans v hold (htake h) (hall v hold)
    · rw [List.mem_singleton.mp hnew]
      exact hrefl

private theorem reach_of_isFinite (hvalue : value.isFinite = true) :
    reach span value = match span with
      | none => some ⟨value, value⟩
      | some ⟨lo, hi⟩ =>
        some ⟨if lo < value then lo else value, if value < hi then hi else value⟩ := by
  unfold reach
  rw [isAbsent_of_isFinite hvalue, if_neg Bool.false_ne_true]
  cases span with
  | none => rfl
  | some span => simp [Scalar.lt]

/-- A span that reaches one value more is the least one for one value more. -/
theorem Bounds.reach (h : Bounds span values)
    (hvalues : ∀ v ∈ values ++ [value], v.isFinite = true) :
    Bounds (reach span value) (values ++ [value]) := by
  have hvalue := hvalues value List.mem_concat_self
  have hrefl : value ≤ value := le_refl_of_isFinite hvalue
  have hold (v : Float) (hv : v ∈ values) : v.isFinite = true :=
    hvalues v (List.mem_append_left _ hv)
  rw [reach_of_isFinite hvalue]
  cases span with
  | none =>
    obtain rfl : values = [] := h
    exact ⟨by simp, by simp, by simpa using hrefl, by simpa using hrefl⟩
  | some span =>
    have hlo := hold _ h.lo_mem
    have hhi := hold _ h.hi_mem
    obtain ⟨hlo_mem, hlo_le⟩ := end_append (· ≤ ·) (span.lo < value)
      (le_of_lt_of_isFinite hlo hvalue) (le_of_not_lt_of_isFinite hlo hvalue) hrefl
      (fun v hv => le_trans_of_isFinite hvalue hlo (hold v hv)) h.lo_mem h.lo_le
    obtain ⟨hhi_mem, hle_hi⟩ := end_append (· ≥ ·) (value < span.hi)
      (le_of_lt_of_isFinite hvalue hhi) (le_of_not_lt_of_isFinite hvalue hhi) hrefl
      (fun v hv hge hle => le_trans_of_isFinite (hold v hv) hhi hvalue hle hge) h.hi_mem h.le_hi
    exact ⟨hlo_mem, hhi_mem, hlo_le, hle_hi⟩

private theorem bounds_foldl_reach (h : ∀ v ∈ values, v.isFinite = true) :
    Bounds (values.foldl Span.reach none) values := by
  -- From the end, where the value stands that is reached last.
  induction values using List.reverseRecOn with
  | nil => rfl
  | append_singleton values value ih =>
    rw [List.foldl_append]
    exact (ih fun v hv => h v (List.mem_append_left _ hv)).reach h

/-- The least spans for the same values have equal ends. -/
theorem Bounds.same (h : Bounds span values) (h' : Bounds other values')
    (hmem : ∀ v, v ∈ values ↔ v ∈ values') (hvalues : ∀ v ∈ values, v.isFinite = true) :
    Same span other := by
  -- Each end bounds the other, as both are among the values; zeros of different sign are equal.
  cases span with
  | none =>
    cases other with
    | none => trivial
    | some other =>
      obtain rfl : values = [] := h
      exact absurd ((hmem _).mpr h'.lo_mem) List.not_mem_nil
  | some span =>
    cases other with
    | none =>
      obtain rfl : values' = [] := h'
      exact absurd ((hmem _).mp h.lo_mem) List.not_mem_nil
    | some other =>
      have hlo : other.lo ∈ values := (hmem _).mpr h'.lo_mem
      have hhi : other.hi ∈ values := (hmem _).mpr h'.hi_mem
      constructor
      · exact beq_of_le_of_le (hvalues _ h.lo_mem) (hvalues _ hlo) (h.lo_le _ hlo)
          (h'.lo_le _ ((hmem _).mp h.lo_mem))
      · exact beq_of_le_of_le (hvalues _ h.hi_mem) (hvalues _ hhi)
          (h'.le_hi _ ((hmem _).mp h.hi_mem)) (h.le_hi _ hhi)

end Span

/-- The places that a step visits: both ends of a draw, the end of a move or flash, and none for a
stop. -/
def Step.visited {α : Type} (s : Step α) : List (Vec α) :=
  match s.action with
  | .stop => []
  | .draw => [s.prev.place, s.coord.place]
  | .move => [s.coord.place]
  | .flash => [s.coord.place]

private theorem Step.visited_eq_nil_iff {α : Type} {s : Step α} :
    s.visited = [] ↔ s.action = .stop := by
  unfold visited
  cases s.action <;> simp

def places {α : Type} (steps : List (Step α)) : List (Vec α) := steps.flatMap Step.visited

private theorem places_eq_nil_iff {α : Type} {steps : List (Step α)} :
    places steps = [] ↔ ∀ s ∈ steps, s.action = .stop := by
  rw [places, List.flatMap_eq_nil_iff]
  exact forall₂_congr fun s _ => Step.visited_eq_nil_iff

def Vec.IsFinite (v : Vec Float) : Prop := v.x.isFinite = true ∧ v.y.isFinite = true

instance (v : Vec Float) : Decidable v.IsFinite := inferInstanceAs (Decidable (_ ∧ _))

namespace Extents

private theorem ofSteps_eq {α : Type} [Scalar α] (steps : List (Step α)) :
    ofSteps steps = (places steps).foldl cover empty := by
  have hvisit (e : Extents α) (s : Step α) : e.visit s = s.visited.foldl cover e := by
    unfold visit Step.visited
    cases s.action <;> rfl
  rw [ofSteps, places, List.foldl_flatMap]
  congr 1
  funext e s
  exact hvisit e s

private theorem foldl_cover {α : Type} [Scalar α] (e : Extents α) (places : List (Vec α)) :
    places.foldl cover e =
      ⟨(places.map Vec.x).foldl Span.reach e.x, (places.map Vec.y).foldl Span.reach e.y⟩ := by
  induction places generalizing e with
  | nil => rfl
  | cons v places ih => rw [List.foldl_cons, ih]; rfl

/-- The box is the least one for some places: each axis reaches from the least to the greatest of
them. -/
structure IsLeast (e : Extents Float) (places : List (Vec Float)) : Prop where
  x : Span.Bounds e.x (places.map Vec.x)
  y : Span.Bounds e.y (places.map Vec.y)

/-- The sides of two boxes are equal numbers. -/
structure Same (e e' : Extents Float) : Prop where
  x : Span.Same e.x e'.x
  y : Span.Same e.y e'.y

variable {e e' : Extents Float} {visited visited' : List (Vec Float)}
  {steps steps' : List (Step Float)}

theorem IsLeast.isEmpty_iff (h : e.IsLeast visited) : e.isEmpty = true ↔ visited = [] := by
  obtain ⟨hx, hy⟩ := h
  obtain ⟨x, y⟩ := e
  cases x with
  | none =>
    obtain rfl : visited = [] := List.map_eq_nil_iff.mp hx
    simp [isEmpty]
  | some x =>
    have hne : visited ≠ [] := by
      rintro rfl
      exact absurd hx.lo_mem List.not_mem_nil
    cases y with
    | none => exact absurd (List.map_eq_nil_iff.mp hy) hne
    | some y => simp [isEmpty, hne]

private theorem axes_isFinite (h : ∀ v ∈ visited, v.IsFinite) :
    (∀ a ∈ visited.map Vec.x, a.isFinite = true) ∧ ∀ a ∈ visited.map Vec.y, a.isFinite = true :=
  ⟨List.forall_mem_map.mpr fun v hv => (h v hv).1, List.forall_mem_map.mpr fun v hv => (h v hv).2⟩

/-- The least boxes for the same places have equal sides. -/
theorem IsLeast.same (h : e.IsLeast visited) (h' : e'.IsLeast visited')
    (hperm : visited.Perm visited') (hfinite : ∀ v ∈ visited, v.IsFinite) : e.Same e' := by
  obtain ⟨hx, hy⟩ := axes_isFinite hfinite
  exact ⟨h.x.same h'.x (fun _ => (hperm.map Vec.x).mem_iff) hx,
    h.y.same h'.y (fun _ => (hperm.map Vec.y).mem_iff) hy⟩

private theorem isLeast_ofSteps (h : ∀ v ∈ places steps, v.IsFinite) :
    (ofSteps steps).IsLeast (places steps) := by
  obtain ⟨hx, hy⟩ := axes_isFinite h
  rw [ofSteps_eq, foldl_cover]
  exact ⟨Span.bounds_foldl_reach hx, Span.bounds_foldl_reach hy⟩

private theorem same_of_perm (h : ∀ v ∈ places steps, v.IsFinite) (hperm : steps'.Perm steps) :
    (ofSteps steps').Same (ofSteps steps) := by
  have hplaces : (places steps').Perm (places steps) := hperm.flatMap_right _
  have h' : ∀ v ∈ places steps', v.IsFinite := fun v hv => h v (hplaces.mem_iff.mp hv)
  exact (isLeast_ofSteps h').same (isLeast_ofSteps h) hplaces h'

end Extents

namespace Program

private theorem extents_of_ofBytes {α : Type} [Scalar α] {options : Options α} {bytes : List UInt8}
    {p : Program α} {notices : List Notice} (h : ofBytes options bytes = (.ok p, notices)) :
    p.extents = Extents.ofSteps p.steps := by
  have hresult : ((ofTokens options (Token.ofBytes bytes)).outcome .initial).1 = .ok p :=
    congrArg Prod.fst h
  have hyields : (ofTokens options (Token.ofBytes bytes)).Yields .initial p
      ((ofTokens options (Token.ofBytes bytes)).outcome .initial).2 :=
    Prod.ext hresult rfl
  obtain ⟨_, _, _, _, _, -, -, hp⟩ := prepared_of_ofTokens rfl hyields
  exact hp.extents

/-- If all places that the steps of a program visit are finite, then its extents are the least box
for them: it holds each of them, and each of its sides runs through one.  There is no box if all
steps are stops.  The same steps in any order have the same box. -/
theorem isLeast_extents_of_ofBytes {options : Options Float} {bytes : List UInt8}
    {p : Program Float} {notices : List Notice} (h : ofBytes options bytes = (.ok p, notices))
    (hfinite : ∀ v ∈ places p.steps, v.IsFinite) :
    (p.extents.isEmpty = true ↔ ∀ s ∈ p.steps, s.action = .stop) ∧
      p.extents.IsLeast (places p.steps) ∧
      ∀ steps, steps.Perm p.steps → (Extents.ofSteps steps).Same p.extents := by
  rw [extents_of_ofBytes h]
  have hleast := Extents.isLeast_ofSteps hfinite
  refine ⟨hleast.isEmpty_iff.trans places_eq_nil_iff, hleast, ?_⟩
  intro steps hperm
  exact Extents.same_of_perm hfinite hperm

/-- A file that draws and flashes away from the origin of the plane. -/
def strokeAndPad : List UInt8 :=
  ("%FSLAX36Y36*%%MOMM*%%ADD10C,0.1*%D10*X1000000Y500000D02*X3000000Y1500000D01*".toList ++
    "X2000000Y2500000D03*M02*".toList).map fun c => UInt8.ofNat c.toNat

theorem isLeast_extents_of_ofBytes_strokeAndPad :
    ∃ (p : Program Float) (notices : List Notice),
      ofBytes .standard strokeAndPad = (.ok p, notices) ∧
        (∀ v ∈ places p.steps, v.IsFinite) ∧
        p.steps.map Step.action = [.move, .draw, .flash, .stop] ∧
        p.extents.x.map Span.lo = some 1 ∧ p.extents.IsLeast (places p.steps) ∧
        (Extents.ofSteps p.steps.reverse).Same p.extents := by
  have hresult : (ofBytes (Options.standard : Options Float) strokeAndPad).1.toOption.map
      (fun p : Program Float => (decide (∀ v ∈ places p.steps, v.IsFinite),
        p.steps.map Step.action, p.extents.x.map Span.lo)) =
          some (true, [.move, .draw, .flash, .stop], some 1) := by
    unfold strokeAndPad
    repeat rw [String.toList_ofList]
    decide +kernel
  rcases h : ofBytes (Options.standard : Options Float) strokeAndPad with ⟨result, notices⟩
  rw [h] at hresult
  cases result with
  | error e => cases hresult
  | ok p =>
    simp only [Except.toOption, Option.map_some, Option.some.injEq, Prod.mk.injEq,
      decide_eq_true_eq] at hresult
    obtain ⟨hfinite, hactions, hlo⟩ := hresult
    obtain ⟨-, hleast, hperm⟩ := isLeast_extents_of_ofBytes h hfinite
    exact ⟨p, notices, rfl, hfinite, hactions, hlo, hleast, hperm _ (List.reverse_perm _)⟩

end Program

end Gerber
