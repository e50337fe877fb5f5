import Gerber.Proofs.StepRepeat
import Gerber.Proofs.Stream.Effect

/-!
# References of steps

A step refers to an aperture by its code, and to a region and a step-and-repeat block by their
indices.  The streams of a file share their books, which only ever grow, so what a step of one
stream refers to is still there when the others are compiled.
-/

namespace Gerber

variable {α : Type}

namespace Session

def AllRepeat (s : Session α) : Prop := ∀ block ∈ s.stepRepeats.blocks, block.Repeats

/-- The books of a session have grown to those of another, and only by blocks that have copies. -/
structure Grows (s t : Session α) : Prop where
  regions : s.regions.regions.length ≤ t.regions.regions.length
  stepRepeats : s.stepRepeats.blocks.length ≤ t.stepRepeats.blocks.length
  allRepeat : s.AllRepeat → t.AllRepeat

variable {s t u : Session α}

theorem Grows.trans (h : s.Grows t) (h' : t.Grows u) : s.Grows u :=
  ⟨Nat.le_trans h.1 h'.1, Nat.le_trans h.2 h'.2, fun hs => h'.3 (h.3 hs)⟩

theorem SameBooks.grows (h : s.SameBooks t) : s.Grows t where
  regions := h.1 ▸ Nat.le_refl _
  stepRepeats := h.2 ▸ Nat.le_refl _
  allRepeat hs := by
    unfold AllRepeat
    rwa [h.2]

theorem Grows.refl (s : Session α) : s.Grows s := (SameBooks.refl s).grows

end Session

/-- The code of an aperture is in a table. -/
def Apertures.Defines (apertures : Apertures α) (code : Nat) : Prop :=
  ∃ a, apertures.get? code = some a

/-- What a step refers to exists. -/
structure Step.Refers (apertures : Apertures α) (s : Session α) (step : Step α) : Prop where
  aperture : ∀ code, step.aperture = some code → apertures.Defines code
  region : ∀ id, step.region = some id → id < s.regions.regions.length
  stepRepeat : ∀ id, step.stepRepeat = some id → id < s.stepRepeats.blocks.length

theorem Step.Refers.mono {apertures apertures' : Apertures α} {s t : Session α} {step : Step α}
    (h : step.Refers apertures s) (ha : ∀ code, apertures.Defines code → apertures'.Defines code)
    (hs : s.Grows t) : step.Refers apertures' t where
  aperture code hcode := ha code (h.aperture code hcode)
  region id hid := Nat.lt_of_lt_of_le (h.region id hid) hs.regions
  stepRepeat id hid := Nat.lt_of_lt_of_le (h.stepRepeat id hid) hs.stepRepeats

private theorem Step.refers_root [Scalar α] (apertures : Apertures α) (s : Session α) :
    (Step.root : Step α).Refers apertures s where
  aperture _ h := by cases h
  region _ h := by cases h
  stepRepeat _ h := by cases h

namespace Regions

variable {r r' : Regions α} {closed : Region α}

theorem length_addVertex (r : Regions α) (id : Nat) (c : Coord α) :
    (r.addVertex id c).regions.length = r.regions.length := by
  unfold addVertex
  split
  · split
    · exact List.length_set
    · rfl
  · rfl

theorem length_close {id : Option Nat} {line : Nat} (h : r.close id line = .ok (r', closed)) :
    r'.regions.length = r.regions.length := by
  unfold close at h
  split at h
  · cases h
  · split at h
    · cases h
    · split at h
      · cases h
        exact List.length_set
      · cases h

end Regions

namespace Stream

variable {setting : Setting α} {pending step : Step α} {last coord : Coord α} {s t : Session α}
  {token : Token} {outcome : Outcome}

/-- Changing a step count keeps all blocks and their copies. -/
theorem grows_of_adjust {id : Option Nat} {delta : Int}
    (hregions : t.regions.regions.length = s.regions.regions.length)
    (h : id.elim (.ok s.stepRepeats) (s.stepRepeats.adjust · delta) = .ok t.stepRepeats) :
    s.Grows t := by
  refine ⟨Nat.le_of_eq hregions.symm, ?_, ?_⟩
  · cases id with
    | none => exact Except.ok.inj h ▸ Nat.le_refl _
    | some k => exact Nat.le_of_eq (StepRepeats.length_adjust h).symm
  · unfold Session.AllRepeat
    cases id with
    | none => exact Except.ok.inj h ▸ fun hs => hs
    | some k => exact StepRepeats.repeats_adjust h

theorem Entered.grows (h : Entered pending coord s t) : s.Grows t := by
  refine grows_of_adjust ?_ h.stepRepeats
  rw [h.regions]
  cases pending.region with
  | none => rfl
  | some id => exact Regions.length_addVertex _ _ _

variable [Scalar α]

theorem Effect.grows (h : Effect setting pending last token s outcome step t) : s.Grows t := by
  cases h with
  | interpolation _ => exact .refl s
  | polarity _ => exact .refl s
  | quadrant _ => exact .refl s
  | select _ _ => exact .refl s
  | regionBegin _ hregions hrepeats =>
    refine ⟨?_, hrepeats ▸ Nat.le_refl _, ?_⟩
    · rw [hregions, Regions.add, List.length_append]
      exact Nat.le_add_right _ _
    · unfold Session.AllRepeat
      exact hrepeats ▸ fun hs => hs
  | regionEnd _ hclose hrepeats =>
    refine ⟨Nat.le_of_eq (Regions.length_close hclose).symm, hrepeats ▸ Nat.le_refl _, ?_⟩
    unfold Session.AllRepeat
    exact hrepeats ▸ fun hs => hs
  | operation _ _ hentered => exact hentered.grows
  | repeatOpen _ hblock hregions hrepeats =>
    refine ⟨hregions ▸ Nat.le_refl _, ?_, fun hs => ?_⟩
    · rw [hrepeats, StepRepeats.add, List.length_append]
      exact Nat.le_add_right _ _
    · unfold Session.AllRepeat
      rw [hrepeats, StepRepeats.add, List.forall_mem_append]
      exact ⟨hs, List.forall_mem_singleton.mpr (StepRepeat.repeats_of_ofCommand hblock).1⟩
  | repeatClose _ hbooks => exact hbooks.grows
  | stop _ hbooks => exact hbooks.grows
  | idle _ hbooks => exact hbooks.grows

private theorem Effect.refers (h : Effect setting pending last token s outcome step t)
    (hp : pending.Refers setting.apertures s) : step.Refers setting.apertures t := by
  obtain ⟨haperture, hregion, hrepeat⟩ := hp.mono (fun _ hcode => hcode) h.grows
  cases h with
  | select _ hget =>
    refine ⟨fun code hcode => ?_, hregion, hrepeat⟩
    cases hcode
    exact ⟨_, hget⟩
  | regionBegin _ hregions _ =>
    refine ⟨haperture, fun id hid => ?_, hrepeat⟩
    cases hid
    rw [hregions, Regions.add, List.length_append]
    exact Nat.lt_succ_self _
  | regionEnd =>
    refine ⟨haperture, fun _ hid => ?_, hrepeat⟩
    cases hid
  | repeatOpen _ _ _ hrepeats =>
    refine ⟨haperture, hregion, fun id hid => ?_⟩
    cases hid
    rw [hrepeats, StepRepeats.add, List.length_append]
    exact Nat.lt_succ_self _
  | repeatClose =>
    refine ⟨haperture, hregion, fun _ hid => ?_⟩
    cases hid
  | stop =>
    refine ⟨haperture, hregion, fun _ hid => ?_⟩
    cases hid
  | _ => exact ⟨haperture, hregion, hrepeat⟩

/-- What holds of a stream at work: its session has grown, and no step refers to anything that
does not exist. -/
structure Anchored (setting : Setting α) (s : Session α) (cursor : Cursor α) (t : Session α) :
    Prop where
  grows : s.Grows t
  pending : cursor.pending.Refers setting.apertures t
  completed : ∀ step ∈ cursor.completed, step.Refers setting.apertures t

variable {cursor : Cursor α} {u : Session α}

omit [Scalar α] in
theorem Anchored.mono (ha : Anchored setting s cursor t) (h : t.Grows u) :
    Anchored setting s cursor u where
  grows := ha.grows.trans h
  pending := ha.pending.mono (fun _ hcode => hcode) h
  completed step hmem := (ha.completed step hmem).mono (fun _ hcode => hcode) h

theorem Anchored.follow (ha : Anchored setting s cursor u)
    (h : Effect setting cursor.pending cursor.last.coord token u outcome step t) :
    Anchored setting s (cursor.follow outcome step) t := by
  have hstep := h.refers ha.pending
  obtain ⟨hgrows, -, hold⟩ := ha.mono h.grows
  have hall : ∀ other ∈ step :: cursor.completed, other.Refers setting.apertures t :=
    List.forall_mem_cons.mpr ⟨hstep, hold⟩
  cases outcome with
  | next => exact ⟨hgrows, hstep, hold⟩
  | skip => exact ⟨hgrows, hstep, hold⟩
  | complete => exact ⟨hgrows, ⟨hstep.aperture, hstep.region, hstep.stepRepeat⟩, hall⟩
  | stop => exact ⟨hgrows, hstep, hall⟩

/-- A stream only adds to the books. -/
theorem Advances.grows {final : Cursor α} {tokens : List Token} {stopped : Bool}
    (h : Advances setting cursor s tokens final stopped t) : s.Grows t := by
  induction h with
  | done hs => exact hs.grows
  | step he _ _ ih => exact he.grows.trans ih
  | stop he hs => exact he.grows.trans hs.grows

theorem anchored_of_advances {tokens : List Token} {stopped : Bool}
    (h : Advances setting .initial s tokens cursor stopped t) : Anchored setting s cursor t := by
  have hroot := Step.refers_root setting.apertures s
  have hstart : Anchored setting s .initial s :=
    ⟨.refl s, ⟨hroot.aperture, hroot.region, hroot.stepRepeat⟩, List.forall_mem_nil _⟩
  exact h.invariant (fun _ _ _ hbooks ha => ha.mono hbooks.grows)
    (fun _ _ _ _ _ _ he ha => ha.follow he) hstart

theorem Anchored.steps (ha : Anchored setting s cursor t) :
    ∀ step ∈ cursor.steps, step.Refers setting.apertures t := by
  rw [Cursor.steps, List.forall_mem_cons]
  refine ⟨Step.refers_root _ _, fun step hmem => ?_⟩
  exact ha.completed step (List.mem_reverse.mp hmem)

/-- The steps of a compiled stream refer to what exists. -/
theorem refers_of_compile {tokens : List Token} {compiled : Compiled α}
    (h : (compile setting tokens).Yields s compiled t) :
    s.Grows t ∧ ∀ step ∈ compiled.steps, step.Refers setting.apertures t := by
  obtain ⟨final, hadvances, hsteps⟩ := advances_of_compile h
  have hfinal := anchored_of_advances hadvances
  rw [hsteps]
  exact ⟨hfinal.grows, hfinal.steps⟩

end Stream

end Gerber
