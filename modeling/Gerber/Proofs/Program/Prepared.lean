import Gerber.Program
import Gerber.Proofs.Definitions
import Gerber.Proofs.Inlining.Counts
import Gerber.Proofs.Stream.Counts

/-!
# What stands before unwinding

A file is prepared once its definitions are taken and its main stream is compiled.  By then all
steps refer to what exists, and each list of steps, that of the main stream and those of the blocks,
holds just as many steps of a step-and-repeat block as the block has counted, or none.
-/

namespace Gerber

variable {α : Type}

theorem Apertures.Defines.define {table : Apertures α} {code : Nat} (h : table.Defines code)
    (a : Aperture α) : (table.define a).Defines code := by
  unfold Defines
  rw [get?_define]
  split
  · exact ⟨a, rfl⟩
  · exact h

open Grid Inlining

/-- A table stays closed if the block that is defined refers to what exists. -/
theorem Inlining.Closed.define {apertures : Apertures α} {s : Session α} (hc : Closed apertures s)
    {a : Aperture α}
    (ha : ∀ block, a.block? = some block → ∀ step ∈ block.steps, step.Refers apertures s) :
    Closed (apertures.define a) s := by
  intro code block hblock step hmem
  have hown : step.Refers apertures s := by
    rcases Apertures.block?_define hblock with hblock | hblock
    · exact ha block hblock step hmem
    · exact hc code block hblock step hmem
  exact hown.mono (fun _ hcode => hcode.define a) (.refl s)

/-- The steps of a list that are bound to a step-and-repeat block stand together, and they are
none or as many as the block has counted. -/
structure Booked (s : Session α) (steps : List (Step α)) : Prop where
  count : ∀ id, bound id steps = 0 ∨
    ∃ block, s.stepRepeats.get? id = some block ∧ bound id steps = block.steps
  oneRun : ∀ id, OneRun id steps

namespace Booked

variable {s t : Session α} {steps : List (Step α)}

theorem whole (h : Booked s steps) {id : Nat} {block : StepRepeat α}
    (hget : s.stepRepeats.get? id = some block) :
    bound id steps = 0 ∨ bound id steps = block.steps := by
  refine (h.count id).imp_right ?_
  rintro ⟨other, hother, hcount⟩
  cases hget.symm.trans hother
  exact hcount

theorem mono (h : Booked s steps) (hst : s.stepRepeats.blocks <+: t.stepRepeats.blocks) :
    Booked t steps where
  count id := by
    refine (h.count id).imp_right ?_
    rintro ⟨block, hget, hcount⟩
    obtain ⟨more, hmore⟩ := hst
    refine ⟨block, ?_, hcount⟩
    rw [StepRepeats.get?, ← hmore,
      List.getElem?_append_left (List.getElem?_eq_some_iff.mp hget).1]
    exact hget
  oneRun := h.oneRun

private theorem of_counted (h : Stream.Counted s steps t) : Booked t steps where
  count id := by
    refine or_iff_not_imp_left.mpr fun hne => ?_
    obtain ⟨step, hmem, hbound⟩ := List.countP_pos_iff.mp (Nat.pos_of_ne_zero hne)
    obtain ⟨hle, hlt⟩ := h.opened step hmem id (isBound_iff.mp hbound)
    obtain ⟨block, hget⟩ := StepRepeats.exists_get? hlt
    exact ⟨block, hget, (h.count id block hle hget).1.symm⟩
  oneRun := h.oneRun

variable [Scalar α] {stopped : Bool} {block : BlockAperture α}

private theorem bound_kept (hf : Framed stopped block.steps) (id : Nat) :
    bound id block.kept = bound id block.steps := by
  have hquiet {middle : List (Step α)} (hq : Quiet middle) :
      middle.filter (fun step => step.action ≠ .stop) = middle :=
    List.filter_eq_self.mpr fun step hmem => decide_eq_true (hq step hmem)
  have hroot : ¬ isBound id (Step.root : Step α) := by simp [isBound, Step.root]
  unfold BlockAperture.kept
  generalize block.steps = steps at hf
  cases hf with
  | unstopped hq => rw [List.tail_cons, hquiet hq, bound_cons, if_neg hroot, Nat.add_zero]
  | @stopped middle last hq hstop hlast =>
    have hunbound : ¬ isBound id last := by simp [isBound, hlast]
    rw [List.tail_cons, List.filter_append, hquiet hq, bound_cons, if_neg hroot, Nat.add_zero]
    simp [hstop, bound, hunbound]

theorem kept (h : Booked s block.steps) (hf : Framed stopped block.steps) :
    Booked s block.kept where
  count id := bound_kept hf id ▸ h.count id
  oneRun id := (h.oneRun id).sublist (List.filter_sublist.trans (List.tail_sublist _))

end Booked

/-- The counts of a stream are in range, and those before it stay so. -/
theorem Stream.Counted.inRange {s t : Session α} {steps : List (Step α)} (h : Counted s steps t)
    (hs : InRange s fun _ => 0) : InRange t fun _ => 0 := by
  rw [inRange_zero_iff] at hs ⊢
  intro id block hget
  by_cases hid : s.stepRepeats.blocks.length ≤ id
  · exact (h.count id block hid hget).2
  · obtain ⟨more, hmore⟩ := h.old
    rw [StepRepeats.get?, ← hmore, List.getElem?_append_left (Nat.lt_of_not_le hid)] at hget
    exact hs id block hget

theorem Session.SameBooks.inRange {s t : Session α} (h : s.SameBooks t)
    (hs : InRange s fun _ => 0) : InRange t fun _ => 0 := by
  unfold InRange
  rwa [h.2]

theorem Session.SameBooks.isPrefix {s t : Session α} (h : s.SameBooks t) :
    s.stepRepeats.blocks <+: t.stepRepeats.blocks :=
  h.2 ▸ List.prefix_rfl

namespace Definitions

variable [Scalar α] {format : Format} {tolerance : α} {tokens : List Token} {d : Definitions α}
  {s t : Session α}

/-- The definitions of a file refer only to each other and to the books. -/
theorem closed_of_ofTokens (h : (ofTokens format tolerance tokens).Yields s d t)
    (hs : s.AllRepeat) : Closed d.apertures t ∧ t.AllRepeat := by
  refine invariant (I := fun d t => Closed d.apertures t ∧ t.AllRepeat) ?_ h ⟨?_, hs⟩
  · rintro d s d' t hchange ⟨hc, hs⟩
    cases hchange with
    | aside hsame hbooks => exact ⟨hsame ▸ hc.mono hbooks.grows, hbooks.grows.allRepeat hs⟩
    | aperture hnone hdefine hbooks =>
      refine ⟨?_, hbooks.grows.allRepeat hs⟩
      rw [hdefine]
      refine (hc.mono hbooks.grows).define fun block hblock => ?_
      cases hnone.symm.trans hblock
    | block hcompile hdefine hbooks =>
      obtain ⟨hgrows, hrefers⟩ := Stream.refers_of_compile hcompile
      have hall := hgrows.trans hbooks.grows
      refine ⟨?_, hall.allRepeat hs⟩
      rw [hdefine]
      refine (hc.mono hall).define fun block hblock step hmem => ?_
      cases hblock
      exact (hrefers step hmem).mono (fun _ hcode => hcode) hbooks.grows
  · intro code block hblock
    cases hblock

private theorem booked_of_ofTokens (h : (ofTokens format tolerance tokens).Yields s d t)
    (hs : InRange s fun _ => 0) :
    (InRange t fun _ => 0) ∧
      ∀ code block, d.apertures.block? code = some block → Booked t block.kept := by
  refine invariant (I := fun d t => (InRange t fun _ => 0) ∧
    ∀ code block, d.apertures.block? code = some block → Booked t block.kept) ?_ h ⟨hs, ?_⟩
  · rintro d s d' t hchange ⟨hs, hbooked⟩
    cases hchange with
    | aside hsame hbooks =>
      rw [hsame]
      exact ⟨hbooks.inRange hs, fun code block hblock =>
        (hbooked code block hblock).mono hbooks.isPrefix⟩
    | aperture hnone hdefine hbooks =>
      rw [hdefine]
      refine ⟨hbooks.inRange hs, fun code block hblock => ?_⟩
      rcases Apertures.block?_define hblock with hown | hold
      · cases hnone.symm.trans hown
      · exact (hbooked code block hold).mono hbooks.isPrefix
    | block hcompile hdefine hbooks =>
      have hcounted := Stream.counted_of_compile hcompile
      rw [hdefine]
      refine ⟨hbooks.inRange (hcounted.inRange hs), fun code block hblock => ?_⟩
      rcases Apertures.block?_define hblock with hown | hold
      · cases hown
        exact ((Booked.of_counted hcounted).kept (Stream.framed_of_compile hcompile)).mono
          hbooks.isPrefix
      · exact (hbooked code block hold).mono (hcounted.old.trans hbooks.isPrefix)
  · intro code block hblock
    cases hblock

end Definitions

namespace Program

variable [Scalar α]

/-- The definitions of a file have been taken, and its main stream is compiled.  Nothing but
notices may come in between. -/
def Prepared (format : Format) (tolerance : α) (tokens : List Token) (definitions : Definitions α)
    (compiled : Compiled α) (s : Session α) : Prop :=
  ∃ r t u v : Session α, r.stepRepeats.blocks = [] ∧
    (Definitions.ofTokens format tolerance tokens).Yields r definitions t ∧ t.SameBooks u ∧
    (Stream.compile ⟨format, definitions.apertures, tolerance⟩
      definitions.stream.reverse).Yields u compiled v ∧ v.SameBooks s

namespace Prepared

variable {format : Format} {tolerance : α} {tokens : List Token} {definitions : Definitions α}
  {compiled : Compiled α} {s : Session α}

theorem framed (h : Prepared format tolerance tokens definitions compiled s) :
    Framed compiled.stopped compiled.steps := by
  obtain ⟨_, _, _, _, -, -, -, hcompile, -⟩ := h
  exact Stream.framed_of_compile hcompile

/-- All steps refer to what exists, and all step-and-repeat blocks have copies. -/
theorem closed (h : Prepared format tolerance tokens definitions compiled s) :
    Closed definitions.apertures s ∧ s.AllRepeat ∧
      ∀ step ∈ compiled.steps, step.Refers definitions.apertures s := by
  obtain ⟨r, t, u, v, hr, hdefinitions, htu, hcompile, hvs⟩ := h
  have hstart : r.AllRepeat := by
    unfold Session.AllRepeat
    simp [hr]
  obtain ⟨hclosed, hrepeat⟩ := Definitions.closed_of_ofTokens hdefinitions hstart
  obtain ⟨hgrows, hrefers⟩ := Stream.refers_of_compile hcompile
  have hall := (htu.grows.trans hgrows).trans hvs.grows
  refine ⟨hclosed.mono hall, hall.allRepeat hrepeat, fun step hmem => ?_⟩
  exact (hrefers step hmem).mono (fun _ hcode => hcode) hvs.grows

/-- All steps are counted. -/
theorem booked (h : Prepared format tolerance tokens definitions compiled s) :
    (InRange s fun _ => 0) ∧ Booked s compiled.steps ∧
      ∀ code block, definitions.apertures.block? code = some block → Booked s block.kept := by
  obtain ⟨r, t, u, v, hr, hdefinitions, htu, hcompile, hvs⟩ := h
  have hstart : InRange r fun _ => 0 := by
    rw [inRange_zero_iff]
    intro id block hget
    rw [StepRepeats.get?, hr] at hget
    cases hget
  obtain ⟨hfits, hblocks⟩ := Definitions.booked_of_ofTokens hdefinitions hstart
  have hcounted := Stream.counted_of_compile hcompile
  have hall := (htu.isPrefix.trans hcounted.old).trans hvs.isPrefix
  refine ⟨hvs.inRange (hcounted.inRange (htu.inRange hfits)),
    (Booked.of_counted hcounted).mono hvs.isPrefix, fun code block hblock => ?_⟩
  exact (hblocks code block hblock).mono hall

end Prepared

omit [Scalar α] in
private theorem eq_of_findFormat {tokens : List Token} {format : Format} {s t : Session α}
    (h : (findFormat tokens).Yields s format t) : t = s := by
  unfold findFormat at h
  split at h
  · exact absurd h Run.yields_fail
  · simp only at h
    split at h
    · exact (Run.yields_pure.mp h).2
    · exact absurd (Run.yields_located.mp h) Run.yields_fail

/-- The stage at which a compilation fails. -/
inductive FailsAt (options : Options α) (tokens : List Token) (e : Error) (t : Session α) : Prop
  | format {r : Session α} :
      (findFormat tokens : Run α Format).Fails r e t → FailsAt options tokens e t
  | definitions {format : Format} {r : Session α} :
      (Definitions.ofTokens format options.tolerance tokens).Fails r e t →
        FailsAt options tokens e t
  | stream {format : Format} {definitions : Definitions α} {r u v : Session α} :
      (Definitions.ofTokens format options.tolerance tokens).Yields r definitions u →
      (Stream.compile ⟨format, definitions.apertures, options.tolerance⟩
        definitions.stream.reverse).Fails v e t → FailsAt options tokens e t
  | missingStop : e = { fault := .missingStop } → FailsAt options tokens e t
  | unwinding {format : Format} {definitions : Definitions α} {compiled : Compiled α}
      {u : Session α} :
      Prepared format options.tolerance tokens definitions compiled u →
      (unwind definitions.apertures options.maxPasses compiled.steps).Fails u e t →
        FailsAt options tokens e t

theorem failsAt_of_ofTokens {options : Options α} {tokens : List Token} {s t : Session α}
    {e : Error} (hs : s.stepRepeats.blocks = []) (h : (ofTokens options tokens).Fails s e t) :
    FailsAt options tokens e t := by
  simp only [ofTokens, Run.fails_bind, Run.fails_note, Run.yields_note, false_or] at h
  obtain ⟨_, _, rfl, hformat | ⟨format, s₁, hformat, _, _, rfl, h⟩⟩ := h
  · exact .format hformat
  obtain rfl := eq_of_findFormat hformat
  rcases h with hdefinitions | ⟨definitions, s₂, hdefinitions, _, _, rfl, h⟩
  · exact .definitions hdefinitions
  rcases h with hcompile | ⟨compiled, s₃, hcompile, h⟩
  · exact .stream hdefinitions hcompile
  have hprepared {u : Session α} (hu : s₃.SameBooks u) :
      Prepared format options.tolerance tokens definitions compiled u := by
    refine ⟨_, s₂, _, s₃, ?_, hdefinitions, ?_, hcompile, hu⟩
    · exact hs
    · exact ⟨rfl, rfl⟩
  split at h
  · split at h
    · rw [Run.fails_bind] at h
      rcases h with hstop | ⟨_, _, hstop, -⟩
      · exact .missingStop (Run.fails_fail.mp hstop).1
      · exact absurd hstop Run.yields_fail
    · simp only [Run.fails_bind, Run.fails_note, Run.yields_note, Run.fails_get, Run.fails_pure,
        false_or, and_false, exists_false, or_false] at h
      obtain ⟨_, _, rfl, hunwind⟩ := h
      refine .unwinding (hprepared ?_) hunwind
      exact ⟨rfl, rfl⟩
  · simp only [Run.fails_bind, Run.fails_note, Run.fails_get, Run.fails_pure, and_false,
      exists_false, or_false] at h
    exact .unwinding (hprepared (.refl _)) h

/-- A program holds what was prepared for it, with its steps unwound. -/
structure Keeps (p : Program α) (definitions : Definitions α) (compiled : Compiled α)
    (t : Session α) : Prop where
  apertures : p.apertures = definitions.apertures
  stopped : p.stopped = compiled.stopped
  regions : p.regions = t.regions.regions
  stepRepeats : p.stepRepeats = t.stepRepeats.blocks
  extents : p.extents = Extents.ofSteps p.steps

theorem prepared_of_ofTokens {options : Options α} {tokens : List Token} {p : Program α}
    {s t : Session α} (hs : s.stepRepeats.blocks = [])
    (h : (ofTokens options tokens).Yields s p t) :
    ∃ format definitions compiled u v,
      Prepared format options.tolerance tokens definitions compiled u ∧
        (unwind definitions.apertures options.maxPasses compiled.steps).Yields u p.unwound v ∧
          p.Keeps definitions compiled v := by
  simp only [ofTokens, Run.yields_bind, Run.yields_note] at h
  obtain ⟨_, _, rfl, format, s₁, hformat, h⟩ := h
  obtain rfl := eq_of_findFormat hformat
  obtain ⟨_, _, rfl, definitions, s₂, hdefinitions, h⟩ := h
  obtain ⟨_, _, rfl, compiled, s₃, hcompile, h⟩ := h
  have hprepared {u : Session α} (hu : s₃.SameBooks u) :
      Prepared format options.tolerance tokens definitions compiled u := by
    refine ⟨_, s₂, _, s₃, ?_, hdefinitions, ?_, hcompile, hu⟩
    · exact hs
    · exact ⟨rfl, rfl⟩
  split at h
  · split at h
    · rw [Run.yields_bind] at h
      obtain ⟨_, _, hfail, -⟩ := h
      exact absurd hfail Run.yields_fail
    · simp only [Run.yields_bind, Run.yields_note, Run.yields_get, Run.yields_pure] at h
      obtain ⟨_, _, rfl, steps, s₄, hunwind, _, _, rfl, _, _, ⟨rfl, rfl⟩, rfl, rfl⟩ := h
      refine ⟨format, definitions, compiled, _, s₄, ?_, hunwind, rfl, rfl, rfl, rfl, rfl⟩
      exact hprepared ⟨rfl, rfl⟩
  · simp only [Run.yields_bind, Run.yields_note, Run.yields_get, Run.yields_pure] at h
    obtain ⟨steps, s₄, hunwind, _, _, rfl, _, _, ⟨rfl, rfl⟩, rfl, rfl⟩ := h
    exact ⟨format, definitions, compiled, s₃, s₄, hprepared (.refl s₃), hunwind, rfl, rfl, rfl, rfl,
      rfl⟩

end Program

end Gerber
