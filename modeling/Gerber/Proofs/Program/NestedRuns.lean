import Gerber.Proofs.Program.Unwinding

/-!
# Runs of the main stream

A block can hold step-and-repeat runs of its own and be flashed in a run of the main stream.  A step
is bound to one step-and-repeat block at most, and what a bound flash shows is bound as the flash
is.  So the copies of the outer run hold the steps of the block once each, and the runs of the block
are copied no more.
-/

namespace Gerber

open Grid Inlining

variable {α : Type} [Scalar α] {apertures : Apertures α} {id : Nat} {steps out : List (Step α)}

/-- No block of the table holds steps that are bound to the block with the index `id`. -/
def Inlining.Foreign (apertures : Apertures α) (id : Nat) : Prop :=
  ∀ code block, apertures.block? code = some block → ∀ step ∈ block.kept, ¬ isBound id step

namespace Inlining

private theorem isBound_of_mem_seenAll {flash step : Step α} {inner : List (Step α)}
    (h : isBound id flash) (hmem : step ∈ seenAll flash inner) : isBound id step := by
  obtain ⟨origin, -, p, rfl⟩ := mem_seenAll hmem
  rw [isBound_iff] at h ⊢
  rw [seen, h, Option.some_or]

private theorem not_isBound_of_mem_seenAll {flash step : Step α} {inner : List (Step α)}
    (h : ¬ isBound id flash) (hinner : ∀ step ∈ inner, ¬ isBound id step)
    (hmem : step ∈ seenAll flash inner) : ¬ isBound id step := by
  obtain ⟨origin, horigin, p, rfl⟩ := mem_seenAll hmem
  have hnot := hinner origin horigin
  rw [isBound_iff] at h hnot ⊢
  rw [seen]
  cases hflash : flash.stepRepeat with
  | none => rwa [Option.none_or]
  | some k => rwa [Option.some_or, ← hflash]

private theorem Expansion.all_bound (h : Expansion apertures steps out)
    (hall : ∀ step ∈ steps, isBound id step) : ∀ step ∈ out, isBound id step := by
  induction h with
  | nil => exact hall
  | keep _ _ ih =>
    obtain ⟨hstep, hrest⟩ := List.forall_mem_cons.mp hall
    exact List.forall_mem_cons.mpr ⟨hstep, ih hrest⟩
  | flash _ _ _ ihshown ihrest =>
    obtain ⟨hstep, hrest⟩ := List.forall_mem_cons.mp hall
    refine List.forall_mem_append.mpr ⟨ihshown ?_, ihrest hrest⟩
    exact fun step hmem => isBound_of_mem_seenAll hstep hmem

private theorem Expansion.none_bound (h : Expansion apertures steps out)
    (hforeign : Foreign apertures id)
    (hall : ∀ step ∈ steps, ¬ isBound id step) : ∀ step ∈ out, ¬ isBound id step := by
  induction h with
  | nil => exact hall
  | keep _ _ ih =>
    obtain ⟨hstep, hrest⟩ := List.forall_mem_cons.mp hall
    exact List.forall_mem_cons.mpr ⟨hstep, ih hrest⟩
  | flash hflash _ _ ihshown ihrest =>
    obtain ⟨hstep, hrest⟩ := List.forall_mem_cons.mp hall
    obtain ⟨-, code, -, hblock⟩ := hflash
    refine List.forall_mem_append.mpr ⟨ihshown ?_, ihrest hrest⟩
    exact fun step hmem => not_isBound_of_mem_seenAll hstep (hforeign code _ hblock) hmem

/-- Where no block holds steps that are bound to `id`, such steps are what such steps expand to. -/
theorem Expansion.filter (h : Expansion apertures steps out) (hforeign : Foreign apertures id) :
    Expansion apertures (steps.filter (isBound id)) (out.filter (isBound id)) := by
  induction h with
  | nil => exact .nil
  | @keep step _ _ hkeep _ ih =>
    by_cases hstep : isBound id step
    · rw [List.filter_cons_of_pos hstep, List.filter_cons_of_pos hstep]
      exact .keep hkeep ih
    · rwa [List.filter_cons_of_neg hstep, List.filter_cons_of_neg hstep]
  | @flash step block rest shown out hflash hshown _ _ ih =>
    rw [List.filter_append]
    by_cases hstep : isBound id step
    · have hall := hshown.all_bound fun step hmem => isBound_of_mem_seenAll hstep hmem
      rw [List.filter_cons_of_pos hstep, List.filter_eq_self.mpr hall]
      exact .flash hflash hshown ih
    · obtain ⟨-, code, -, hblock⟩ := hflash
      have hnone := hshown.none_bound hforeign fun step hmem =>
        not_isBound_of_mem_seenAll hstep (hforeign code block hblock) hmem
      rwa [List.filter_cons_of_neg hstep, List.filter_eq_nil_iff.mpr hnone, List.nil_append]

private theorem runs_of_foreign (hforeign : Foreign apertures id) (hbound : bound id steps ≠ 0)
    (k : Nat) : runs apertures id steps k = 1 := by
  have hbrings (step : Step α) : ¬ bringsUp apertures id step := by
    intro hbrings
    obtain ⟨-, block, hflash, hpos⟩ := bringsUp_iff.mp hbrings
    obtain ⟨-, code, -, hblock⟩ := flashed?_eq_some_iff.mp hflash
    have hzero : bound id block.kept = 0 := bound_eq_zero (hforeign code block hblock)
    omega
  induction k with
  | zero => rw [runs, if_neg hbound]
  | succ k ih => rw [runs, ih, List.countP_eq_zero.mpr fun step _ => hbrings step]

end Inlining

namespace Grid

variable {repeats : StepRepeats α} {block : StepRepeat α}

private theorem Expands.none_bound (h : Expands repeats steps out)
    (hall : ∀ step ∈ steps, ¬ isBound id step) : ∀ step ∈ out, ¬ isBound id step := by
  intro step hmem
  obtain ⟨origin, horigin, _, _, rfl⟩ := h.mem hmem
  exact hall origin horigin

private theorem isBound_of_mem_copies {step : Step α} {run : List (Step α)} {k : Nat}
    (hmem : step ∈ copies block run) (hall : ∀ step ∈ run, isBound k step) : isBound k step := by
  obtain ⟨origin, horigin, _, _, rfl⟩ := mem_copies hmem
  exact hall origin horigin

/-- If a block has counted all steps that are bound to it, then they are one run. -/
theorem Expands.filter (h : Expands repeats steps out) (hget : repeats.get? id = some block)
    (hcount : bound id steps = block.steps) :
    out.filter (isBound id) = copies block (steps.filter (isBound id)) := by
  induction h with
  | nil => simp [copies, Grid.copy]
  | @keep step rest out hnone _ ih =>
    have hstep : ¬ isBound id step := by simp [isBound, hnone]
    rw [bound_cons, if_neg hstep] at hcount
    rw [List.filter_cons_of_neg hstep, List.filter_cons_of_neg hstep, ih hcount]
  | @copy k other run rest out hother hne hlength hrun hrest ih =>
    rw [List.filter_append, List.filter_append]
    rw [bound_append] at hcount
    by_cases hk : k = id
    · subst hk
      obtain rfl := Option.some.inj (hget.symm.trans hother)
      have hall := bound_eq_length hrun
      have hleft : ∀ step ∈ rest, ¬ isBound k step := List.countP_eq_zero.mp (by
        change bound k rest = 0
        omega)
      rw [List.filter_eq_self.mpr fun step hmem => isBound_of_mem_copies hmem hrun,
        List.filter_eq_self.mpr hrun, List.filter_eq_nil_iff.mpr (hrest.none_bound hleft),
        List.filter_eq_nil_iff.mpr hleft, List.append_nil, List.append_nil]
    · have hdiffers {step : Step α} (hstep : isBound k step) : ¬ isBound id step := by
        rw [isBound_iff] at hstep ⊢
        simp [hstep, hk]
      have hnone : ∀ step ∈ run, ¬ isBound id step := fun step hmem => hdiffers (hrun step hmem)
      rw [bound_eq_zero hnone, Nat.zero_add] at hcount
      rw [List.filter_eq_nil_iff.mpr hnone, List.nil_append, ← ih hcount,
        List.filter_eq_nil_iff.mpr fun step hmem => hdiffers (isBound_of_mem_copies hmem hrun),
        List.nil_append]

end Grid

namespace Program

variable {format : Format} {tolerance : α} {tokens : List Token} {definitions : Definitions α}
  {compiled : Compiled α} {s t : Session α} {limit : Nat} {step : Step α}

/-- The step-and-repeat blocks of the main stream are opened after all blocks are closed. -/
theorem Prepared.foreign (h : Prepared format tolerance tokens definitions compiled s)
    (hmem : step ∈ compiled.steps) (hid : step.stepRepeat = some id) :
    Foreign definitions.apertures id := by
  obtain ⟨r, t, u, v, hr, hdefinitions, htu, hcompile, -⟩ := h
  have hrepeat : r.AllRepeat := by
    unfold Session.AllRepeat
    simp [hr]
  have hclosed := (Definitions.closed_of_ofTokens hdefinitions hrepeat).1
  intro code block hblock inner hinner hbound
  have hstep : inner ∈ block.steps := List.mem_of_mem_tail (List.mem_filter.mp hinner).1
  have hlt := (hclosed code block hblock inner hstep).stepRepeat id (isBound_iff.mp hbound)
  have hle := ((Stream.counted_of_compile hcompile).opened step hmem id hid).1
  rw [htu.2] at hle
  omega

private theorem Prepared.copies_of_unwind
    (h : Prepared format tolerance tokens definitions compiled s)
    (hunwind : (unwind definitions.apertures limit compiled.steps).Yields s out t)
    (hmem : step ∈ compiled.steps) (hid : step.stepRepeat = some id) :
    ∃ expanded block shown, out = renumber expanded ∧ t.stepRepeats.get? id = some block ∧
      Expansion definitions.apertures (compiled.steps.filter (isBound id)) shown ∧
      expanded.filter (isBound id) = copies block shown := by
  have hforeign := h.foreign hmem hid
  obtain ⟨-, -, hrefers⟩ := h.closed
  obtain ⟨_, expanded, -, hdepth, rfl, hshift, hexpands, rfl⟩ := h.stages_of_unwind hunwind
  obtain ⟨old, hold⟩ := StepRepeats.exists_get? ((hrefers step hmem).stepRepeat id hid)
  obtain ⟨block, hget, hsteps⟩ := hshift.exists_get? hold
  refine ⟨expanded, block, _, rfl, hget, (expansion_iterate hdepth).filter hforeign, ?_⟩
  refine hexpands.filter hget ?_
  -- there is one copy of the run, so its count is the number of its steps
  have hne : bound id compiled.steps ≠ 0 := by
    have hpos : 0 < bound id compiled.steps :=
      List.countP_pos_iff.mpr ⟨step, hmem, isBound_iff.mpr hid⟩
    omega
  have hcount := h.count_eq_tally hold
    (List.nil_append ((round definitions.apertures)^[limit] compiled.steps)).symm
  rw [grown_nil, Int.add_zero, ← hsteps, tally, runs_of_foreign hforeign hne] at hcount
  simp [Inlining.round] at hcount
  omega

/-- What unwinding starts from and what it comes to. -/
structure Unwinding (α : Type) where
  apertures : Apertures α
  steps : List (Step α)
  out : List (Step α)
  stepRepeats : StepRepeats α

def unwindFile (format : Format) (tolerance : α) (limit : Nat) (tokens : List Token) :
    Run α (Unwinding α) := do
  let definitions ← Definitions.ofTokens format tolerance tokens
  let compiled ←
    Stream.compile ⟨format, definitions.apertures, tolerance⟩ definitions.stream.reverse
  let out ← unwind definitions.apertures limit compiled.steps
  let s ← get
  pure ⟨definitions.apertures, compiled.steps, out, s.stepRepeats⟩

theorem prepared_of_unwindFile {result : Unwinding α}
    (h : (unwindFile format tolerance limit tokens).Yields .initial result t) :
    ∃ definitions compiled s, Prepared format tolerance tokens definitions compiled s ∧
      (unwind definitions.apertures limit compiled.steps).Yields s result.out t ∧
      result = ⟨definitions.apertures, compiled.steps, result.out, t.stepRepeats⟩ := by
  simp only [unwindFile, Run.yields_bind, Run.yields_get, Run.yields_pure] at h
  obtain ⟨definitions, u, hdefinitions, compiled, s, hcompile, out, v, hunwind, _, _, ⟨rfl, rfl⟩,
    rfl, rfl⟩ := h
  exact ⟨definitions, compiled, s,
    ⟨.initial, u, u, s, rfl, hdefinitions, .refl u, hcompile, .refl s⟩,
    hunwind, rfl⟩

/-- The distances of the copies of a step. -/
def gridOf (repeats : StepRepeats α) (step : Step α) : List (Vec α) :=
  match step.stepRepeat.bind repeats.get? with
  | some block => block.offsets
  | none => []

/-- Each step of a block that has copies, and is shown by a flash that has copies, is found at every
place that the two grids together give. -/
def RepeatsInside (result : Unwinding α) : Prop :=
  ∀ flash ∈ result.steps, ∀ block ∈ flashed? result.apertures flash,
    ∀ outer ∈ gridOf result.stepRepeats flash, ∀ step ∈ block.kept,
      ∀ offset ∈ gridOf result.stepRepeats step, ∃ copied ∈ result.out,
        copied.coord.x = step.coord.x + flash.coord.x + offset.x + outer.x ∧
          copied.coord.y = step.coord.y + flash.coord.y + offset.y + outer.y

instance [DecidableEq α] (result : Unwinding α) : Decidable (RepeatsInside result) := by
  unfold RepeatsInside
  infer_instance

/-- A file whose block D20 repeats a flash along one axis, and whose main stream repeats a flash of
D20 along the other. -/
def gridOfGrids : List UInt8 :=
  ("%FSLAX36Y36*%\n%MOMM*%\n%ADD10C,0.1*%\n".toList ++
    "%ABD20*%\n%SRX2Y1I5J0*%\nD10*\nX0Y0D03*\n%SR*%\n%AB*%\n".toList ++
    "%SRX1Y2I0J10*%\nD20*\nX0Y0D03*\n%SR*%\nM02*\n".toList).map fun c => UInt8.ofNat c.toNat

private theorem unwindFile_gridOfGrids :
    ((unwindFile ⟨.millimeters, 3, 6⟩ (1e-6 : Float) 64 (Token.ofBytes gridOfGrids)).outcome
      .initial).1.toOption.map (fun result =>
        (result.out.map Step.action, result.steps.any fun step =>
          isBound 1 step && (flashed? result.apertures step).isSome,
          decide (RepeatsInside result))) =
      some ([.move, .flash, .flash, .stop], true, false) := by
  unfold gridOfGrids
  repeat rw [String.toList_ofList]
  decide +kernel

/-- A flash of a block in a run of the main stream.  The steps that are bound as the flash is are
copies of the run, one for each place of the grid, and each of them shows the steps of the block
once.  They are all bound as the flash is: the runs of the block itself have no copies. -/
theorem Prepared.flash_in_run (h : Prepared format tolerance tokens definitions compiled s)
    (hunwind : (unwind definitions.apertures limit compiled.steps).Yields s out t)
    {before after : List (Step α)} {flash : Step α} {block : BlockAperture α}
    (hsplit : compiled.steps = before ++ flash :: after) (hid : flash.stepRepeat = some id)
    (hflash : Flashes definitions.apertures flash block) :
    ∃ expanded grid first shown last, out = renumber expanded ∧
      t.stepRepeats.get? id = some grid ∧
      Expansion definitions.apertures (before.filter (isBound id)) first ∧
      Expansion definitions.apertures (seenAll flash block.kept) shown ∧
      Expansion definitions.apertures (after.filter (isBound id)) last ∧
      (∀ step ∈ shown, step.stepRepeat = some id) ∧
      expanded.filter (isBound id) =
        grid.offsets.flatMap fun offset => copy offset Coord.zero (first ++ shown ++ last) := by
  have hmem : flash ∈ compiled.steps := hsplit ▸ List.mem_append_right _ List.mem_cons_self
  have hbound : isBound id flash := isBound_iff.mpr hid
  obtain ⟨expanded, grid, all, hout, hget, hall, hcopies⟩ := h.copies_of_unwind hunwind hmem hid
  rw [hsplit, List.filter_append, List.filter_cons_of_pos hbound] at hall
  obtain ⟨first, rest, rfl, hfirst, hrest⟩ := hall.exists_of_append
  cases hrest with
  | keep hkeep _ => exact absurd hflash (hkeep block)
  | @flash _ other _ shown last hother hshown hlast =>
    obtain rfl := hflash.unique hother
    refine ⟨expanded, grid, first, shown, last, hout, hget, hfirst, hshown, hlast, ?_, ?_⟩
    · intro step hstep
      exact isBound_iff.mp (hshown.all_bound (fun _ => isBound_of_mem_seenAll hbound) step hstep)
    · rw [hcopies, copies, List.append_assoc]

theorem Prepared.flash_in_run_gridOfGrids :
    ∃ (definitions : Definitions Float) (compiled : Compiled Float) (s t : Session Float)
      (out : List (Step Float)),
      Prepared ⟨.millimeters, 3, 6⟩ 1e-6 (Token.ofBytes gridOfGrids) definitions compiled s ∧
      (unwind definitions.apertures 64 compiled.steps).Yields s out t ∧
      ∃ flash ∈ compiled.steps, ∃ block, Flashes definitions.apertures flash block ∧
      ∃ shown, Expansion definitions.apertures (seenAll flash block.kept) shown ∧
        ∀ step ∈ shown, step.stepRepeat = some 1 := by
  obtain ⟨result, t, hyields, hshown⟩ := Run.exists_yields_of_outcome unwindFile_gridOfGrids
  obtain ⟨definitions, compiled, s, hprepared, hunwind, hresult⟩ := prepared_of_unwindFile hyields
  rw [hresult] at hshown
  have hany := congrArg (fun shown => shown.2.1) hshown
  obtain ⟨flash, hmem, hflash⟩ := List.any_eq_true.mp hany
  rw [Bool.and_eq_true] at hflash
  obtain ⟨block, hblock⟩ := Option.isSome_iff_exists.mp hflash.2
  have hflashes := flashed?_eq_some_iff.mp hblock
  obtain ⟨before, after, hsplit⟩ := List.append_of_mem hmem
  obtain ⟨_, _, _, shown, _, -, -, -, hexpansion, -, hbound, -⟩ :=
    hprepared.flash_in_run hunwind hsplit (isBound_iff.mp hflash.1) hflashes
  exact ⟨definitions, compiled, s, t, result.out, hprepared, hunwind, flash, hmem, block, hflashes,
    shown, hexpansion, hbound⟩

/-- Not every grid inside a grid is copied. -/
theorem not_repeatsInside :
    ¬ ∀ (format : Format) (tolerance : Float) (limit : Nat) (tokens : List Token)
      (definitions : Definitions Float) (compiled : Compiled Float) (s t : Session Float)
      (out : List (Step Float)),
      Prepared format tolerance tokens definitions compiled s →
        (unwind definitions.apertures limit compiled.steps).Yields s out t →
          RepeatsInside ⟨definitions.apertures, compiled.steps, out, t.stepRepeats⟩ := by
  intro h
  obtain ⟨result, t, hyields, hshown⟩ := Run.exists_yields_of_outcome unwindFile_gridOfGrids
  obtain ⟨definitions, compiled, s, hprepared, hunwind, hresult⟩ := prepared_of_unwindFile hyields
  have hlost := congrArg (fun shown => shown.2.2) hshown
  have hinside := h _ _ _ _ definitions compiled s t result.out hprepared hunwind
  rw [← hresult] at hinside
  exact of_decide_eq_false hlost hinside

end Program

end Gerber
