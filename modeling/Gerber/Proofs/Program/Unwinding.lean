import Gerber.Proofs.Inlining.Tally
import Gerber.Proofs.Program.Prepared

/-!
# When unwinding fails

All copies of a step-and-repeat run share the count of their block, and every flash that is bound
to the block changes that count.  So a run that is copied and then grows or shrinks is miscounted,
and unwinding fails on it although no flash is nested too deep.
-/

namespace Gerber.Program

open Grid Inlining

variable {α : Type}

/-- The count of some block goes out of range while steps are inlined, or does not fit the
stretches that are left. -/
def Miscounts [Scalar α] (apertures : Apertures α) (limit : Nat) (steps : List (Step α))
    (s : Session α) : Prop :=
  ∃ id block, s.stepRepeats.get? id = some block ∧
    (LeavesRange apertures limit steps id block.steps ∨
      Uneven apertures limit steps id block.steps)

variable [Scalar α] {apertures : Apertures α} {limit : Nat} {steps : List (Step α)}
  {s t : Session α}

private theorem unwind_of_fails {e : Error} (h : (inline apertures limit steps).Fails s e t) :
    (unwind apertures limit steps).Fails s e t :=
  Run.fails_bind.mpr (.inl h)

private theorem unwind_of_yields {inlined : List (Step α)}
    (h : (inline apertures limit steps).Yields s inlined t)
    (hids : ∀ step ∈ inlined, ∀ id, step.stepRepeat = some id →
      ∃ block, t.stepRepeats.get? id = some block) :
    ((∀ stretch ∈ stretches inlined, Whole t.stepRepeats stretch.1 stretch.2) ∧
      ∃ out u, (unwind apertures limit steps).Yields s out u) ∨
    (¬ (∀ stretch ∈ stretches inlined, Whole t.stepRepeats stretch.1 stretch.2) ∧
      ∃ fault u, (unwind apertures limit steps).Fails s { fault := .stepRepeat fault } u) := by
  cases hexpand : expand t.stepRepeats inlined with
  | ok expanded =>
    refine .inl ⟨expand_eq_ok_iff.mp ⟨expanded, hexpand⟩, renumber expanded, t, ?_⟩
    simp only [unwind, Run.yields_bind, Run.yields_get, Run.yields_ofExcept, Run.yields_pure]
    exact ⟨inlined, t, h, t, t, ⟨rfl, rfl⟩, expanded, t, ⟨hexpand, rfl⟩, rfl, rfl⟩
  | error fault =>
    obtain ⟨e, rfl⟩ := fault_of_expand hexpand hids
    refine .inr ⟨fun hwhole => ?_, e, t, ?_⟩
    · obtain ⟨out, hout⟩ := expand_eq_ok_iff.mpr hwhole
      cases hexpand.symm.trans hout
    · simp only [unwind, Run.fails_bind, Run.yields_get, Run.fails_ofExcept]
      exact .inr ⟨inlined, t, h, .inr ⟨t, t, ⟨rfl, rfl⟩, .inl ⟨_, hexpand, rfl, rfl⟩⟩⟩

section

variable {format : Format} {tolerance : α} {tokens : List Token} {definitions : Definitions α}
  {compiled : Compiled α}

theorem Prepared.count_eq_tally (h : Prepared format tolerance tokens definitions compiled s)
    {id : Nat} {block : StepRepeat α} (hget : s.stepRepeats.get? id = some block) {k : Nat}
    {before after : List (Step α)}
    (hsplit : (round definitions.apertures)^[k] compiled.steps = before ++ after) :
    block.steps + (grownBy definitions.apertures id compiled.steps k +
        grown definitions.apertures id before) =
      tally definitions.apertures id block.steps compiled.steps k before after := by
  obtain ⟨-, hsteps, hblocks⟩ := h.booked
  exact Inlining.count_eq_tally (fun code b hb => (hblocks code b hb).whole hget)
    (hsteps.whole hget) hsplit

/-- What unwinding leaves is expanded from what inlining leaves, and the counts have changed by what
grew. -/
theorem Prepared.stages_of_unwind (h : Prepared format tolerance tokens definitions compiled s)
    {out : List (Step α)}
    (hunwind : (unwind definitions.apertures limit compiled.steps).Yields s out t) :
    ∃ inlined expanded,
      (inline definitions.apertures limit compiled.steps).Yields s inlined t ∧
      DepthAtMost definitions.apertures limit compiled.steps ∧
      inlined = (round definitions.apertures)^[limit] compiled.steps ∧
      Shifted (grownBy definitions.apertures · compiled.steps limit) s t ∧
      Expands t.stepRepeats inlined expanded ∧ out = renumber expanded := by
  obtain ⟨hclosed, -, hrefers⟩ := h.closed
  obtain ⟨hfits, -, -⟩ := h.booked
  simp only [unwind, Run.yields_bind, Run.yields_get, Run.yields_ofExcept, Run.yields_pure]
    at hunwind
  obtain ⟨inlined, u, hinline, _, _, ⟨rfl, rfl⟩, expanded, _, ⟨hexpand, rfl⟩, rfl, rfl⟩ := hunwind
  rcases passes_outcome hclosed hrefers hfits limit limit with
    ⟨-, fault, t, hfails⟩ | ⟨-, hdepth, t, hyields, hshift⟩ | ⟨-, -, t, hfails⟩
  · exact absurd hfails hinline.not_fails
  · obtain ⟨rfl, rfl⟩ := hinline.unique hyields
    exact ⟨_, expanded, hinline, hdepth, rfl, hshift, expands_of_expand hexpand, rfl⟩
  · exact absurd hfails hinline.not_fails

private theorem Prepared.fits_iff (h : Prepared format tolerance tokens definitions compiled s) :
    Fits definitions.apertures s compiled.steps limit ↔
      ¬ ∃ id block, s.stepRepeats.get? id = some block ∧
        LeavesRange definitions.apertures limit compiled.steps id block.steps := by
  constructor
  · rintro hfits ⟨id, block, hget, k, hk, before, after, hsplit, hleaves⟩
    have hrange := hfits k hk before after hsplit id block hget
    rw [h.count_eq_tally hget hsplit] at hrange
    omega
  · intro hnone k hk before after hsplit id block hget
    rw [h.count_eq_tally hget hsplit]
    by_contra hrange
    exact hnone ⟨id, block, hget, k, hk, before, after, hsplit, by omega⟩

private theorem Prepared.whole_stretch_iff
    (h : Prepared format tolerance tokens definitions compiled s)
    (hshift : Shifted (grownBy definitions.apertures · compiled.steps limit) s t) {id length : Nat}
    {block : StepRepeat α} (hget : s.stepRepeats.get? id = some block) {out : List (Step α)}
    (hout : (round definitions.apertures)^[limit] compiled.steps = out) :
    Whole t.stepRepeats id length ↔
      0 < tally definitions.apertures id block.steps compiled.steps limit [] out ∧
        tally definitions.apertures id block.steps compiled.steps limit [] out ∣
          (length : Int) := by
  obtain ⟨block', hget', hsteps⟩ := hshift.exists_get? hget
  have hsplit : (round definitions.apertures)^[limit] compiled.steps = [] ++ out := hout
  have htally := h.count_eq_tally hget hsplit
  rw [grown_nil, Int.add_zero, ← hsteps] at htally
  rw [← htally, Int.natCast_dvd_natCast, Int.natCast_pos]
  constructor
  · rintro ⟨other, hother, hwhole⟩
    cases hget'.symm.trans hother
    exact hwhole
  · intro hwhole
    exact ⟨block', hget', hwhole⟩

private theorem Prepared.whole_iff (h : Prepared format tolerance tokens definitions compiled s)
    (hd : DepthAtMost definitions.apertures limit compiled.steps)
    (hshift : Shifted (grownBy definitions.apertures · compiled.steps limit) s t)
    {out : List (Step α)} (hout : (round definitions.apertures)^[limit] compiled.steps = out)
    (hids : ∀ step ∈ out, ∀ id, step.stepRepeat = some id → id < s.stepRepeats.blocks.length) :
    (∀ stretch ∈ stretches out, Whole t.stepRepeats stretch.1 stretch.2) ↔
      ¬ ∃ id block, s.stepRepeats.get? id = some block ∧
        Uneven definitions.apertures limit compiled.steps id block.steps := by
  constructor
  · rintro hwhole ⟨id, block, hget, -, out', length, hexpansion, hmem, huneven⟩
    obtain rfl := hexpansion.unique (expansion_iterate hd)
    rw [hout] at hmem huneven
    exact huneven ((h.whole_stretch_iff hshift hget hout).mp (hwhole (id, length) hmem))
  · rintro hnone ⟨id, length⟩ hmem
    obtain ⟨step, hstep, hbound⟩ := List.countP_pos_iff.mp (bound_pos_of_stretch hmem)
    obtain ⟨block, hget⟩ := StepRepeats.exists_get? (hids step hstep id (isBound_iff.mp hbound))
    refine (h.whole_stretch_iff hshift hget hout).mpr ?_
    by_contra huneven
    refine hnone ⟨id, block, hget, hd, out, length, ?_, hmem, huneven⟩
    exact hout ▸ expansion_iterate hd

private theorem not_miscounts_iff :
    ¬ Miscounts apertures limit steps s ↔
      (¬ ∃ id block, s.stepRepeats.get? id = some block ∧
        LeavesRange apertures limit steps id block.steps) ∧
      ¬ ∃ id block, s.stepRepeats.get? id = some block ∧
        Uneven apertures limit steps id block.steps := by
  unfold Miscounts
  rw [← not_or, ← exists_or]
  simp only [and_or_left, exists_or]

/-- Unwinding ends in one of three ways. -/
theorem Prepared.unwind_outcome (h : Prepared format tolerance tokens definitions compiled s)
    (limit : Nat) :
    (Miscounts definitions.apertures limit compiled.steps s ∧ ∃ fault t,
      (unwind definitions.apertures limit compiled.steps).Fails s
        { fault := .stepRepeat fault } t) ∨
    (¬ Miscounts definitions.apertures limit compiled.steps s ∧
      ¬ DepthAtMost definitions.apertures limit compiled.steps ∧ ∃ t,
        (unwind definitions.apertures limit compiled.steps).Fails s
          { fault := .unwindLimit limit } t) ∨
    (¬ Miscounts definitions.apertures limit compiled.steps s ∧
      DepthAtMost definitions.apertures limit compiled.steps ∧ ∃ out t,
        (unwind definitions.apertures limit compiled.steps).Yields s out t) := by
  obtain ⟨hclosed, -, hrefers⟩ := h.closed
  obtain ⟨hfits, -, -⟩ := h.booked
  rcases passes_outcome hclosed hrefers hfits limit limit with
    ⟨hleaves, fault, t, hfails⟩ | ⟨hrange, hd, t, hyields, hshift⟩ | ⟨hrange, hd, t, hfails⟩
  · refine .inl ⟨?_, fault, t, unwind_of_fails hfails⟩
    by_contra hnot
    exact hleaves (h.fits_iff.mpr (not_miscounts_iff.mp hnot).1)
  · have hleft := ((settles_of_passes hyields).invariant
      (P := fun l => ∀ step ∈ l, step.Refers definitions.apertures s)
      (fun l hl => refers_round hclosed hl) hrefers).1
    have hids := fun step hmem => (hleft step hmem).stepRepeat
    have hwhole := h.whole_iff hd hshift rfl hids
    have hfound : ∀ step ∈ (round definitions.apertures)^[limit] compiled.steps, ∀ id,
        step.stepRepeat = some id → ∃ block, t.stepRepeats.get? id = some block := by
      intro step hmem id hid
      exact StepRepeats.exists_get? (hshift.length ▸ hids step hmem id hid)
    rcases unwind_of_yields hyields hfound with ⟨hall, hout⟩ | ⟨hall, hfails⟩
    · exact .inr (.inr ⟨not_miscounts_iff.mpr ⟨h.fits_iff.mp hrange, hwhole.mp hall⟩, hd, hout⟩)
    · refine .inl ⟨?_, hfails⟩
      by_contra hnot
      exact hall (hwhole.mpr (not_miscounts_iff.mp hnot).2)
  · have heven : ¬ ∃ id block, s.stepRepeats.get? id = some block ∧
        Uneven definitions.apertures limit compiled.steps id block.steps := by
      rintro ⟨id, block, -, hdepth, -⟩
      exact hd hdepth
    exact .inr (.inl ⟨not_miscounts_iff.mpr ⟨h.fits_iff.mp hrange, heven⟩, hd, t,
      unwind_of_fails hfails⟩)

/-- Unwinding fails on a step-and-repeat block if and only if a count comes out wrong.  Otherwise
it fails if and only if flashes are nested too deep, and there is no other failure. -/
theorem unwind_fails_iff (h : Prepared format tolerance tokens definitions compiled s)
    (limit : Nat) :
    (∀ e t, (unwind definitions.apertures limit compiled.steps).Fails s e t →
      (∃ fault, e = { fault := .stepRepeat fault }) ∨ e = { fault := .unwindLimit limit }) ∧
    ((∃ fault t, (unwind definitions.apertures limit compiled.steps).Fails s
        { fault := .stepRepeat fault } t) ↔
      Miscounts definitions.apertures limit compiled.steps s) ∧
    ((∃ t, (unwind definitions.apertures limit compiled.steps).Fails s
        { fault := .unwindLimit limit } t) ↔
      ¬ Miscounts definitions.apertures limit compiled.steps s ∧
        ¬ DepthAtMost definitions.apertures limit compiled.steps) ∧
    ((∃ out t, (unwind definitions.apertures limit compiled.steps).Yields s out t) ↔
      ¬ Miscounts definitions.apertures limit compiled.steps s ∧
        DepthAtMost definitions.apertures limit compiled.steps) := by
  rcases h.unwind_outcome limit with
    ⟨hmiscounts, fault, t, hends⟩ | ⟨hcounts, hd, t, hends⟩ | ⟨hcounts, hd, out, t, hends⟩
  · refine ⟨fun e u he => .inl ⟨fault, (hends.unique he).1⟩, ?_, ?_, ?_⟩
    · exact iff_of_true ⟨fault, t, hends⟩ hmiscounts
    · refine iff_of_false (fun ⟨u, he⟩ => ?_) fun hnot => hnot.1 hmiscounts
      cases (hends.unique he).1
    · refine iff_of_false (fun ⟨out, u, hout⟩ => ?_) fun hnot => hnot.1 hmiscounts
      exact hout.not_fails hends
  · refine ⟨fun e u he => .inr (hends.unique he).1, ?_, ?_, ?_⟩
    · refine iff_of_false (fun ⟨fault, u, he⟩ => ?_) hcounts
      cases (hends.unique he).1
    · exact iff_of_true ⟨t, hends⟩ ⟨hcounts, hd⟩
    · refine iff_of_false (fun ⟨out, u, hout⟩ => ?_) fun hnot => hd hnot.2
      exact hout.not_fails hends
  · refine ⟨fun e u he => absurd he hends.not_fails, ?_, ?_, ?_⟩
    · exact iff_of_false (fun ⟨fault, u, he⟩ => hends.not_fails he) hcounts
    · exact iff_of_false (fun ⟨u, he⟩ => hends.not_fails he) fun hnot => hnot.2 hd
    · exact iff_of_true ⟨out, t, hends⟩ ⟨hcounts, hd⟩

/-- No count comes out wrong if every run that has more than one copy stays as it is, as long as no
list on the way is too long to be counted. -/
theorem Prepared.not_miscounts (h : Prepared format tolerance tokens definitions compiled s)
    (hlength : ∀ k ≤ limit, ∀ before after,
      (round definitions.apertures)^[k] compiled.steps = before ++ after →
        (round definitions.apertures before ++ after).length < StepRepeats.countLimit)
    (hruns : ∀ id, runs definitions.apertures id compiled.steps (limit + 1) ≤ 1 ∨
      Steady definitions.apertures id compiled.steps limit) :
    ¬ Miscounts definitions.apertures limit compiled.steps s := by
  rintro ⟨id, block, hget, hwrong⟩
  obtain ⟨hfits, hsteps, hblocks⟩ := h.booked
  have hn := inRange_zero_iff.mp hfits id block hget
  have hholds : Holds definitions.apertures id block.steps := fun code b hb =>
    (hblocks code b hb).whole hget
  have htogether : HoldsTogether definitions.apertures id := fun code b hb =>
    (hblocks code b hb).oneRun id
  rcases hruns id with hone | hsteady
  · rcases hwrong with hleaves | huneven
    · exact not_leavesRange_of_one_copy htogether (hsteps.oneRun id) hone hn hlength hleaves
    · exact not_uneven_of_one_copy htogether (hsteps.oneRun id)
        (Nat.le_trans (runs_mono (Nat.le_succ limit)) hone) huneven
  · rcases hwrong with hleaves | huneven
    · exact not_leavesRange_of_steady hholds (hsteps.whole hget) hn hsteady hleaves
    · exact not_uneven_of_steady hholds htogether (hsteps.whole hget) (hsteps.oneRun id) hsteady
        huneven

/-- Prepares a file, and tells whether unwinding fails on a step-and-repeat block. -/
def trial (format : Format) (tolerance : α) (limit : Nat) (tokens : List Token) : Run α Bool := do
  let definitions ← Definitions.ofTokens format tolerance tokens
  let compiled ←
    Stream.compile ⟨format, definitions.apertures, tolerance⟩ definitions.stream.reverse
  let s ← get
  match ((unwind definitions.apertures limit compiled.steps).outcome s).1 with
  | .error ⟨.stepRepeat _, _⟩ => pure true
  | _ => pure false

private theorem fails_of_trial
    (h : ((trial format tolerance limit tokens).outcome .initial).1.toOption = some true) :
    ∃ definitions compiled s, Prepared format tolerance tokens definitions compiled s ∧
      ∃ fault t, (unwind definitions.apertures limit compiled.steps).Fails s
        { fault := .stepRepeat fault } t := by
  have hanswer : ((trial format tolerance limit tokens).outcome .initial).1.toOption.map id =
      some true := by
    rw [h]
    rfl
  obtain ⟨answer, t, htrial, rfl⟩ := Run.exists_yields_of_outcome hanswer
  simp only [trial, Run.yields_bind, Run.yields_get] at htrial
  obtain ⟨definitions, u, hdefinitions, compiled, v, hcompile, s, w, ⟨hs, rfl⟩, hends⟩ := htrial
  subst hs
  have hprepared : Prepared format tolerance tokens definitions compiled s :=
    ⟨.initial, u, u, s, rfl, hdefinitions, .refl u, hcompile, .refl s⟩
  refine ⟨definitions, compiled, s, hprepared, ?_⟩
  rcases hprepared.unwind_outcome limit with
    ⟨-, hfails⟩ | ⟨-, -, t, hlimit⟩ | ⟨-, -, out, t, hyields⟩
  · exact hfails
  · have houtcome : (unwind definitions.apertures limit compiled.steps).outcome s = _ := hlimit
    rw [houtcome] at hends
    cases (Run.yields_pure.mp hends).1
  · have houtcome : (unwind definitions.apertures limit compiled.steps).outcome s = _ := hyields
    rw [houtcome] at hends
    cases (Run.yields_pure.mp hends).1

/-- A file whose block D21 holds a step-and-repeat run with one flash of the block D20.  The run is
copied, since D21 is flashed twice, and each copy grows, since D20 holds two flashes. -/
def copiedRun : List UInt8 :=
  ("%FSLAX36Y36*%\n%MOMM*%\n%ADD10C,0.1*%\n".toList ++
    "%ABD20*%\nD10*\nX0Y0D03*\nX1000000Y0D03*\n%AB*%\n".toList ++
    "%ABD21*%\n%SRX2Y1I50J0*%\nD20*\nX0Y0D03*\n%SR*%\n%AB*%\n".toList ++
    "D21*\nX0Y0D03*\nX0Y5000000D03*\nM02*\n".toList).map fun c => UInt8.ofNat c.toNat

private theorem trial_copiedRun :
    ((trial ⟨.millimeters, 3, 6⟩ (1e-6 : Float) 64 (Token.ofBytes copiedRun)).outcome
      .initial).1.toOption = some true := by
  unfold copiedRun
  -- a literal is the list of its characters, and its bytes need not be decoded
  repeat rw [String.toList_ofList]
  decide +kernel

theorem unwind_fails_iff_copiedRun :
    ∃ definitions compiled s, Prepared ⟨.millimeters, 3, 6⟩ (1e-6 : Float)
      (Token.ofBytes copiedRun) definitions compiled s ∧
        Miscounts definitions.apertures 64 compiled.steps s := by
  obtain ⟨definitions, compiled, s, hprepared, hfails⟩ := fails_of_trial trial_copiedRun
  exact ⟨definitions, compiled, s, hprepared, (unwind_fails_iff hprepared 64).2.1.mp hfails⟩

/-- The depth of the flashes is not all that unwinding can fail on. -/
theorem not_only_unwindLimit :
    ¬ ∀ (format : Format) (tolerance : Float) (limit : Nat) (tokens : List Token)
      (definitions : Definitions Float) (compiled : Compiled Float) (s : Session Float),
      Prepared format tolerance tokens definitions compiled s → ∀ e t,
        (unwind definitions.apertures limit compiled.steps).Fails s e t →
          e = { fault := .unwindLimit limit } := by
  intro h
  obtain ⟨definitions, compiled, s, hprepared, fault, t, hfails⟩ := fails_of_trial trial_copiedRun
  cases h _ _ _ _ _ _ _ hprepared _ _ hfails

end

end Gerber.Program
