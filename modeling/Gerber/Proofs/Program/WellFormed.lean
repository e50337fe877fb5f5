import Gerber.Proofs.Program.Prepared

/-!
# Compiled programs are well formed

Whatever bytes are compiled, a program that comes out is consistent: its steps are numbered, the
stop of the file is the last of them, no block flash is left, and no step refers to anything that
the program does not hold.  Every stage of a compilation keeps its part of this.
-/

namespace Gerber

variable {α : Type}

open Inlining

variable [Scalar α]

private theorem Grid.framed_expand {repeats : StepRepeats α} {steps out : List (Step α)}
    {stopped : Bool}
    (h : expand repeats steps = .ok out) (hf : Framed stopped steps) : Framed stopped out := by
  have hquiet {steps out : List (Step α)} (he : Expands repeats steps out) (hq : Quiet steps) :
      Quiet out := by
    intro step hmem
    obtain ⟨origin, horigin, _, _, rfl⟩ := he.mem hmem
    exact hq origin horigin
  cases hf with
  | unstopped hq =>
    rw [expand_cons_none rfl, Except.map_eq_ok] at h
    obtain ⟨out, hrest, rfl⟩ := h
    exact .unstopped (hquiet (expands_of_expand hrest) hq)
  | stopped hq hstop hlast =>
    rw [expand_cons_none rfl, Except.map_eq_ok] at h
    obtain ⟨out, hrest, rfl⟩ := h
    obtain ⟨out, hexpands, rfl⟩ := (expands_of_expand hrest).concat hlast
    exact .stopped (hquiet hexpands hq) hstop hlast

namespace Program

private theorem framed_of_unwind {apertures : Apertures α} {limit : Nat} {steps out : List (Step α)}
    {stopped : Bool} {s t : Session α} (h : (unwind apertures limit steps).Yields s out t)
    (hf : Framed stopped steps) (hc : Closed apertures s)
    (hr : ∀ step ∈ steps, step.Refers apertures s) :
    s.Grows t ∧ ∃ expanded, out = Grid.renumber expanded ∧ Framed stopped expanded ∧
      ∀ step ∈ expanded, step.Refers apertures t ∧ flashed? apertures step = none := by
  simp only [unwind, Run.yields_bind, Run.yields_get, Run.yields_ofExcept, Run.yields_pure] at h
  obtain ⟨inlined, u, hinline, _, _, ⟨rfl, rfl⟩, expanded, _, ⟨hexpand, rfl⟩, rfl, rfl⟩ := h
  have hsettles := settles_of_passes hinline
  have hgrows := hsettles.grows
  obtain ⟨⟨hframed, hrefers⟩, hflash⟩ := hsettles.invariant
    (P := fun l => Framed stopped l ∧ ∀ step ∈ l, step.Refers apertures s)
    (fun l hl => ⟨framed_round hl.1, refers_round hc hl.2⟩) ⟨hf, hr⟩
  rw [flashCount_eq_zero_iff] at hflash
  refine ⟨hgrows, expanded, rfl, Grid.framed_expand hexpand hframed, fun step hmem => ?_⟩
  obtain ⟨origin, horigin, _, _, rfl⟩ := (Grid.expands_of_expand hexpand).mem hmem
  have hown := (hrefers origin horigin).mono (fun _ hcode => hcode) hgrows
  exact ⟨⟨hown.aperture, hown.region, hown.stepRepeat⟩, hflash origin horigin⟩

/-- A program whose steps are in order and refer to nothing that it does not hold. -/
structure WellFormed (p : Program α) : Prop where
  root : p.unwound.head? = some Step.root
  numbered : p.steps.map Step.number = List.range' 1 p.steps.length
  unstopped : p.stopped = false → Quiet p.steps
  stopped : p.stopped = true →
    ∃ before last, p.steps = before ++ [last] ∧ Quiet before ∧ last.action = .stop
  inlined : ∀ step ∈ p.steps, ∀ block, ¬ Flashes p.apertures step block
  aperture : ∀ step ∈ p.steps, ∀ code, step.aperture = some code → p.apertures.Defines code
  region : ∀ step ∈ p.steps, ∀ id, step.region = some id → id < p.regions.length
  stepRepeat : ∀ step ∈ p.steps, ∀ id, step.stepRepeat = some id → id < p.stepRepeats.length
  repeats : ∀ block ∈ p.stepRepeats, block.Repeats

def numberedFromOne (steps : List (Step α)) : List (Step α) :=
  steps.mapIdx fun k step => { step with number := k + 1 }

private theorem renumber_root (steps : List (Step α)) :
    Grid.renumber (Step.root :: steps) = Step.root :: numberedFromOne steps := by
  rw [Grid.renumber, List.mapIdx_cons]
  rfl

omit [Scalar α] in
private theorem mem_numberedFromOne {steps : List (Step α)} {step : Step α}
    (h : step ∈ numberedFromOne steps) :
    ∃ origin ∈ steps, ∃ number, step = { origin with number } := by
  obtain ⟨k, hk, rfl⟩ := List.mem_mapIdx.mp h
  exact ⟨_, List.getElem_mem hk, k + 1, rfl⟩

omit [Scalar α] in
private theorem quiet_numberedFromOne {steps : List (Step α)} (h : Quiet steps) :
    Quiet (numberedFromOne steps) := by
  intro step hmem
  obtain ⟨origin, horigin, _, rfl⟩ := mem_numberedFromOne hmem
  exact h origin horigin

omit [Scalar α] in
private theorem number_numberedFromOne (steps : List (Step α)) :
    (numberedFromOne steps).map Step.number = List.range' 1 (numberedFromOne steps).length := by
  refine List.ext_getElem (by simp) fun k hk hk' => ?_
  simp [numberedFromOne, Nat.add_comm]

/-- A program is well formed if it holds what unwinding leaves of a stream in its frame, over a
closed table of apertures. -/
private theorem wellFormed_of_unwind {limit : Nat} {steps : List (Step α)} {p : Program α}
    {s t : Session α} (h : (unwind p.apertures limit steps).Yields s p.unwound t)
    (hf : Framed p.stopped steps) (hc : Closed p.apertures s)
    (hr : ∀ step ∈ steps, step.Refers p.apertures s) (hs : s.AllRepeat)
    (hregions : p.regions = t.regions.regions) (hrepeats : p.stepRepeats = t.stepRepeats.blocks) :
    p.WellFormed := by
  obtain ⟨hgrows, expanded, hout, hframed, hrefers⟩ := framed_of_unwind h hf hc hr
  obtain ⟨rest, rfl⟩ := hframed.exists_cons
  rw [renumber_root] at hout
  have hsteps : p.steps = numberedFromOne rest := by
    rw [Program.steps, hout, List.tail_cons]
  have hstep : ∀ step ∈ p.steps, step.Refers p.apertures t ∧ flashed? p.apertures step = none := by
    rw [hsteps]
    intro step hmem
    obtain ⟨origin, horigin, _, rfl⟩ := mem_numberedFromOne hmem
    obtain ⟨hown, hflash⟩ := hrefers origin (List.mem_cons_of_mem _ horigin)
    exact ⟨⟨hown.aperture, hown.region, hown.stepRepeat⟩, hflash⟩
  exact {
    root := by rw [hout, List.head?_cons]
    numbered := by rw [hsteps, number_numberedFromOne]
    unstopped := by
      intro hstopped
      rw [hstopped] at hframed
      cases hframed with
      | unstopped hq => exact hsteps ▸ quiet_numberedFromOne hq
    stopped := by
      intro hstopped
      rw [hstopped] at hframed
      cases hframed with
      | @stopped middle last hq hstop _ =>
        refine ⟨numberedFromOne middle, { last with number := middle.length + 1 }, ?_,
          quiet_numberedFromOne hq, hstop⟩
        simp only [hsteps, numberedFromOne, List.mapIdx_append, List.mapIdx_singleton, Nat.zero_add]
    inlined := fun step hmem => flashed?_eq_none_iff.mp (hstep step hmem).2
    aperture := fun step hmem => (hstep step hmem).1.aperture
    region := by
      rw [hregions]
      exact fun step hmem => (hstep step hmem).1.region
    stepRepeat := by
      rw [hrepeats]
      exact fun step hmem => (hstep step hmem).1.stepRepeat
    repeats := by
      rw [hrepeats]
      exact hgrows.allRepeat hs }

private theorem wellFormed_of_ofTokens {options : Options α} {tokens : List Token} {p : Program α}
    {s t : Session α} (hs : s.stepRepeats.blocks = [])
    (h : (ofTokens options tokens).Yields s p t) : p.WellFormed := by
  obtain ⟨format, definitions, compiled, u, v, hprepared, hunwind, hp⟩ := prepared_of_ofTokens hs h
  obtain ⟨hclosed, hrepeat, hrefers⟩ := hprepared.closed
  have hframed := hprepared.framed
  rw [← hp.apertures] at hunwind hclosed hrefers
  rw [← hp.stopped] at hframed
  exact wellFormed_of_unwind hunwind hframed hclosed hrefers hrepeat hp.regions hp.stepRepeats

/-- Every program that is compiled from bytes is well formed. -/
theorem wellFormed_of_ofBytes {options : Options α} {bytes : List UInt8} {p : Program α}
    {notices : List Notice} (h : ofBytes options bytes = (.ok p, notices)) : p.WellFormed := by
  have hresult : ((ofTokens options (Token.ofBytes bytes)).outcome .initial).1 = .ok p :=
    congrArg Prod.fst h
  have hyields : (ofTokens options (Token.ofBytes bytes)).Yields .initial p
      ((ofTokens options (Token.ofBytes bytes)).outcome .initial).2 :=
    Prod.ext hresult rfl
  exact wellFormed_of_ofTokens rfl hyields

/-- A file that flashes an aperture block inside a step-and-repeat block. -/
def repeatedFlash : List UInt8 :=
  ("%FSLAX36Y36*%%MOMM*%%ADD10C,0.1*%%ABD20*%D10*X1000000Y0D03*%AB*%".toList ++
    "%SRX2Y1I5J0*%D20*X0Y0D03*%SR*%M02*".toList).map fun c => UInt8.ofNat c.toNat

theorem wellFormed_of_ofBytes_repeatedFlash :
    ∃ (p : Program Float) (notices : List Notice),
      ofBytes .standard repeatedFlash = (.ok p, notices) ∧
        p.steps.map Step.action = [.flash, .flash, .stop] ∧ p.WellFormed := by
  have hactions : (ofBytes (Options.standard : Options Float) repeatedFlash).1.toOption.map
      (fun p => p.steps.map Step.action) = some [.flash, .flash, .stop] := by
    unfold repeatedFlash
    repeat rw [String.toList_ofList]
    decide +kernel
  rcases h : ofBytes (Options.standard : Options Float) repeatedFlash with ⟨result, notices⟩
  rw [h] at hactions
  cases result with
  | error e => cases hactions
  | ok p => exact ⟨p, notices, rfl, Option.some.inj hactions, wellFormed_of_ofBytes h⟩

end Program

end Gerber
