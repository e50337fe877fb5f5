import Gerber.Proofs.Inlining.Standing
import Gerber.Proofs.Program.NestedRuns

/-!
# What a copy keeps

The copies of a step-and-repeat run are chained anew, so a step keeps its start only if it started
where the step before it ended.  That is so in every run without block flashes; what a block flash
shows, and the step after it, start at the flash before they are copied.  The origin of a step is
where its block was flashed before it was copied, and no copy moves it.
-/

namespace Gerber

open Grid Inlining

variable {α : Type} [Scalar α]

namespace Definitions

variable {format : Format} {tolerance : α} {tokens : List Token} {d : Definitions α}
  {s t : Session α}

private theorem origin_of_ofTokens (h : (ofTokens format tolerance tokens).Yields s d t) :
    ∀ code block, d.apertures.block? code = some block →
      ∀ step ∈ block.steps, step.origin = Vec.zero := by
  refine invariant (I := fun d _ => ∀ code block, d.apertures.block? code = some block →
    ∀ step ∈ block.steps, step.origin = Vec.zero) ?_ h ?_
  · intro d s d' t hchange hall
    cases hchange with
    | aside hsame _ => rwa [hsame]
    | aperture hnone hdefine _ =>
      rw [hdefine]
      intro code block hblock
      rcases Apertures.block?_define hblock with hown | hold
      · cases hnone.symm.trans hown
      · exact hall code block hold
    | block hcompile hdefine _ =>
      rw [hdefine]
      intro code block hblock
      rcases Apertures.block?_define hblock with hown | hold
      · cases hown
        exact Stream.origin_of_compile hcompile
      · exact hall code block hold
  · intro code block hblock
    cases hblock

end Definitions

namespace Program

variable {format : Format} {tolerance : α} {tokens : List Token} {definitions : Definitions α}
  {compiled : Compiled α} {s t : Session α} {limit id : Nat} {out : List (Step α)}

namespace Prepared

/-- The steps of the main stream continue each other. -/
theorem chained (h : Prepared format tolerance tokens definitions compiled s) :
    Chained (fun _ => False) Coord.zero compiled.steps := by
  obtain ⟨_, _, _, _, -, -, -, hcompile, -⟩ := h
  exact Stream.chained_of_compile hcompile

private theorem origins (h : Prepared format tolerance tokens definitions compiled s) :
    (∀ step ∈ compiled.steps, step.origin = Vec.zero) ∧
      ∀ code block, definitions.apertures.block? code = some block →
        ∀ step ∈ block.steps, step.origin = Vec.zero := by
  obtain ⟨_, _, _, _, -, hdefinitions, -, hcompile, -⟩ := h
  exact ⟨Stream.origin_of_compile hcompile, Definitions.origin_of_ofTokens hdefinitions⟩

private theorem joined_of_plain (h : Prepared format tolerance tokens definitions compiled s)
    (hshift : Shifted (grownBy definitions.apertures · compiled.steps limit) s t)
    (hexpands : Expands t.stepRepeats ((round definitions.apertures)^[limit] compiled.steps) out)
    (hplain : Plain definitions.apertures compiled.steps id) {block : StepRepeat α}
    {run : List (Step α)} (hmem : Piece.run id block run ∈
      pieces t.stepRepeats ((round definitions.apertures)^[limit] compiled.steps)) :
    Joined run := by
  obtain ⟨-, hsteps, hblocks⟩ := h.booked
  have hget := (hexpands.pieces.2.2 id block run hmem).get
  obtain ⟨old, hold, hcount⟩ := hshift.steps id block hget
  have hgrown : grownBy definitions.apertures id compiled.steps limit = 0 :=
    grownBy_of_steady (hplain.steady limit) (Nat.le_succ limit)
  have hn : block.steps = old.steps := by
    rw [hgrown, Int.add_zero] at hcount
    exact_mod_cast hcount
  have hlaid : Laid id old.steps compiled.steps :=
    (hsteps.oneRun id).laid h.chained (hsteps.whole hold)
  have hinlined := laid_iterate (fun code b hb => (hblocks code b hb).whole hold)
    (fun code b hb => (hblocks code b hb).oneRun id) hlaid hplain limit
  exact hexpands.joined hinlined hget hn hmem

end Prepared

/-- The copies of the runs of a file.  In a copy each step but the first starts where the step
before it ends.  Before it is copied, it starts there too, or at a flash of a block.  So the copies
of a run without block flashes keep all starts. -/
theorem Prepared.starts_of_copies (h : Prepared format tolerance tokens definitions compiled s)
    (hunwind : (unwind definitions.apertures limit compiled.steps).Yields s out t) :
    ∃ inlined, (inline definitions.apertures limit compiled.steps).Yields s inlined t ∧
      inlined = (pieces t.stepRepeats inlined).flatMap Piece.steps ∧
      out = renumber ((pieces t.stepRepeats inlined).flatMap Piece.expanded) ∧
      ∀ id block run, Piece.run id block run ∈ pieces t.stepRepeats inlined →
        IsRun t.stepRepeats id block run ∧
        (∀ i a b, run[i]? = some a → run[i + 1]? = some b →
          (b.prev = a.coord ∨ FlashPoint definitions.apertures compiled.steps b.prev) ∧
          ∀ offset prev copied, (copy offset prev run)[i + 1]? = some copied →
            copied.prev = a.coord.translate offset ∧
              copied.coord = b.coord.translate offset) ∧
        (Plain definitions.apertures compiled.steps id → (Piece.run id block run).KeepsStarts) := by
  obtain ⟨inlined, expanded, hinline, -, rfl, hshift, hexpands, rfl⟩ :=
    h.stages_of_unwind hunwind
  obtain ⟨hsteps, hout, hruns⟩ := hexpands.pieces
  refine ⟨_, hinline, hsteps, congrArg renumber hout, ?_⟩
  intro id block run hmem
  refine ⟨hruns id block run hmem, ?_, ?_⟩
  · intro i a b ha hb
    constructor
    · obtain ⟨before, after, hsplit⟩ := List.append_of_mem hmem
      have hchained : Chained (FlashPoint definitions.apertures compiled.steps) Coord.zero
          ((round definitions.apertures)^[limit] compiled.steps) := chained_iterate h.chained limit
      rw [hsteps, hsplit, List.flatMap_append, List.flatMap_cons, chained_append,
        chained_append] at hchained
      exact hchained.2.1.prev_eq ha hb
    · intro offset prev copied hcopied
      obtain ⟨start, rfl⟩ := getElem?_copy hb hcopied
      exact ⟨prev_of_copy ha hcopied, rfl⟩
  · intro hplain
    exact keepsStarts_of_joined (h.joined_of_plain hshift hexpands hplain hmem) id block

/-- A file whose block D20 draws from its flash, and whose main stream flashes it between two other
operations, in a run with one copy. -/
def drawnFlash : List UInt8 :=
  ("%FSLAX36Y36*%\n%MOMM*%\n%ADD10C,0.1*%\n".toList ++
    "%ABD20*%\nD10*\nX10000000Y0D01*\n%AB*%\n".toList ++
    "%SRX1Y1I0J0*%\nD10*\nX0Y0D02*\nD20*\nX100000000Y100000000D03*\n".toList ++
    "D10*\nX200000000Y100000000D01*\n%SR*%\nM02*\n".toList).map fun c => UInt8.ofNat c.toNat

private theorem unwindFile_drawnFlash :
    ((unwindFile ⟨.millimeters, 3, 6⟩ (1e-6 : Float) 64 (Token.ofBytes drawnFlash)).outcome
      .initial).1.toOption.map (fun result : Unwinding Float =>
        decide (∀ piece ∈ pieces result.stepRepeats ((round result.apertures)^[64] result.steps),
          piece.KeepsStarts)) = some false := by
  unfold drawnFlash
  repeat rw [String.toList_ofList]
  decide +kernel

theorem Prepared.starts_of_copies_drawnFlash :
    ∃ (definitions : Definitions Float) (compiled : Compiled Float) (s t : Session Float)
      (out inlined : List (Step Float)) (id : Nat) (block : StepRepeat Float)
      (run : List (Step Float)),
      Prepared ⟨.millimeters, 3, 6⟩ 1e-6 (Token.ofBytes drawnFlash) definitions compiled s ∧
      (unwind definitions.apertures 64 compiled.steps).Yields s out t ∧
      out = renumber ((pieces t.stepRepeats inlined).flatMap Piece.expanded) ∧
      Piece.run id block run ∈ pieces t.stepRepeats inlined ∧
      ¬ (Piece.run id block run).KeepsStarts ∧ ¬ Plain definitions.apertures compiled.steps id := by
  obtain ⟨result, t, hyields, hshown⟩ := Run.exists_yields_of_outcome unwindFile_drawnFlash
  obtain ⟨definitions, compiled, s, hprepared, hunwind, hresult⟩ := prepared_of_unwindFile hyields
  obtain ⟨inlined, hinline, -, hout, hruns⟩ := hprepared.starts_of_copies hunwind
  obtain ⟨_, _, hown, -, hround, -⟩ := hprepared.stages_of_unwind hunwind
  have hsame := (hinline.unique hown).1
  have hlost := of_decide_eq_false hshown
  rw [hresult, ← hround, hsame] at hlost
  simp only [not_forall] at hlost
  obtain ⟨piece, hmem, hpiece⟩ := hlost
  cases piece with
  | step kept => exact absurd trivial hpiece
  | run id block run =>
    refine ⟨definitions, compiled, s, t, result.out, inlined, id, block, run, hprepared, hunwind,
      hout, hmem, hpiece, ?_⟩
    intro hplain
    exact hpiece ((hruns id block run hmem).2.2 hplain)

/-- Not every copy keeps the starts of its run. -/
theorem not_all_keepsStarts :
    ¬ ∀ (format : Format) (tolerance : Float) (limit : Nat) (tokens : List Token)
      (definitions : Definitions Float) (compiled : Compiled Float) (s t : Session Float)
      (out inlined : List (Step Float)),
      Prepared format tolerance tokens definitions compiled s →
        (unwind definitions.apertures limit compiled.steps).Yields s out t →
          (inline definitions.apertures limit compiled.steps).Yields s inlined t →
            ∀ piece ∈ pieces t.stepRepeats inlined, piece.KeepsStarts := by
  intro h
  obtain ⟨result, t, hyields, hshown⟩ := Run.exists_yields_of_outcome unwindFile_drawnFlash
  obtain ⟨definitions, compiled, s, hprepared, hunwind, hresult⟩ := prepared_of_unwindFile hyields
  obtain ⟨inlined, _, hinline, -, hround, -⟩ := hprepared.stages_of_unwind hunwind
  have hkeeps := h _ _ _ _ definitions compiled s t result.out inlined hprepared hunwind hinline
  have hlost := of_decide_eq_false hshown
  rw [hresult, ← hround] at hlost
  exact hlost hkeeps

/-- The origins of the steps of a file.  A step that a flash of a block shows has its origin at the
flash, as it stands before any copies are made; other steps have none.  Each copy moves the step,
and leaves the origin where it is. -/
theorem Prepared.origins_of_copies (h : Prepared format tolerance tokens definitions compiled s)
    (hunwind : (unwind definitions.apertures limit compiled.steps).Yields s out t) :
    ∃ inlined, (inline definitions.apertures limit compiled.steps).Yields s inlined t ∧
      inlined = (pieces t.stepRepeats inlined).flatMap Piece.steps ∧
      out = renumber ((pieces t.stepRepeats inlined).flatMap Piece.expanded) ∧
      (∀ step ∈ inlined, (step ∈ compiled.steps ∧ step.origin = Vec.zero) ∨
        ∃ flash block inner prev, Stands definitions.apertures compiled.steps flash ∧
          Flashes definitions.apertures flash block ∧ inner ∈ block.kept ∧
          step = seen flash prev inner ∧ step.origin = Vec.zero.add flash.coord.place) ∧
      ∀ id block run, Piece.run id block run ∈ pieces t.stepRepeats inlined →
        ∀ (offset : Vec α) (prev : Coord α) (i : Nat) (step copied : Step α),
          run[i]? = some step → (copy offset prev run)[i]? = some copied →
            copied.origin = step.origin ∧ copied.coord = step.coord.translate offset := by
  obtain ⟨hmain, hblocks⟩ := h.origins
  obtain ⟨inlined, expanded, hinline, -, rfl, -, hexpands, rfl⟩ := h.stages_of_unwind hunwind
  obtain ⟨hsteps, hout, -⟩ := hexpands.pieces
  refine ⟨_, hinline, hsteps, congrArg renumber hout, ?_, ?_⟩
  · intro step hmem
    cases stands_iterate limit step hmem with
    | listed hlisted => exact .inl ⟨hlisted, hmain step hlisted⟩
    | @shown flash _ block hstands hflash hshown =>
      obtain ⟨inner, hinner, prev, rfl⟩ := mem_seenAll hshown
      obtain ⟨-, code, -, hblock⟩ := id hflash
      have hstep : inner ∈ block.steps := List.mem_of_mem_tail (List.mem_filter.mp hinner).1
      refine .inr ⟨flash, block, inner, prev, hstands, hflash, hinner, rfl, ?_⟩
      rw [seen, hblocks code block hblock inner hstep]
      rfl
  · intro id block run _ offset prev i step copied hstep hcopied
    obtain ⟨start, rfl⟩ := getElem?_copy hstep hcopied
    exact ⟨rfl, rfl⟩

/-- In every copy of a run, what a flash of the run shows has its origin where the flash is copied
to. -/
def FollowsFlashes (apertures : Apertures α) (main : List (Step α)) : Piece α → Prop
  | .step _ => True
  | .run id grid taken =>
    ∀ (flash inner : Step α) (block : BlockAperture α) (prev : Coord α) (i : Nat),
      Stands apertures main flash → Flashes apertures flash block → inner ∈ block.kept →
      flash.stepRepeat = some id → taken[i]? = some (seen flash prev inner) →
      ∀ offset ∈ grid.offsets, ∀ copied : Step α,
        (copy offset Coord.zero taken)[i]? = some copied →
          copied.origin = Vec.zero.add (flash.coord.translate offset).place

/-- A flash of a block that flashes nothing itself is copied to another place. -/
def Spreads (result : Unwinding α) : Prop :=
  ∃ flash ∈ result.steps, ∃ block ∈ flashed? result.apertures flash, block.kept ≠ [] ∧
    (∀ inner ∈ block.kept, flashed? result.apertures inner = none) ∧
    ∃ offset ∈ gridOf result.stepRepeats flash,
      Scalar.zero + (flash.coord.x + offset.x) ≠ Scalar.zero + flash.coord.x

instance [DecidableEq α] (result : Unwinding α) : Decidable (Spreads result) := by
  unfold Spreads
  infer_instance

/-- A file whose block D20 flashes once, beside its own flash, and whose main stream repeats a flash
of D20 at a distance of 50 mm. -/
def spreadFlash : List UInt8 :=
  ("%FSLAX36Y36*%\n%MOMM*%\n%ADD10C,0.1*%\n".toList ++
    "%ABD20*%\nD10*\nX1000000Y0D03*\n%AB*%\n".toList ++
    "%SRX2Y1I50J0*%\nD20*\nX10000000Y0D03*\n%SR*%\nM02*\n".toList).map
      fun c => UInt8.ofNat c.toNat

private theorem unwindFile_spreadFlash :
    ((unwindFile ⟨.millimeters, 3, 6⟩ (1e-6 : Float) 64 (Token.ofBytes spreadFlash)).outcome
      .initial).1.toOption.map (fun result : Unwinding Float => decide (Spreads result)) =
      some true := by
  unfold spreadFlash
  repeat rw [String.toList_ofList]
  decide +kernel

private theorem Prepared.exists_shown (h : Prepared format tolerance tokens definitions compiled s)
    (hunwind : (unwind definitions.apertures limit compiled.steps).Yields s out t)
    {inlined : List (Step α)}
    (hinline : (inline definitions.apertures limit compiled.steps).Yields s inlined t)
    (hspreads : Spreads ⟨definitions.apertures, compiled.steps, out, t.stepRepeats⟩) :
    ∃ (flash : Step α) (block : BlockAperture α) (inner : Step α) (id : Nat) (grid : StepRepeat α)
      (run : List (Step α)) (i : Nat), flash ∈ compiled.steps ∧
      Flashes definitions.apertures flash block ∧ inner ∈ block.kept ∧
      flash.stepRepeat = some id ∧ Piece.run id grid run ∈ pieces t.stepRepeats inlined ∧
      run[i]? = some (seen flash flash.coord inner) ∧ ∃ offset ∈ grid.offsets,
        Scalar.zero + (flash.coord.x + offset.x) ≠ Scalar.zero + flash.coord.x := by
  obtain ⟨flash, hmem, block, hblock, hne, hflat, offset, hoffset, hfar⟩ := hspreads
  obtain ⟨inlined', expanded, hinline', hdepth, hround, -, hexpands, -⟩ :=
    h.stages_of_unwind hunwind
  obtain ⟨rfl, -⟩ := hinline.unique hinline'
  have hexpansion := expansion_iterate hdepth
  rw [← hround] at hexpansion
  have hmem : flash ∈ compiled.steps := hmem
  have hflash : Flashes definitions.apertures flash block := flashed?_eq_some_iff.mp hblock
  obtain ⟨inner, rest, hkept⟩ := List.exists_cons_of_ne_nil hne
  have hinner : inner ∈ block.kept := by
    rw [hkept]
    exact List.mem_cons_self
  have hshown : seen flash flash.coord inner ∈ inlined' := by
    apply shows_of_flat hexpansion hmem hflash hflat
    rw [hkept]
    simp [seenAll]
  unfold gridOf at hoffset
  cases hid : flash.stepRepeat with
  | none => simp [hid] at hoffset
  | some id =>
    have hbound : (seen flash flash.coord inner).stepRepeat = some id := by simp [seen, hid]
    obtain ⟨grid, run, i, hrun, hstep⟩ := hexpands.exists_run hshown hbound
    have hget := (hexpands.pieces.2.2 id grid run hrun).get
    simp only [hid, Option.bind_some, hget] at hoffset
    exact ⟨flash, block, inner, id, grid, run, i, hmem, hflash, hinner, hid, hrun, hstep, offset,
      hoffset, hfar⟩

theorem Prepared.origins_of_copies_spreadFlash :
    ∃ (definitions : Definitions Float) (compiled : Compiled Float) (s t : Session Float)
      (out inlined : List (Step Float)) (id : Nat) (grid : StepRepeat Float)
      (run : List (Step Float)) (i : Nat) (step : Step Float) (offset : Vec Float),
      Prepared ⟨.millimeters, 3, 6⟩ 1e-6 (Token.ofBytes spreadFlash) definitions compiled s ∧
      (unwind definitions.apertures 64 compiled.steps).Yields s out t ∧
      out = renumber ((pieces t.stepRepeats inlined).flatMap Piece.expanded) ∧
      Piece.run id grid run ∈ pieces t.stepRepeats inlined ∧ offset ∈ grid.offsets ∧
      run[i]? = some step ∧ ∃ copied, (copy offset Coord.zero run)[i]? = some copied ∧
        copied.origin = step.origin ∧ copied.coord = step.coord.translate offset := by
  obtain ⟨result, t, hyields, hshown⟩ := Run.exists_yields_of_outcome unwindFile_spreadFlash
  obtain ⟨definitions, compiled, s, hprepared, hunwind, hresult⟩ := prepared_of_unwindFile hyields
  have hspreads := of_decide_eq_true hshown
  rw [hresult] at hspreads
  obtain ⟨inlined, hinline, -, hout, -, hcopies⟩ := hprepared.origins_of_copies hunwind
  obtain ⟨flash, block, inner, id, grid, run, i, -, -, -, -, hrun, hstep, offset, hoffset, -⟩ :=
    hprepared.exists_shown hunwind hinline hspreads
  obtain ⟨copied, hcopied⟩ := exists_copied offset Coord.zero hstep
  refine ⟨definitions, compiled, s, t, result.out, inlined, id, grid, run, i, _, offset, hprepared,
    hunwind, hout, hrun, hoffset, hstep, copied, hcopied, ?_⟩
  exact hcopies id grid run hrun offset Coord.zero i _ copied hstep hcopied

/-- Not every origin follows the flash. -/
theorem not_all_followsFlashes :
    ¬ ∀ (format : Format) (tolerance : Float) (limit : Nat) (tokens : List Token)
      (definitions : Definitions Float) (compiled : Compiled Float) (s t : Session Float)
      (out inlined : List (Step Float)),
      Prepared format tolerance tokens definitions compiled s →
        (unwind definitions.apertures limit compiled.steps).Yields s out t →
          (inline definitions.apertures limit compiled.steps).Yields s inlined t →
            ∀ piece ∈ pieces t.stepRepeats inlined,
              FollowsFlashes definitions.apertures compiled.steps piece := by
  intro h
  obtain ⟨result, t, hyields, hshown⟩ := Run.exists_yields_of_outcome unwindFile_spreadFlash
  obtain ⟨definitions, compiled, s, hprepared, hunwind, hresult⟩ := prepared_of_unwindFile hyields
  have hspreads := of_decide_eq_true hshown
  rw [hresult] at hspreads
  obtain ⟨inlined, _, hinline, -⟩ := hprepared.stages_of_unwind hunwind
  obtain ⟨flash, block, inner, id, grid, run, i, hmem, hflash, hinner, hid, hrun, hstep, offset,
    hoffset, hfar⟩ := hprepared.exists_shown hunwind hinline hspreads
  have hfollows := h _ _ _ _ definitions compiled s t result.out inlined hprepared hunwind hinline
    _ hrun
  obtain ⟨copied, hcopied⟩ := exists_copied offset Coord.zero hstep
  have horigin := hfollows flash inner block flash.coord i (.listed hmem) hflash hinner hid hstep
    offset hoffset copied hcopied
  obtain ⟨start, rfl⟩ := getElem?_copy hstep hcopied
  obtain ⟨-, code, -, hblock⟩ := hflash
  have hnative := hprepared.origins.2 code block hblock inner
    (List.mem_of_mem_tail (List.mem_filter.mp hinner).1)
  simp only [seen, hnative] at horigin
  exact hfar (congrArg Vec.x horigin).symm

end Program

end Gerber
