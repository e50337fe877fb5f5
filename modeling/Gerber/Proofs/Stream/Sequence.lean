import Gerber.Proofs.Grid.Runs
import Gerber.Proofs.Inlining.Expansion
import Gerber.Proofs.Stream.Counts
import Gerber.Proofs.Stream.Frame
import Gerber.Proofs.Stream.Reading
import Gerber.Proofs.Stream.References

/-!
# Streams of one file

The streams of a file are compiled one after the other over the same books.  Each of them opens
step-and-repeat blocks of its own, leaves those of the others alone, and keeps the steps of each of
its blocks together.
-/

namespace Gerber

open Grid Inlining

variable {α : Type} [Scalar α]

/-- A stream that compiles, with the sessions before and after it. -/
structure Compilation (α : Type) [Scalar α] where
  setting : Setting α
  tokens : List Token
  before : Session α
  compiled : Compiled α
  after : Session α
  yields : (Stream.compile setting tokens).Yields before compiled after

def Compilation.steps (c : Compilation α) : List (Step α) := c.compiled.steps

/-- Streams that are compiled one after the other.  Nothing but notices may come in between. -/
inductive Consecutive : Session α → List (Compilation α) → Session α → Prop
  | nil {s t : Session α} : s.SameBooks t → Consecutive s [] t
  | cons {s t : Session α} {c : Compilation α} {rest : List (Compilation α)} :
      s.SameBooks c.before → Consecutive c.after rest t → Consecutive s (c :: rest) t

/-- Compiles streams one after the other. -/
def Stream.compileEach : List (Setting α × List Token) → Run α (List (Compiled α))
  | [] => pure []
  | (setting, tokens) :: rest => do
    let compiled ← compile setting tokens
    let others ← compileEach rest
    pure (compiled :: others)

namespace Consecutive

variable {s t : Session α} {streams front back : List (Compilation α)} {c : Compilation α}

theorem of_compileEach {sources : List (Setting α × List Token)} {compiled : List (Compiled α)}
    (h : (Stream.compileEach sources).Yields s compiled t) :
    ∃ streams : List (Compilation α), Consecutive s streams t ∧
      streams.map (fun c => (c.setting, c.tokens)) = sources ∧
      streams.map Compilation.compiled = compiled := by
  induction sources generalizing s compiled with
  | nil =>
    obtain ⟨rfl, rfl⟩ := Run.yields_pure.mp h
    exact ⟨[], .nil (.refl _), rfl, rfl⟩
  | cons source rest ih =>
    simp only [Stream.compileEach, Run.yields_bind, Run.yields_pure] at h
    obtain ⟨first, u, hfirst, others, v, hothers, rfl, rfl⟩ := h
    obtain ⟨streams, hstreams, hsources, hcompiled⟩ := ih hothers
    refine ⟨⟨source.1, source.2, s, first, u, hfirst⟩ :: streams, .cons (.refl s) hstreams, ?_, ?_⟩
    · simp [hsources]
    · simp [hcompiled]

/-- The streams before one and those after it are consecutive on their own. -/
theorem split (h : Consecutive s (front ++ c :: back) t) :
    Consecutive s front c.before ∧ Consecutive c.after back t := by
  induction front generalizing s with
  | nil =>
    cases h with
    | cons hs hrest => exact ⟨.nil hs, hrest⟩
  | cons first front ih =>
    cases h with
    | cons hs hrest =>
      have hparts := ih hrest
      exact ⟨.cons hs hparts.1, hparts.2⟩

theorem grows (h : Consecutive s streams t) : s.Grows t := by
  induction h with
  | nil hs => exact hs.grows
  | @cons s t c rest hs _ ih =>
    have hown := (Stream.refers_of_compile c.yields).1
    exact hs.grows.trans (hown.trans ih)

/-- Later streams leave the blocks alone that are there. -/
theorem isPrefix (h : Consecutive s streams t) :
    s.stepRepeats.blocks <+: t.stepRepeats.blocks := by
  induction h with
  | nil hs => exact hs.2 ▸ List.prefix_rfl
  | @cons s t c rest hs _ ih =>
    have hown := (Stream.counted_of_compile c.yields).old
    rw [hs.2] at hown
    exact hown.trans ih

private theorem get?_of_opened (h : Consecutive c.after back t) {id : Nat}
    (hid : c.before.Opened c.after id) :
    ∃ block, t.stepRepeats.get? id = some block ∧ block.steps = bound id c.steps := by
  obtain ⟨block, hget⟩ := StepRepeats.exists_get? hid.2
  have hcount := (Stream.counted_of_compile c.yields).count id block hid.1 hget
  obtain ⟨more, hmore⟩ := h.isPrefix
  refine ⟨block, ?_, hcount.1⟩
  rw [StepRepeats.get?, ← hmore, List.getElem?_append_left hid.2]
  exact hget

private theorem not_bound_of_opened (h : Consecutive s (front ++ c :: back) t) {id : Nat}
    (hid : c.before.Opened c.after id) {other : Compilation α} (hother : other ∈ front ++ back) :
    ∀ step ∈ other.steps, ¬ isBound id step := by
  intro step hstep hbound
  have hopened := (Stream.counted_of_compile other.yields).opened step hstep id
    (isBound_iff.mp hbound)
  have hparts := h.split
  rcases List.mem_append.mp hother with hmem | hmem
  · -- what an earlier stream opens lies before the blocks of this one
    obtain ⟨before, between, rfl⟩ := List.append_of_mem hmem
    have hlater := hparts.1.split.2.grows.stepRepeats
    exact absurd hopened.2 (by have := hid.1; omega)
  · obtain ⟨between, after, rfl⟩ := List.append_of_mem hmem
    have hlater := hparts.2.split.1.grows.stepRepeats
    exact absurd hopened.1 (by have := hid.2; omega)

private theorem whole_of_stretch (h : Consecutive c.after back t) :
    ∀ stretch ∈ stretches c.steps, Whole t.stepRepeats stretch.1 stretch.2 := by
  intro stretch hmem
  have hcounted := Stream.counted_of_compile c.yields
  have hpos : 0 < bound stretch.1 c.steps := bound_pos_of_stretch hmem
  obtain ⟨step, hstep, hbound⟩ := List.countP_pos_iff.mp hpos
  have hopened := hcounted.opened step hstep stretch.1 (isBound_iff.mp hbound)
  obtain ⟨block, hget, hcount⟩ := h.get?_of_opened hopened
  refine ⟨block, hget, by rwa [hcount], ?_⟩
  rw [hcount]
  exact (hcounted.oneRun stretch.1).tiled.dvd_of_stretch hmem

/-- Of streams that are compiled one after the other, each keeps the steps of a block that it opens
together, and the block counts them; no other stream has steps of the block, and no stop has a
block.  A stream without block flashes passes through inlining unchanged and can be expanded. -/
theorem counted_runs (h : Consecutive s streams t) (hsplit : streams = front ++ c :: back) :
    (∀ id, c.before.Opened c.after id →
      (∃ before run after block, c.steps = before ++ (run ++ after) ∧
        (∀ step ∈ run, step.stepRepeat = some id) ∧
        (∀ step ∈ before ++ after, step.stepRepeat ≠ some id) ∧
        t.stepRepeats.get? id = some block ∧ block.steps = run.length) ∧
      ∀ other ∈ front ++ back, ∀ step ∈ other.steps, step.stepRepeat ≠ some id) ∧
    (∀ step ∈ c.steps, step.action = .stop → step.stepRepeat = none) ∧
    ∀ apertures : Apertures α, (∀ step ∈ c.steps, ∀ block, ¬ Flashes apertures step block) →
      ∀ limit, (inline apertures limit c.steps).Yields t c.steps t ∧
        ∃ out, expand t.stepRepeats c.steps = .ok out := by
  subst hsplit
  have hlater := h.split.2
  refine ⟨?_, (Stream.framed_of_compile c.yields).stepRepeat_of_stop, ?_⟩
  · intro id hid
    obtain ⟨block, hget, hcount⟩ := hlater.get?_of_opened hid
    obtain ⟨before, run, after, hsteps, hrun, hbefore, hafter⟩ :=
      (Stream.counted_of_compile c.yields).oneRun id
    have hlength : bound id c.steps = run.length := by
      rw [Compilation.steps, hsteps, bound_append, bound_append, bound_eq_zero hbefore,
        bound_eq_zero hafter, bound_eq_length hrun, Nat.zero_add, Nat.add_zero]
    simp only [isBound_iff] at hrun hbefore hafter
    constructor
    · refine ⟨before, run, after, block, hsteps, hrun, ?_, hget, hcount.trans hlength⟩
      exact List.forall_mem_append.mpr ⟨hbefore, hafter⟩
    · intro other hother step hstep
      have hnot := h.not_bound_of_opened hid hother step hstep
      rwa [isBound_iff] at hnot
  · intro apertures hflash limit
    have hnone : ∀ step ∈ c.steps, flashed? apertures step = none := by
      intro step hmem
      exact flashed?_eq_none_iff.mpr (hflash step hmem)
    constructor
    · exact passes_of_no_flash (flashCount_eq_zero_iff.mpr hnone) limit limit t
    · exact expand_eq_ok_iff.mpr hlater.whole_of_stretch

/-- A stream with one run of two steps, and one whose second block is open and empty at its stop. -/
def twoStreams : List (Setting Float × List Token) :=
  [(Stream.plainSetting, [⟨"%SRX2Y1I5J0*%".toList, 1⟩, ⟨"X10D03*".toList, 2⟩,
      ⟨"X20D03*".toList, 3⟩, ⟨"%SR*%".toList, 4⟩, ⟨"X30D02*".toList, 5⟩]),
    (Stream.plainSetting, [⟨"%SRX1Y3I0J5*%".toList, 6⟩, ⟨"X40D01*".toList, 7⟩,
      ⟨"%SRX2Y2I1J1*%".toList, 8⟩, ⟨"M02*".toList, 9⟩])]

theorem counted_runs_twoStreams :
    ∃ (first second : Compilation Float) (t : Session Float),
      Consecutive .initial [first, second] t ∧
      first.steps.map Step.stepRepeat = [none, some 0, some 0, none] ∧
      second.steps.map Step.stepRepeat = [none, some 1, none] ∧
      first.before.Opened first.after 0 ∧
      ((∃ before run after block, first.steps = before ++ (run ++ after) ∧
        (∀ step ∈ run, step.stepRepeat = some 0) ∧
        (∀ step ∈ before ++ after, step.stepRepeat ≠ some 0) ∧
        t.stepRepeats.get? 0 = some block ∧ block.steps = run.length) ∧
      ∀ step ∈ second.steps, step.stepRepeat ≠ some 0) := by
  have hbindings : ((Stream.compileEach twoStreams).outcome .initial).1.toOption.map
      (fun compiled => compiled.map fun c => c.steps.map Step.stepRepeat) =
        some [[none, some 0, some 0, none], [none, some 1, none]] := by
    decide +kernel
  obtain ⟨compiled, t, hyields, hshown⟩ := Run.exists_yields_of_outcome hbindings
  obtain ⟨streams, hstreams, hsources, rfl⟩ := of_compileEach hyields
  have hlength : streams.length = 2 := by
    have h := congrArg List.length hsources
    simpa [twoStreams] using h
  obtain ⟨first, second, rfl⟩ := List.length_eq_two.mp hlength
  simp only [List.map_cons, List.map_nil, List.cons.injEq, and_true] at hshown
  have hmem : some 0 ∈ first.steps.map Step.stepRepeat := by
    simp [Compilation.steps, hshown.1]
  obtain ⟨step, hstep, hbound⟩ := List.mem_map.mp hmem
  have hopened := (Stream.counted_of_compile first.yields).opened step hstep 0 hbound
  have hruns := (hstreams.counted_runs (List.nil_append [first, second]).symm).1 0 hopened
  refine ⟨first, second, t, hstreams, hshown.1, hshown.2, hopened, hruns.1, ?_⟩
  exact hruns.2 second (List.mem_singleton_self second)

end Consecutive

end Gerber
