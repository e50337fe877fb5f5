import Gerber.Proofs.Inlining.Counts
import Mathlib.Tactic.LinearCombination

/-!
# What the counts come to

A list of steps, or a block, holds a whole run of a step-and-repeat block or no step of it.  A flash
that is bound to nothing brings up a copy of the run that its block holds.  All copies share one
count.  At every moment of inlining it is the number of the steps bound to the block, less the
length of the first run for every copy but one.
-/

namespace Gerber.Inlining

open Grid

variable {α : Type}

/-- The step is a flash that brings up a run of the block with the index `id`. -/
def bringsUp (apertures : Apertures α) (id : Nat) (step : Step α) : Bool :=
  step.stepRepeat.isNone &&
    (flashed? apertures step).any fun block => 0 < bound id block.kept

/-- Each block of the table holds a whole run of `n` steps or no step of it. -/
def Holds (apertures : Apertures α) (id n : Nat) : Prop :=
  ∀ code block, apertures.block? code = some block →
    bound id block.kept = 0 ∨ bound id block.kept = n

variable [Scalar α]

/-- The number of copies of a run after a number of passes. -/
def runs (apertures : Apertures α) (id : Nat) (steps : List (Step α)) : Nat → Nat
  | 0 => if bound id steps = 0 then 0 else 1
  | k + 1 =>
    runs apertures id steps k + ((round apertures)^[k] steps).countP (bringsUp apertures id)

/-- What the count of a block comes to in pass number `k`, counted from zero, when the steps
`before` are replaced and the steps `after` are still to come; `n` is the length of its run. -/
def tally (apertures : Apertures α) (id n : Nat) (steps : List (Step α)) (k : Nat)
    (before after : List (Step α)) : Int :=
  bound id (round apertures before ++ after) -
    (runs apertures id steps k + before.countP (bringsUp apertures id) - 1) * n

variable {apertures : Apertures α} {id n : Nat} {steps rest : List (Step α)} {step : Step α}
  {block : BlockAperture α}

omit [Scalar α] in
theorem bringsUp_iff :
    bringsUp apertures id step ↔ step.stepRepeat = none ∧
      ∃ block, flashed? apertures step = some block ∧ 0 < bound id block.kept := by
  simp [bringsUp, Option.any_eq_true]

private theorem map_stepRepeat_seenAll (flash : Step α) (inner : List (Step α)) :
    (seenAll flash inner).map Step.stepRepeat =
      inner.map fun step => flash.stepRepeat.or step.stepRepeat := by
  have hplaced (prev : Coord α) : (placed flash prev inner).map Step.stepRepeat =
      inner.map fun step => flash.stepRepeat.or step.stepRepeat := by
    induction inner generalizing prev with
    | nil => rfl
    | cons step rest ih => rw [placed, List.map_cons, ih, List.map_cons]
  rw [← hplaced flash.coord, placed_eq_zipWith]
  rfl

omit [Scalar α] in
private theorem bound_eq_countP_map :
    bound id steps = (steps.map Step.stepRepeat).countP fun binding => binding = some id := by
  rw [List.countP_map]
  rfl

/-- A flash that is bound to nothing shows the bindings of its block. -/
theorem bound_seenAll_of_unbound (h : step.stepRepeat = none) (inner : List (Step α)) :
    bound id (seenAll step inner) = bound id inner := by
  simp only [bound_eq_countP_map, map_stepRepeat_seenAll, h, Option.none_or]

private theorem isBound_of_mem_replace (h : step.stepRepeat.isSome) {shown : Step α}
    (hmem : shown ∈ replace apertures step) : isBound id shown ↔ isBound id step := by
  rw [isBound_iff, isBound_iff]
  cases hf : flashed? apertures step with
  | none =>
    rw [replace_of_none hf, List.mem_singleton] at hmem
    rw [hmem]
  | some block =>
    rw [replace_of_some hf] at hmem
    obtain ⟨inner, -, p, rfl⟩ := mem_seenAll hmem
    obtain ⟨k, hk⟩ := Option.isSome_iff_exists.mp h
    rw [seen, hk, Option.some_or]

private theorem length_replace (h : flashed? apertures step = some block) :
    (replace apertures step).length = block.kept.length := by
  rw [replace_of_some h, length_seenAll]

/-- What is not bound and brings up no run shows nothing that is bound. -/
theorem unbound_replace (h : ¬ isBound id step) (hbrings : ¬ bringsUp apertures id step) :
    ∀ shown ∈ replace apertures step, ¬ isBound id shown := by
  intro shown hmem
  cases hstep : step.stepRepeat with
  | some k => rwa [isBound_of_mem_replace (by rw [hstep]; rfl) hmem]
  | none =>
    cases hf : flashed? apertures step with
    | none =>
      rw [replace_of_none hf, List.mem_singleton] at hmem
      rwa [hmem]
    | some block =>
      have hzero : bound id (seenAll step block.kept) = 0 := by
        rw [bound_seenAll_of_unbound hstep]
        simpa [bringsUp, hstep, hf] using hbrings
      rw [replace_of_some hf] at hmem
      exact List.countP_eq_zero.mp hzero shown hmem

private theorem bound_replace (hblocks : Holds apertures id n) (step : Step α) :
    (bound id (replace apertures step) : Int) =
      bound id [step] + growth apertures id step +
        n * [step].countP (bringsUp apertures id) := by
  have hone : [step].countP (bringsUp apertures id) = if bringsUp apertures id step then 1 else 0 :=
    List.countP_singleton
  have hself : bound id [step] = if isBound id step then 1 else 0 := List.countP_singleton
  by_cases hbrings : bringsUp apertures id step
  · obtain ⟨hstep, block, hf, hpos⟩ := bringsUp_iff.mp hbrings
    have hunbound : ¬ isBound id step := by simp [isBound, hstep]
    obtain ⟨-, code, -, hblock⟩ := flashed?_eq_some_iff.mp hf
    have hrun : bound id block.kept = n := (hblocks code block hblock).resolve_left hpos.ne'
    rw [replace_of_some hf, bound_seenAll_of_unbound hstep, hrun, hself, hone, if_neg hunbound,
      if_pos hbrings, growth_of_unbound hstep]
    simp
  rw [hself, hone, if_neg hbrings]
  by_cases hbound : isBound id step
  · have hall : ∀ shown ∈ replace apertures step, isBound id shown := by
      have hsome : step.stepRepeat.isSome := by rw [isBound_iff.mp hbound]; rfl
      exact fun shown hmem => (isBound_of_mem_replace hsome hmem).mpr hbound
    rw [bound_eq_length hall, if_pos hbound]
    cases hf : flashed? apertures step with
    | none => simp [replace_of_none hf, growth_of_none hf]
    | some block =>
      rw [length_replace hf, growth_of_some hf, if_pos hbound]
      omega
  · rw [bound_eq_zero (unbound_replace hbound hbrings), growth_of_not_bound hbound, if_neg hbound]
    simp

private theorem bound_round (hblocks : Holds apertures id n) (steps : List (Step α)) :
    (bound id (round apertures steps) : Int) =
      bound id steps + grown apertures id steps + n * steps.countP (bringsUp apertures id) := by
  induction steps with
  | nil => simp [round, bound, grown]
  | cons step rest ih =>
    have hsplit : ([step] ++ rest).countP (bringsUp apertures id) =
        [step].countP (bringsUp apertures id) + rest.countP (bringsUp apertures id) :=
      List.countP_append
    have hbound : bound id ([step] ++ rest) = bound id [step] + bound id rest := bound_append
    rw [List.singleton_append] at hsplit hbound
    rw [round_cons, bound_append, hsplit, hbound, grown_cons]
    push_cast
    linear_combination bound_replace hblocks step + ih

/-- The count of a block at every moment of inlining. -/
theorem count_eq_tally (hblocks : Holds apertures id n)
    (hsteps : bound id steps = 0 ∨ bound id steps = n) {k : Nat} {before after : List (Step α)}
    (hsplit : (round apertures)^[k] steps = before ++ after) :
    n + (grownBy apertures id steps k + grown apertures id before) =
      tally apertures id n steps k before after := by
  -- first at the start of each pass; `bound_round` for `before` then carries it into the pass
  have hpasses (k : Nat) : n + grownBy apertures id steps k =
      bound id ((round apertures)^[k] steps) - (runs apertures id steps k - 1) * n := by
    induction k with
    | zero =>
      rw [runs, grownBy, Function.iterate_zero_apply]
      rcases hsteps with hzero | hrun
      · simp [hzero]
      · by_cases hn : n = 0
        · simp [hrun, hn]
        · simp [hrun, hn]
    | succ k ih =>
      rw [runs, grownBy, Function.iterate_succ_apply']
      push_cast
      linear_combination ih - bound_round hblocks ((round apertures)^[k] steps)
  have hall := hpasses k
  rw [hsplit, bound_append] at hall
  unfold tally
  rw [bound_append]
  push_cast at hall ⊢
  linear_combination hall - bound_round hblocks before

/-- A count goes out of its range while steps are inlined. -/
def LeavesRange (apertures : Apertures α) (limit : Nat) (steps : List (Step α)) (id n : Nat) :
    Prop :=
  ∃ k ≤ limit, ∃ before after, (round apertures)^[k] steps = before ++ after ∧
    (tally apertures id n steps k before after < 0 ∨
      StepRepeats.countLimit ≤ tally apertures id n steps k before after)

/-- Inlining settles, and leaves a stretch of a block that is not made of whole runs: its length
is no multiple of what the count came to, or the count came to nothing. -/
def Uneven (apertures : Apertures α) (limit : Nat) (steps : List (Step α)) (id n : Nat) : Prop :=
  DepthAtMost apertures limit steps ∧ ∃ out length, Expansion apertures steps out ∧
    (id, length) ∈ stretches out ∧
    ¬ (0 < tally apertures id n steps limit [] out ∧
      tally apertures id n steps limit [] out ∣ (length : Int))

/-- Each block of the table holds the steps of a run together. -/
def HoldsTogether (apertures : Apertures α) (id : Nat) : Prop :=
  ∀ code block, apertures.block? code = some block → OneRun id block.kept

theorem runs_mono {j k : Nat} (h : j ≤ k) :
    runs apertures id steps j ≤ runs apertures id steps k := by
  induction h with
  | refl => exact Nat.le_refl _
  | step _ ih => exact Nat.le_trans ih (Nat.le_add_right _ _)

private theorem not_bound_round (h : ∀ step ∈ steps, ¬ isBound id step)
    (hbrings : steps.countP (bringsUp apertures id) = 0) :
    ∀ shown ∈ round apertures steps, ¬ isBound id shown := by
  intro shown hmem
  obtain ⟨origin, horigin, hshown⟩ := mem_round_iff.mp hmem
  exact unbound_replace (h origin horigin) (List.countP_eq_zero.mp hbrings origin horigin) shown
    hshown

private theorem all_bound_round (h : ∀ step ∈ steps, isBound id step) :
    ∀ shown ∈ round apertures steps, isBound id shown := by
  intro shown hmem
  obtain ⟨origin, horigin, hshown⟩ := mem_round_iff.mp hmem
  have hbound := h origin horigin
  have hsome : origin.stepRepeat.isSome := by rw [isBound_iff.mp hbound]; rfl
  exact (isBound_of_mem_replace hsome hshown).mpr hbound

private theorem oneRun_round (h : OneRun id steps)
    (hbrings : steps.countP (bringsUp apertures id) = 0) : OneRun id (round apertures steps) := by
  obtain ⟨before, run, after, rfl, hrun, hbefore, hafter⟩ := h
  simp only [List.countP_append, Nat.add_eq_zero_iff] at hbrings
  obtain ⟨hfront, -, hback⟩ := hbrings
  refine ⟨round apertures before, round apertures run, round apertures after, ?_,
    all_bound_round hrun, not_bound_round hbefore hfront, not_bound_round hafter hback⟩
  rw [round_append, round_append]

theorem oneRun_replace (ht : HoldsTogether apertures id) (hbrings : bringsUp apertures id step) :
    OneRun id (replace apertures step) := by
  obtain ⟨hstep, block, hf, -⟩ := bringsUp_iff.mp hbrings
  obtain ⟨-, code, -, hblock⟩ := flashed?_eq_some_iff.mp hf
  rw [replace_of_some hf]
  refine (ht code block hblock).congr ?_
  rw [map_stepRepeat_seenAll]
  simp only [hstep, Option.none_or]

private theorem oneRun_round_of_unbound (ht : HoldsTogether apertures id)
    (h : ∀ step ∈ steps, ¬ isBound id step) (hbrings : steps.countP (bringsUp apertures id) ≤ 1) :
    OneRun id (round apertures steps) := by
  induction steps with
  | nil => exact oneRun_of_unbound (List.forall_mem_nil _)
  | cons step rest ih =>
    obtain ⟨hstep, hrest⟩ := List.forall_mem_cons.mp h
    rw [List.countP_cons] at hbrings
    rw [round_cons]
    by_cases hb : bringsUp apertures id step
    · rw [if_pos hb] at hbrings
      exact (oneRun_replace ht hb).append_unbound (not_bound_round hrest (by omega))
    · rw [if_neg hb] at hbrings
      exact (ih hrest hbrings).unbound_append (unbound_replace hstep hb)

/-- As long as there is at most one copy of a run, it stays together. -/
private theorem oneRun_passes (ht : HoldsTogether apertures id) (hsteps : OneRun id steps) {k : Nat}
    (hk : runs apertures id steps k ≤ 1) :
    OneRun id ((round apertures)^[k] steps) ∧
      (runs apertures id steps k = 0 →
        ∀ step ∈ (round apertures)^[k] steps, ¬ isBound id step) := by
  induction k with
  | zero =>
    refine ⟨hsteps, fun hzero => ?_⟩
    rw [runs] at hzero
    split at hzero
    · rename_i hbound
      exact List.countP_eq_zero.mp hbound
    · cases hzero
  | succ k ih =>
    rw [runs] at hk ⊢
    rw [Function.iterate_succ_apply']
    obtain ⟨hrun, hnone⟩ := ih (by omega)
    constructor
    · by_cases hzero : runs apertures id steps k = 0
      · exact oneRun_round_of_unbound ht (hnone hzero) (by omega)
      · exact oneRun_round hrun (by omega)
    · intro hzero
      exact not_bound_round (hnone (by omega)) (by omega)

/-- The one copy of a run is even, however it grew. -/
theorem not_uneven_of_one_copy (ht : HoldsTogether apertures id) (hsteps : OneRun id steps)
    {limit : Nat} (hk : runs apertures id steps limit ≤ 1) :
    ¬ Uneven apertures limit steps id n := by
  rintro ⟨hd, out, length, hout, hmem, huneven⟩
  obtain rfl := hout.unique (expansion_iterate hd)
  obtain ⟨hrun, hnone⟩ := oneRun_passes ht hsteps hk
  have hpos := bound_pos_of_stretch hmem
  have hone : runs apertures id steps limit = 1 := by
    by_contra hne
    have hzero := bound_eq_zero (hnone (by omega))
    omega
  have htally : tally apertures id n steps limit [] ((round apertures)^[limit] steps) =
      bound id ((round apertures)^[limit] steps) := by
    simp [tally, hone, round]
  rw [htally] at huneven
  exact huneven ⟨by omega, Int.natCast_dvd_natCast.mpr (hrun.tiled.dvd_of_stretch hmem)⟩

private theorem tally_of_one_copy (ht : HoldsTogether apertures id) (hsteps : OneRun id steps)
    {limit k : Nat} (hk : k ≤ limit) (hone : runs apertures id steps (limit + 1) ≤ 1)
    {before after : List (Step α)} (hsplit : (round apertures)^[k] steps = before ++ after) :
    tally apertures id n steps k before after = n ∨
      tally apertures id n steps k before after = bound id (round apertures before ++ after) := by
  have hle := Nat.le_trans (runs_mono (Nat.succ_le_succ hk)) hone
  rw [runs, hsplit, List.countP_append] at hle
  unfold tally
  by_cases hzero : runs apertures id steps k + before.countP (bringsUp apertures id) = 0
  · -- no copy has come up yet
    obtain ⟨hruns, hbrings⟩ := Nat.add_eq_zero_iff.mp hzero
    have hnone := (oneRun_passes ht hsteps (by omega)).2 hruns
    rw [hsplit, List.forall_mem_append] at hnone
    have hbound : bound id (round apertures before ++ after) = 0 :=
      bound_eq_zero (List.forall_mem_append.mpr ⟨not_bound_round hnone.1 hbrings, hnone.2⟩)
    refine .inl ?_
    rw [hbound, hruns, hbrings]
    simp
  · refine .inr ?_
    have hcopies :
        (runs apertures id steps k + before.countP (bringsUp apertures id) : Int) = 1 := by
      omega
    rw [hcopies]
    simp

theorem not_leavesRange_of_one_copy (ht : HoldsTogether apertures id) (hsteps : OneRun id steps)
    {limit : Nat} (hone : runs apertures id steps (limit + 1) ≤ 1)
    (hn : n < StepRepeats.countLimit) (hlength : ∀ k ≤ limit, ∀ before after,
      (round apertures)^[k] steps = before ++ after →
        (round apertures before ++ after).length < StepRepeats.countLimit) :
    ¬ LeavesRange apertures limit steps id n := by
  rintro ⟨k, hk, before, after, hsplit, hleaves⟩
  have hbound : bound id (round apertures before ++ after) < StepRepeats.countLimit :=
    Nat.lt_of_le_of_lt List.countP_le_length (hlength k hk before after hsplit)
  rcases tally_of_one_copy (n := n) ht hsteps hk hone hsplit with htally | htally
  · omega
  · omega

/-- In the passes up to number `k`, counted from zero, each flash that is bound to a block gives way
to one step. -/
def Steady (apertures : Apertures α) (id : Nat) (steps : List (Step α)) (k : Nat) : Prop :=
  ∀ j ≤ k, ∀ step ∈ (round apertures)^[j] steps, growth apertures id step = 0

theorem grownBy_of_steady {k j : Nat} (h : Steady apertures id steps k) (hj : j ≤ k + 1) :
    grownBy apertures id steps j = 0 := by
  induction j with
  | zero => rfl
  | succ j ih => rw [grownBy, ih (by omega), grown_of_no_growth (h j (by omega)), Int.add_zero]

private theorem tally_of_steady (hblocks : Holds apertures id n)
    (hsteps : bound id steps = 0 ∨ bound id steps = n) {k j : Nat}
    (h : Steady apertures id steps k) (hj : j ≤ k) {before after : List (Step α)}
    (hsplit : (round apertures)^[j] steps = before ++ after) :
    tally apertures id n steps j before after = n := by
  have hgrown : grown apertures id before = 0 :=
    grown_of_no_growth fun step hmem => h j hj step (hsplit ▸ List.mem_append_left after hmem)
  rw [← count_eq_tally hblocks hsteps hsplit, grownBy_of_steady h (Nat.le_succ_of_le hj), hgrown,
    Int.add_zero, Int.add_zero]

private theorem tiled_replace (hblocks : Holds apertures id n) (ht : HoldsTogether apertures id)
    (hstep : ¬ isBound id step) : Tiled id n (replace apertures step) := by
  by_cases hbrings : bringsUp apertures id step
  · have hcount := bound_replace hblocks step
    obtain ⟨hnone, -⟩ := bringsUp_iff.mp hbrings
    have hself : bound id [step] = 0 := bound_eq_zero (by simpa using hstep)
    rw [hself, growth_of_unbound hnone, List.countP_singleton, if_pos hbrings] at hcount
    have hn : bound id (replace apertures step) = n := by omega
    exact hn ▸ (oneRun_replace ht hbrings).tiled
  · exact tiled_of_unbound (unbound_replace hstep hbrings)

private theorem tiled_round (hblocks : Holds apertures id n) (ht : HoldsTogether apertures id)
    (h : Tiled id n steps) (hsteady : ∀ step ∈ steps, growth apertures id step = 0) :
    Tiled id n (round apertures steps) := by
  induction h with
  | nil => exact .nil
  | skip hstep _ ih =>
    rw [round_cons]
    exact (tiled_replace hblocks ht hstep).append (ih (List.forall_mem_cons.mp hsteady).2)
  | @run run rest hrun hlength _ ih =>
    obtain ⟨hsame, hrest⟩ := List.forall_mem_append.mp hsteady
    rw [round_append]
    refine .run (all_bound_round hrun) ?_ (ih hrest)
    have hcount := bound_round hblocks run
    have hbrings : run.countP (bringsUp apertures id) = 0 := by
      refine List.countP_eq_zero.mpr fun step hmem hb => ?_
      have hbound := isBound_iff.mp (hrun step hmem)
      rw [(bringsUp_iff.mp hb).1] at hbound
      cases hbound
    rw [bound_eq_length (all_bound_round hrun), bound_eq_length hrun, grown_of_no_growth hsame,
      hbrings, hlength] at hcount
    omega

theorem not_leavesRange_of_steady (hblocks : Holds apertures id n)
    (hsteps : bound id steps = 0 ∨ bound id steps = n) (hn : n < StepRepeats.countLimit)
    {limit : Nat} (h : Steady apertures id steps limit) :
    ¬ LeavesRange apertures limit steps id n := by
  rintro ⟨k, hk, before, after, hsplit, hleaves⟩
  rw [tally_of_steady hblocks hsteps h hk hsplit] at hleaves
  omega

/-- Steady copies are even, however many there are. -/
theorem not_uneven_of_steady (hblocks : Holds apertures id n) (ht : HoldsTogether apertures id)
    (hsteps : bound id steps = 0 ∨ bound id steps = n) (hrun : OneRun id steps) {limit : Nat}
    (h : Steady apertures id steps limit) : ¬ Uneven apertures limit steps id n := by
  rintro ⟨hd, out, length, hout, hmem, huneven⟩
  obtain rfl := hout.unique (expansion_iterate hd)
  have hpasses (k : Nat) (hk : k ≤ limit) : Tiled id n ((round apertures)^[k] steps) := by
    induction k with
    | zero => exact hrun.tiled_of_whole hsteps
    | succ k ih =>
      rw [Function.iterate_succ_apply']
      exact tiled_round hblocks ht (ih (by omega)) (h k (by omega))
  have htiled := hpasses limit (Nat.le_refl limit)
  have htally := tally_of_steady hblocks hsteps h (Nat.le_refl limit)
    (List.nil_append ((round apertures)^[limit] steps)).symm
  have hn : 0 < n := by
    refine Nat.pos_of_ne_zero fun hzero => ?_
    have hpos := bound_pos_of_stretch hmem
    simp only [tally, hzero, round, List.flatMap_nil, List.nil_append] at htally
    omega
  rw [htally] at huneven
  exact huneven ⟨by omega, Int.natCast_dvd_natCast.mpr (htiled.dvd_of_stretch hmem)⟩

end Gerber.Inlining
