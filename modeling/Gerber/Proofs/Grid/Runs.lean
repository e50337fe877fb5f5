import Gerber.Proofs.Grid

/-!
# Counting bound steps

The steps that are bound to a block are counted over parts of a list, and they stand together in a
list that was compiled.  A list that is laid out in runs of one length has only stretches that are
made of whole runs.
-/

namespace Gerber.Grid

variable {α : Type} {id n : Nat} {steps rest : List (Step α)} {step : Step α}

def bound (id : Nat) (steps : List (Step α)) : Nat := steps.countP (isBound id)

/-- The steps that are bound to a block stand together. -/
def OneRun (id : Nat) (steps : List (Step α)) : Prop :=
  ∃ before run after, steps = before ++ (run ++ after) ∧ (∀ step ∈ run, isBound id step) ∧
    (∀ step ∈ before, ¬ isBound id step) ∧ ∀ step ∈ after, ¬ isBound id step

/-- The list is laid out in runs of the length `n`, with other steps in between. -/
inductive Tiled (id n : Nat) : List (Step α) → Prop
  | nil : Tiled id n []
  | skip {step : Step α} {rest : List (Step α)} :
      ¬ isBound id step → Tiled id n rest → Tiled id n (step :: rest)
  | run {run rest : List (Step α)} :
      (∀ step ∈ run, isBound id step) → run.length = n → Tiled id n rest →
        Tiled id n (run ++ rest)

theorem isBound_iff : isBound id step ↔ step.stepRepeat = some id := by
  simp [isBound]

theorem bound_append : bound id (steps ++ rest) = bound id steps + bound id rest :=
  List.countP_append

theorem bound_cons : bound id (step :: rest) = bound id rest + if isBound id step then 1 else 0 :=
  List.countP_cons

theorem bound_reverse : bound id steps.reverse = bound id steps :=
  List.countP_reverse

theorem bound_eq_length (h : ∀ step ∈ steps, isBound id step) : bound id steps = steps.length :=
  List.countP_eq_length.mpr h

theorem bound_eq_zero (h : ∀ step ∈ steps, ¬ isBound id step) : bound id steps = 0 :=
  List.countP_eq_zero.mpr h

theorem oneRun_of_unbound (h : ∀ step ∈ steps, ¬ isBound id step) : OneRun id steps :=
  ⟨[], [], steps, rfl, by simp, by simp, h⟩

theorem OneRun.cons (h : OneRun id steps) (hstep : ¬ isBound id step) :
    OneRun id (step :: steps) := by
  obtain ⟨before, run, after, rfl, hrun, hbefore, hafter⟩ := h
  exact ⟨step :: before, run, after, rfl, hrun, List.forall_mem_cons.mpr ⟨hstep, hbefore⟩, hafter⟩

theorem OneRun.reverse (h : OneRun id steps) : OneRun id steps.reverse := by
  obtain ⟨before, run, after, rfl, hrun, hbefore, hafter⟩ := h
  refine ⟨after.reverse, run.reverse, before.reverse, by simp, ?_, ?_, ?_⟩
  · exact fun step hmem => hrun step (List.mem_reverse.mp hmem)
  · exact fun step hmem => hafter step (List.mem_reverse.mp hmem)
  · exact fun step hmem => hbefore step (List.mem_reverse.mp hmem)

theorem OneRun.sublist (h : OneRun id steps) (hsub : rest.Sublist steps) : OneRun id rest := by
  obtain ⟨before, run, after, rfl, hrun, hbefore, hafter⟩ := h
  obtain ⟨before', tail, rfl, hfront, htail⟩ := List.sublist_append_iff.mp hsub
  obtain ⟨run', after', rfl, hmid, hback⟩ := List.sublist_append_iff.mp htail
  refine ⟨before', run', after', rfl, ?_, ?_, ?_⟩
  · exact fun step hmem => hrun step (hmid.subset hmem)
  · exact fun step hmem => hbefore step (hfront.subset hmem)
  · exact fun step hmem => hafter step (hback.subset hmem)

theorem OneRun.append_unbound (h : OneRun id steps) (hrest : ∀ step ∈ rest, ¬ isBound id step) :
    OneRun id (steps ++ rest) := by
  obtain ⟨before, run, after, rfl, hrun, hbefore, hafter⟩ := h
  refine ⟨before, run, after ++ rest, by simp, hrun, hbefore, ?_⟩
  exact List.forall_mem_append.mpr ⟨hafter, hrest⟩

theorem OneRun.unbound_append (h : OneRun id rest) (hsteps : ∀ step ∈ steps, ¬ isBound id step) :
    OneRun id (steps ++ rest) := by
  obtain ⟨before, run, after, rfl, hrun, hbefore, hafter⟩ := h
  refine ⟨steps ++ before, run, after, by simp, hrun, ?_, hafter⟩
  exact List.forall_mem_append.mpr ⟨hsteps, hbefore⟩

/-- Only the bindings of the steps matter. -/
theorem OneRun.congr (h : OneRun id steps)
    (hmap : rest.map Step.stepRepeat = steps.map Step.stepRepeat) : OneRun id rest := by
  have hall {l l' : List (Step α)} (hl : l'.map Step.stepRepeat = l.map Step.stepRepeat)
      (p : Option Nat → Prop) (hp : ∀ step ∈ l, p step.stepRepeat) :
      ∀ step ∈ l', p step.stepRepeat := by
    rw [← List.forall_mem_map (P := p)] at hp ⊢
    rwa [hl]
  obtain ⟨before, run, after, rfl, hrun, hbefore, hafter⟩ := h
  rw [List.map_append, List.map_append] at hmap
  obtain ⟨before', tail, rfl, hfront, htail⟩ := List.map_eq_append_iff.mp hmap
  obtain ⟨run', after', rfl, hmid, hback⟩ := List.map_eq_append_iff.mp htail
  simp only [isBound_iff] at hrun hbefore hafter
  refine ⟨before', run', after', rfl, ?_, ?_, ?_⟩
  · simpa only [isBound_iff] using hall hmid (· = some id) hrun
  · simpa only [isBound_iff] using hall hfront (· ≠ some id) hbefore
  · simpa only [isBound_iff] using hall hback (· ≠ some id) hafter

theorem tiled_of_unbound (h : ∀ step ∈ steps, ¬ isBound id step) : Tiled id n steps := by
  induction steps with
  | nil => exact .nil
  | cons step rest ih =>
    obtain ⟨hstep, hrest⟩ := List.forall_mem_cons.mp h
    exact .skip hstep (ih hrest)

theorem Tiled.append (h : Tiled id n steps) (h' : Tiled id n rest) :
    Tiled id n (steps ++ rest) := by
  induction h with
  | nil => exact h'
  | skip hstep _ ih => exact .skip hstep ih
  | run hrun hlength _ ih =>
    rw [List.append_assoc]
    exact .run hrun hlength ih

theorem OneRun.tiled (h : OneRun id steps) : Tiled id (bound id steps) steps := by
  obtain ⟨before, run, after, rfl, hrun, hbefore, hafter⟩ := h
  rw [bound_append, bound_append, bound_eq_zero hbefore, bound_eq_zero hafter, Nat.zero_add,
    Nat.add_zero]
  exact (tiled_of_unbound hbefore).append
    (.run hrun (bound_eq_length hrun).symm (tiled_of_unbound hafter))

theorem OneRun.tiled_of_whole (h : OneRun id steps) (hn : bound id steps = 0 ∨ bound id steps = n) :
    Tiled id n steps := by
  rcases hn with hzero | hrun
  · exact tiled_of_unbound (List.countP_eq_zero.mp hzero)
  · exact hrun ▸ h.tiled

/-- A stretch of a list in runs of one length is made of whole runs. -/
theorem Tiled.dvd_of_stretch {length : Nat} (h : Tiled id n steps)
    (hmem : (id, length) ∈ stretches steps) : n ∣ length := by
  induction h generalizing length with
  | nil => simp [stretches_nil] at hmem
  | @skip step rest hstep hrest ih =>
    cases hnone : step.stepRepeat with
    | none =>
      rw [stretches_cons_none hnone] at hmem
      exact ih hmem
    | some other =>
      have hother : id ≠ other := fun heq => hstep (isBound_iff.mpr (heq ▸ hnone))
      rw [stretches_of_head (isBound_iff.mpr hnone),
        List.dropWhile_cons_of_pos (isBound_iff.mpr hnone)] at hmem
      have hrest := (List.mem_cons.mp hmem).resolve_left fun heq => hother (congrArg Prod.fst heq)
      rcases stretches_split other rest with hsplit | ⟨-, hdrop⟩
      · exact ih (hsplit ▸ List.mem_cons_of_mem _ hrest)
      · exact ih (hdrop ▸ hrest)
  | @run run rest hrun hlength hrest ih =>
    by_cases hne : run = []
    · exact ih (by rwa [hne, List.nil_append] at hmem)
    rw [stretches_append hne hrun, hlength] at hmem
    rcases stretches_split id rest with hsplit | ⟨htake, hdrop⟩
    · rw [hsplit] at ih
      rcases List.mem_cons.mp hmem with heq | hmem
      · cases heq
        exact Nat.dvd_add (Nat.dvd_refl n) (ih List.mem_cons_self)
      · exact ih (List.mem_cons_of_mem _ hmem)
    · rw [htake, hdrop] at hmem
      rcases List.mem_cons.mp hmem with heq | hmem
      · cases heq
        exact Nat.dvd_refl n
      · exact ih hmem

/-- A block with a stretch in a list has steps that are bound to it there. -/
theorem bound_pos_of_stretch {length : Nat} (hmem : (id, length) ∈ stretches steps) :
    0 < bound id steps := by
  induction steps using stretches.induct with
  | case1 => simp [stretches_nil] at hmem
  | case2 step rest hnone ih =>
    rw [stretches_cons_none hnone] at hmem
    rw [bound_cons]
    exact Nat.add_pos_left (ih hmem) _
  | case3 step rest other hsome ih =>
    have hstep : isBound other step := isBound_iff.mpr hsome
    rw [stretches_of_head hstep, List.dropWhile_cons_of_pos hstep] at hmem
    rw [bound_cons]
    rcases List.mem_cons.mp hmem with heq | hmem
    · cases heq
      rw [if_pos hstep]
      exact Nat.succ_pos _
    · have hrest : (rest.dropWhile (isBound other)).Sublist rest := List.dropWhile_sublist _
      exact Nat.add_pos_left (Nat.lt_of_lt_of_le (ih hmem) hrest.countP_le) _

end Gerber.Grid
