import Gerber.Grid
import Gerber.Proofs.Except

/-!
# Runs and their copies

Expansion walks over the stretches of steps that are bound to one step-and-repeat block.  It goes
through if and only if every stretch is made of whole runs, as long as its block has counted steps.
-/

namespace Gerber.Grid

variable {α : Type}

def isBound (id : Nat) (step : Step α) : Bool := step.stepRepeat = some id

/-- The maximal stretches of steps bound to one block, each with the block and its length. -/
def stretches : List (Step α) → List (Nat × Nat)
  | [] => []
  | step :: rest =>
    match step.stepRepeat with
    | none => stretches rest
    | some id =>
      (id, 1 + (rest.takeWhile (isBound id)).length) :: stretches (rest.dropWhile (isBound id))
termination_by steps => steps.length
decreasing_by
  · exact Nat.lt_succ_self _
  · exact Nat.lt_succ_of_le (List.dropWhile_sublist _).length_le

/-- A stretch of the length `n` is made of whole runs of its block. -/
def Whole (repeats : StepRepeats α) (id n : Nat) : Prop :=
  ∃ block, repeats.get? id = some block ∧ 0 < block.steps ∧ block.steps ∣ n

section

variable {id : Nat} {run rest : List (Step α)}

theorem stretches_nil : stretches ([] : List (Step α)) = [] := by
  rw [stretches]

theorem stretches_cons_none {step : Step α} (h : step.stepRepeat = none) :
    stretches (step :: rest) = stretches rest := by
  rw [stretches]
  simp only [h]

/-- What is bound at the front of a list is its first stretch. -/
theorem stretches_of_head {step : Step α} (h : isBound id step) :
    stretches (step :: rest) =
      (id, ((step :: rest).takeWhile (isBound id)).length) ::
        stretches ((step :: rest).dropWhile (isBound id)) := by
  have hid : step.stepRepeat = some id := of_decide_eq_true h
  rw [stretches]
  simp only [hid, List.takeWhile_cons_of_pos h, List.dropWhile_cons_of_pos h, List.length_cons]
  rw [Nat.add_comm]

/-- A list starts with a stretch of a block, or with no step that is bound to the block. -/
theorem stretches_split (id : Nat) (steps : List (Step α)) :
    stretches steps = (id, (steps.takeWhile (isBound id)).length) ::
        stretches (steps.dropWhile (isBound id)) ∨
      steps.takeWhile (isBound id) = [] ∧ steps.dropWhile (isBound id) = steps := by
  cases steps with
  | nil => exact .inr ⟨rfl, rfl⟩
  | cons step rest =>
    by_cases h : isBound id step
    · exact .inl (stretches_of_head h)
    · exact .inr ⟨List.takeWhile_cons_of_neg h, List.dropWhile_cons_of_neg h⟩

/-- A bound run at the front belongs to the first stretch. -/
theorem stretches_append (hne : run ≠ []) (hrun : ∀ step ∈ run, isBound id step) :
    stretches (run ++ rest) =
      (id, run.length + (rest.takeWhile (isBound id)).length) ::
        stretches (rest.dropWhile (isBound id)) := by
  cases run with
  | nil => exact absurd rfl hne
  | cons step run =>
    rw [List.cons_append, stretches_of_head (hrun step List.mem_cons_self), ← List.cons_append,
      List.takeWhile_append_of_pos hrun, List.dropWhile_append_of_pos hrun, List.length_append]

end

variable [Scalar α] {repeats : StepRepeats α} {steps out : List (Step α)} {step : Step α}

/-- How a list of steps is taken apart: unbound steps stay, and each run of a block gives way to
its copies. -/
inductive Expands (repeats : StepRepeats α) : List (Step α) → List (Step α) → Prop
  | nil : Expands repeats [] []
  | keep {step : Step α} {rest out : List (Step α)} :
      step.stepRepeat = none → Expands repeats rest out →
        Expands repeats (step :: rest) (step :: out)
  | copy {id : Nat} {block : StepRepeat α} {run rest out : List (Step α)} :
      repeats.get? id = some block → run ≠ [] → run.length = block.steps →
      (∀ step ∈ run, isBound id step) → Expands repeats rest out →
        Expands repeats (run ++ rest) (copies block run ++ out)

omit [Scalar α] in
private theorem run_eq_ok_iff {id : Nat} {block : StepRepeat α} {taken : List (Step α)} :
    run id block steps = .ok taken ↔
      taken = steps.take block.steps ∧ taken ≠ [] ∧ taken.length = block.steps ∧
        ∀ step ∈ taken, isBound id step := by
  unfold run
  split
  case isTrue hshort =>
    constructor
    · intro h
      cases h
    · rintro ⟨rfl, -, hlength, -⟩
      rw [List.length_take] at hlength
      omega
  case isFalse hlong =>
    have hlength : (steps.take block.steps).length = block.steps :=
      List.length_take_of_le (Nat.le_of_not_lt hlong)
    simp only
    split
    case isTrue hbroken =>
      constructor
      · intro h
        cases h
      · rintro ⟨rfl, hne, -, hbound⟩
        rw [Bool.or_eq_true, List.isEmpty_iff, List.any_eq_true] at hbroken
        rcases hbroken with hempty | ⟨step, hmem, hstep⟩
        · exact absurd hempty hne
        · have hid : step.stepRepeat = some id := of_decide_eq_true (hbound step hmem)
          simp [hid] at hstep
    case isFalse hwhole =>
      simp only [Bool.or_eq_true, not_or, List.isEmpty_iff, List.any_eq_true, not_exists,
        not_and, bne_iff_ne, ne_eq, Decidable.not_not] at hwhole
      rw [Except.ok.injEq]
      constructor
      · rintro rfl
        exact ⟨rfl, hwhole.1, hlength, fun step hmem => decide_eq_true (hwhole.2 step hmem)⟩
      · rintro ⟨rfl, -⟩
        rfl

theorem expand_cons_none (h : step.stepRepeat = none) :
    expand repeats (step :: steps) = (expand repeats steps).map (step :: ·) := by
  rw [expand]
  simp only [h]

theorem expand_cons_some {id : Nat} {block : StepRepeat α} (h : step.stepRepeat = some id)
    (hget : repeats.get? id = some block) :
    expand repeats (step :: steps) =
      match run id block (step :: steps) with
      | .error e => .error (.stepRepeat e)
      | .ok taken =>
        (expand repeats ((step :: steps).drop block.steps)).map (copies block taken ++ ·) := by
  rw [expand]
  simp only [h, hget]
  split <;> simp_all

theorem expands_of_expand (h : expand repeats steps = .ok out) : Expands repeats steps out := by
  induction steps using expand.induct repeats generalizing out with
  | case1 =>
    rw [expand] at h
    cases h
    exact .nil
  | case2 step rest hnone ih =>
    rw [expand_cons_none hnone, Except.map_eq_ok] at h
    obtain ⟨out', hrest, rfl⟩ := h
    exact .keep hnone (ih hrest)
  | case3 step rest id hsome hget =>
    rw [expand] at h
    simp only [hsome, hget] at h
    cases h
  | case4 step rest id hsome block hget e hrun =>
    rw [expand_cons_some hsome hget, hrun] at h
    cases h
  | case5 step rest id hsome block hget taken hrun ih =>
    rw [expand_cons_some hsome hget, hrun, Except.map_eq_ok] at h
    obtain ⟨out', hrest, rfl⟩ := h
    obtain ⟨htaken, hne, hlength, hbound⟩ := run_eq_ok_iff.mp hrun
    have hcopy := Expands.copy hget hne hlength hbound (ih hrest)
    rwa [htaken, List.take_append_drop, ← htaken] at hcopy

theorem expand_of_expands (h : Expands repeats steps out) : expand repeats steps = .ok out := by
  induction h with
  | nil => rw [expand]
  | keep hnone _ ih =>
    rw [expand_cons_none hnone, ih]
    rfl
  | @copy id block taken rest out hget hne hlength hbound _ ih =>
    have htake : (taken ++ rest).take block.steps = taken := List.take_left' hlength
    have hdrop : (taken ++ rest).drop block.steps = rest := List.drop_left' hlength
    have hrun : run id block (taken ++ rest) = .ok taken :=
      run_eq_ok_iff.mpr ⟨htake.symm, hne, hlength, hbound⟩
    cases taken with
    | nil => exact absurd rfl hne
    | cons step taken =>
      have hsome : step.stepRepeat = some id := of_decide_eq_true (hbound step List.mem_cons_self)
      rw [List.cons_append] at hrun hdrop ⊢
      rw [expand_cons_some hsome hget, hrun]
      simp only [hdrop, ih, Except.map]

private theorem mem_copy {offset : Vec α} {prev : Coord α} {run : List (Step α)}
    (h : step ∈ copy offset prev run) :
    ∃ origin ∈ run, ∃ prev coord, step = { origin with prev, coord } := by
  induction run generalizing prev with
  | nil => cases h
  | cons first rest ih =>
    rcases List.mem_cons.mp h with rfl | h
    · exact ⟨first, List.mem_cons_self, _, _, rfl⟩
    · obtain ⟨origin, hmem, hstep⟩ := ih h
      exact ⟨origin, List.mem_cons_of_mem _ hmem, hstep⟩

theorem mem_copies {block : StepRepeat α} {run : List (Step α)} (h : step ∈ copies block run) :
    ∃ origin ∈ run, ∃ prev coord, step = { origin with prev, coord } := by
  obtain ⟨offset, -, h⟩ := List.mem_flatMap.mp h
  exact mem_copy h

/-- Expansion only moves steps. -/
theorem Expands.mem (h : Expands repeats steps out) (hmem : step ∈ out) :
    ∃ origin ∈ steps, ∃ prev coord, step = { origin with prev, coord } := by
  induction h with
  | nil => cases hmem
  | keep _ _ ih =>
    rcases List.mem_cons.mp hmem with rfl | hmem
    · exact ⟨step, List.mem_cons_self, step.prev, step.coord, rfl⟩
    · obtain ⟨origin, horigin, hstep⟩ := ih hmem
      exact ⟨origin, List.mem_cons_of_mem _ horigin, hstep⟩
  | copy _ _ _ _ _ ih =>
    rcases List.mem_append.mp hmem with hmem | hmem
    · obtain ⟨origin, horigin, hstep⟩ := mem_copies hmem
      exact ⟨origin, List.mem_append_left _ horigin, hstep⟩
    · obtain ⟨origin, horigin, hstep⟩ := ih hmem
      exact ⟨origin, List.mem_append_right _ horigin, hstep⟩

/-- An unbound step at the end stays there. -/
theorem Expands.concat {last : Step α} (h : Expands repeats (steps ++ [last]) out)
    (hlast : last.stepRepeat = none) :
    ∃ out', Expands repeats steps out' ∧ out = out' ++ [last] := by
  generalize hall : steps ++ [last] = all at h
  induction h generalizing steps with
  | nil => simp at hall
  | @keep step rest out hnone hrest ih =>
    cases steps with
    | nil =>
      cases hall
      have hnil := expand_of_expands hrest
      rw [expand] at hnil
      cases hnil
      exact ⟨[], .nil, rfl⟩
    | cons first steps =>
      cases hall
      obtain ⟨out', hexpands, rfl⟩ := ih rfl
      exact ⟨_ :: out', .keep hnone hexpands, rfl⟩
  | @copy id block taken rest out hget hne hlength hbound hrest ih =>
    rcases List.eq_nil_or_concat rest with rfl | ⟨rest', last', rfl⟩
    · rw [List.append_nil] at hall
      have hid : last.stepRepeat = some id :=
        of_decide_eq_true (hbound last (hall ▸ List.mem_append_right _ (List.mem_singleton_self _)))
      rw [hlast] at hid
      cases hid
    · rw [List.concat_eq_append, ← List.append_assoc] at hall
      obtain ⟨rfl, hlast'⟩ := List.append_inj' hall rfl
      rw [List.concat_eq_append] at ih hrest
      obtain ⟨out', hexpands, rfl⟩ := ih (congrArg (rest' ++ ·) hlast')
      exact ⟨_ ++ out', .copy hget hne hlength hbound hexpands, (List.append_assoc ..).symm⟩

private theorem Expands.exists_append {id : Nat} {block : StepRepeat α} {rest : List (Step α)}
    (hget : repeats.get? id = some block) (hpos : 0 < block.steps) (h : Expands repeats rest out)
    (k : Nat) (run : List (Step α)) (hlength : run.length = block.steps * k)
    (hbound : ∀ step ∈ run, isBound id step) : ∃ out', Expands repeats (run ++ rest) out' := by
  induction k generalizing run with
  | zero =>
    rw [Nat.mul_zero, List.length_eq_zero_iff] at hlength
    exact ⟨out, by rwa [hlength]⟩
  | succ k ih =>
    rw [Nat.mul_succ] at hlength
    obtain ⟨out', hexpands⟩ := ih (run.drop block.steps) (by rw [List.length_drop]; omega)
      fun step hmem => hbound step (List.mem_of_mem_drop hmem)
    have htake : (run.take block.steps).length = block.steps :=
      List.length_take_of_le (by omega)
    have hcopy := Expands.copy hget (List.ne_nil_of_length_pos (by omega)) htake
      (fun step hmem => hbound step (List.mem_of_mem_take hmem)) hexpands
    rw [← List.append_assoc, List.take_append_drop] at hcopy
    exact ⟨_, hcopy⟩

theorem Expands.whole (h : Expands repeats steps out) :
    ∀ stretch ∈ stretches steps, Whole repeats stretch.1 stretch.2 := by
  induction h with
  | nil => simp [stretches_nil]
  | keep hnone _ ih => rwa [stretches_cons_none hnone]
  | @copy id block run rest out hget hne hlength hbound hrest ih =>
    have hpos : 0 < block.steps := hlength ▸ List.length_pos_iff.mpr hne
    rw [stretches_append hne hbound, List.forall_mem_cons, hlength]
    rcases stretches_split id rest with hsplit | ⟨htake, hdrop⟩
    · -- the run and the stretch after it are one stretch
      rw [hsplit, List.forall_mem_cons] at ih
      obtain ⟨⟨block', hget', -, hdvd⟩, hrest⟩ := ih
      cases hget.symm.trans hget'
      exact ⟨⟨block, hget, hpos, Nat.dvd_add (Nat.dvd_refl _) hdvd⟩, hrest⟩
    · rw [htake, hdrop]
      exact ⟨⟨block, hget, hpos, Nat.dvd_refl _⟩, ih⟩

private theorem exists_expands (h : ∀ stretch ∈ stretches steps, Whole repeats stretch.1 stretch.2)
    : ∃ out, Expands repeats steps out := by
  induction steps using stretches.induct with
  | case1 => exact ⟨[], .nil⟩
  | case2 step rest hnone ih =>
    rw [stretches_cons_none hnone] at h
    obtain ⟨out, hexpands⟩ := ih h
    exact ⟨_, .keep hnone hexpands⟩
  | case3 step rest id hsome ih =>
    have hbound : isBound id step := decide_eq_true hsome
    rw [stretches_of_head hbound, List.forall_mem_cons, List.dropWhile_cons_of_pos hbound] at h
    obtain ⟨⟨block, hget, hpos, k, hk⟩, hrest⟩ := h
    obtain ⟨out, hexpands⟩ := ih hrest
    have hall := hexpands.exists_append hget hpos k _ hk (List.all_eq_true.mp List.all_takeWhile)
    rwa [← List.dropWhile_cons_of_pos hbound, List.takeWhile_append_dropWhile] at hall

/-- Expansion goes through if and only if every stretch is made of whole runs. -/
theorem expand_eq_ok_iff :
    (∃ out, expand repeats steps = .ok out) ↔
      ∀ stretch ∈ stretches steps, Whole repeats stretch.1 stretch.2 := by
  constructor
  · rintro ⟨out, h⟩
    exact (expands_of_expand h).whole
  · intro h
    obtain ⟨out, hexpands⟩ := exists_expands h
    exact ⟨out, expand_of_expands hexpands⟩

/-- Over blocks that are there, only the count of a run can be at fault. -/
theorem fault_of_expand {fault : Fault} (h : expand repeats steps = .error fault)
    (hids : ∀ step ∈ steps, ∀ id, step.stepRepeat = some id →
      ∃ block, repeats.get? id = some block) :
    ∃ e, fault = .stepRepeat e := by
  induction steps using expand.induct repeats with
  | case1 =>
    rw [expand] at h
    cases h
  | case2 step rest hnone ih =>
    rw [expand_cons_none hnone] at h
    cases hrest : expand repeats rest with
    | ok out => rw [hrest] at h; cases h
    | error e =>
      rw [hrest] at h
      cases h
      exact ih hrest fun other hmem => hids other (List.mem_cons_of_mem _ hmem)
  | case3 step rest id hsome hget =>
    obtain ⟨block, hblock⟩ := hids step List.mem_cons_self id hsome
    cases hget.symm.trans hblock
  | case4 step rest id hsome block hget e hrun =>
    rw [expand_cons_some hsome hget, hrun] at h
    cases h
    exact ⟨e, rfl⟩
  | case5 step rest id hsome block hget taken hrun ih =>
    rw [expand_cons_some hsome hget, hrun] at h
    cases hrest : expand repeats ((step :: rest).drop block.steps) with
    | ok out => simp [hrest, Except.map] at h
    | error e =>
      rw [hrest] at h
      cases h
      exact ih hrest fun other hmem => hids other (List.mem_of_mem_drop hmem)

end Gerber.Grid
