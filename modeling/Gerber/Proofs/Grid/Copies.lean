import Gerber.Proofs.Grid.Runs
import Gerber.Proofs.Stream.Chain

/-!
# Copies of runs

A list that is expanded falls into pieces: steps that stay, and runs that give way to their copies.
Each step of a copy but the first starts where the one before it ends, wherever it started before.
Where all runs of a block have one length and are joined, the pieces are these runs.
-/

namespace Gerber.Grid

variable {α : Type}

/-- A piece of a list that is expanded: a step that stays, or a run of a block. -/
inductive Piece (α : Type) where
  | step (kept : Step α)
  | run (id : Nat) (block : StepRepeat α) (taken : List (Step α))

namespace Piece

def steps : Piece α → List (Step α)
  | step kept => [kept]
  | run _ _ taken => taken

/-- What a piece gives way to. -/
def expanded [Scalar α] : Piece α → List (Step α)
  | step kept => [kept]
  | run _ block taken => copies block taken

end Piece

/-- The pieces of a list, if it can be expanded. -/
def pieces (repeats : StepRepeats α) : List (Step α) → List (Piece α)
  | [] => []
  | step :: rest =>
    match step.stepRepeat.bind fun id => (repeats.get? id).map fun block => (id, block) with
    | none => .step step :: pieces repeats rest
    | some (id, block) =>
      .run id block ((step :: rest).take block.steps) ::
        pieces repeats (rest.drop (block.steps - 1))
termination_by steps => steps.length
decreasing_by
  · exact Nat.lt_succ_self _
  · exact Nat.lt_succ_of_le (List.drop_sublist _ _).length_le

/-- A run of a block: as many steps as the block has counted, at least one, all bound to it. -/
structure IsRun (repeats : StepRepeats α) (id : Nat) (block : StepRepeat α)
    (run : List (Step α)) : Prop where
  get : repeats.get? id = some block
  ne_nil : run ≠ []
  length : run.length = block.steps
  bound : ∀ step ∈ run, isBound id step

section

variable {repeats : StepRepeats α} {id : Nat} {block : StepRepeat α} {run rest : List (Step α)}

private theorem pieces_nil : pieces repeats [] = [] := by
  rw [pieces]

private theorem pieces_cons_none {step : Step α} (h : step.stepRepeat = none) :
    pieces repeats (step :: rest) = .step step :: pieces repeats rest := by
  rw [pieces]
  simp [h]

private theorem IsRun.pieces_append (h : IsRun repeats id block run) (rest : List (Step α)) :
    pieces repeats (run ++ rest) = .run id block run :: pieces repeats rest := by
  have htake : (run ++ rest).take block.steps = run := List.take_left' h.length
  have hdrop : (run ++ rest).drop block.steps = rest := List.drop_left' h.length
  have hlength := h.length
  cases run with
  | nil => exact absurd rfl h.ne_nil
  | cons step run =>
    have hid := isBound_iff.mp (h.bound step List.mem_cons_self)
    have hcount : block.steps = (block.steps - 1) + 1 := by
      rw [List.length_cons] at hlength
      omega
    rw [List.cons_append] at htake hdrop ⊢
    rw [hcount, List.drop_succ_cons] at hdrop
    rw [pieces]
    simp [hid, h.get, htake, hdrop]

end

variable [Scalar α] {repeats : StepRepeats α} {steps out run : List (Step α)} {id n : Nat}
  {block : StepRepeat α}

/-- A list that can be expanded is made of its pieces, and expansion expands each of them. -/
theorem Expands.pieces (h : Expands repeats steps out) :
    steps = (pieces repeats steps).flatMap Piece.steps ∧
      out = (Grid.pieces repeats steps).flatMap Piece.expanded ∧
      ∀ id block run, Piece.run id block run ∈ Grid.pieces repeats steps →
        IsRun repeats id block run := by
  induction h with
  | nil => simp [pieces_nil]
  | keep hnone _ ih =>
    obtain ⟨hsteps, hout, hruns⟩ := ih
    rw [pieces_cons_none hnone, List.flatMap_cons, List.flatMap_cons, ← hsteps, ← hout]
    refine ⟨rfl, rfl, fun id block run hmem => ?_⟩
    exact hruns id block run ((List.mem_cons.mp hmem).resolve_left (by simp))
  | @copy id block run rest out hget hne hlength hbound _ ih =>
    obtain ⟨hsteps, hout, hruns⟩ := ih
    have hrun : IsRun repeats id block run := ⟨hget, hne, hlength, hbound⟩
    rw [hrun.pieces_append, List.flatMap_cons, List.flatMap_cons, ← hsteps, ← hout]
    refine ⟨rfl, rfl, fun id' block' run' hmem => ?_⟩
    rcases List.mem_cons.mp hmem with heq | hmem
    · cases heq
      exact hrun
    · exact hruns id' block' run' hmem

/-- A bound step of a list that can be expanded belongs to a run of its block. -/
theorem Expands.exists_run {step : Step α} (h : Expands repeats steps out) (hmem : step ∈ steps)
    (hid : step.stepRepeat = some id) :
    ∃ (block : StepRepeat α) (run : List (Step α)) (i : Nat),
      Piece.run id block run ∈ Grid.pieces repeats steps ∧ run[i]? = some step := by
  induction h with
  | nil => cases hmem
  | @keep kept rest out hnone _ ih =>
    rw [pieces_cons_none hnone]
    rcases List.mem_cons.mp hmem with rfl | hmem
    · cases hnone.symm.trans hid
    · obtain ⟨block, run, i, hrun, hstep⟩ := ih hmem
      exact ⟨block, run, i, List.mem_cons_of_mem _ hrun, hstep⟩
  | @copy other block taken rest out hget hne hlength hbound _ ih =>
    have htaken : IsRun repeats other block taken := ⟨hget, hne, hlength, hbound⟩
    rw [htaken.pieces_append]
    rcases List.mem_append.mp hmem with hmem | hmem
    · obtain rfl := Option.some.inj ((isBound_iff.mp (hbound step hmem)).symm.trans hid)
      obtain ⟨i, hstep⟩ := List.mem_iff_getElem?.mp hmem
      exact ⟨block, taken, i, List.mem_cons_self, hstep⟩
    · obtain ⟨block, run, i, hrun, hstep⟩ := ih hmem
      exact ⟨block, run, i, List.mem_cons_of_mem _ hrun, hstep⟩

theorem length_copy (offset : Vec α) (prev : Coord α) (run : List (Step α)) :
    (copy offset prev run).length = run.length := by
  induction run generalizing prev with
  | nil => rfl
  | cons step rest ih => exact congrArg (· + 1) (ih _)

theorem exists_copied (offset : Vec α) (prev : Coord α) {i : Nat} {step : Step α}
    (h : run[i]? = some step) : ∃ copied, (copy offset prev run)[i]? = some copied := by
  have hlt := (List.getElem?_eq_some_iff.mp h).1
  rw [← length_copy offset prev run] at hlt
  exact ⟨_, List.getElem?_eq_getElem hlt⟩

theorem getElem?_copy {offset : Vec α} {prev : Coord α} {i : Nat} {step copied : Step α}
    (hstep : run[i]? = some step) (hcopied : (copy offset prev run)[i]? = some copied) :
    ∃ start, copied = { step with prev := start, coord := step.coord.translate offset } := by
  induction run generalizing prev i with
  | nil => cases hstep
  | cons first rest ih =>
    cases i with
    | zero =>
      obtain rfl := Option.some.inj hstep
      obtain rfl := Option.some.inj hcopied
      exact ⟨prev, rfl⟩
    | succ i => exact ih hstep hcopied

theorem prev_of_copy {offset : Vec α} {prev : Coord α} {i : Nat} {a copied : Step α}
    (ha : run[i]? = some a) (hcopied : (copy offset prev run)[i + 1]? = some copied) :
    copied.prev = a.coord.translate offset := by
  induction run generalizing prev i with
  | nil => cases ha
  | cons first rest ih =>
    cases i with
    | zero =>
      obtain rfl := Option.some.inj ha
      cases rest with
      | nil => cases hcopied
      | cons next rest =>
        obtain rfl := Option.some.inj hcopied
        rfl
    | succ i => exact ih ha hcopied

/-- In every copy each step but the first starts where it started in the run, moved with the
copy. -/
def Piece.KeepsStarts : Piece α → Prop
  | .step _ => True
  | .run _ block taken => ∀ offset ∈ block.offsets,
      ∀ pair ∈ (taken.zip (copy offset Coord.zero taken)).tail,
        pair.2.prev.x = pair.1.prev.x + offset.x ∧ pair.2.prev.y = pair.1.prev.y + offset.y

instance [DecidableEq α] (piece : Piece α) : Decidable piece.KeepsStarts := by
  unfold Piece.KeepsStarts
  split <;> infer_instance

theorem keepsStarts_of_joined (h : Joined run) (id : Nat) (block : StepRepeat α) :
    (Piece.run id block run).KeepsStarts := by
  intro offset _ pair hpair
  obtain ⟨i, hi⟩ := List.mem_iff_getElem?.mp hpair
  rw [List.getElem?_tail, List.getElem?_zip_eq_some] at hi
  have hlt : i < run.length := by
    have := (List.getElem?_eq_some_iff.mp hi.1).1
    omega
  have ha : run[i]? = some run[i] := List.getElem?_eq_getElem hlt
  rw [prev_of_copy ha hi.2, h i _ _ ha hi.1]
  exact ⟨rfl, rfl⟩

/-- The list is laid out in joined runs of the length `n`, with other steps in between. -/
inductive Laid (id n : Nat) : List (Step α) → Prop
  | nil : Laid id n []
  | skip {step : Step α} {rest : List (Step α)} :
      ¬ isBound id step → Laid id n rest → Laid id n (step :: rest)
  | run {run rest : List (Step α)} :
      (∀ step ∈ run, isBound id step) → run.length = n → Joined run → Laid id n rest →
        Laid id n (run ++ rest)

section

variable {rest : List (Step α)} {prev : Coord α}

omit [Scalar α]

theorem laid_of_unbound (h : ∀ step ∈ steps, ¬ isBound id step) : Laid id n steps := by
  induction steps with
  | nil => exact .nil
  | cons step rest ih =>
    obtain ⟨hstep, hrest⟩ := List.forall_mem_cons.mp h
    exact .skip hstep (ih hrest)

theorem Laid.append (h : Laid id n steps) (h' : Laid id n rest) : Laid id n (steps ++ rest) := by
  induction h with
  | nil => exact h'
  | skip hstep _ ih => exact .skip hstep ih
  | run hrun hlength hjoined _ ih =>
    rw [List.append_assoc]
    exact .run hrun hlength hjoined ih

/-- A chain that holds a run of a block, or no step of it, is laid out. -/
theorem OneRun.laid (h : OneRun id steps) (hchain : Chained (fun _ => False) prev steps)
    (hn : bound id steps = 0 ∨ bound id steps = n) : Laid id n steps := by
  rcases hn with hzero | hn
  · exact laid_of_unbound (List.countP_eq_zero.mp hzero)
  · obtain ⟨before, run, after, rfl, hrun, hbefore, hafter⟩ := h
    rw [bound_append, bound_append, bound_eq_zero hbefore, bound_eq_zero hafter,
      bound_eq_length hrun, Nat.zero_add, Nat.add_zero] at hn
    exact (laid_of_unbound hbefore).append
      (.run hrun hn hchain.joined (laid_of_unbound hafter))

private theorem Laid.of_unbound_append (h : Laid id n (steps ++ rest)) (hn : 0 < n)
    (hunbound : ∀ step ∈ steps, ¬ isBound id step) : Laid id n rest := by
  induction steps with
  | nil => exact h
  | cons step steps ih =>
    obtain ⟨hstep, hsteps⟩ := List.forall_mem_cons.mp hunbound
    generalize hall : step :: steps ++ rest = all at h
    cases h with
    | nil => cases hall
    | skip _ h =>
      cases hall
      exact ih h hsteps
    | @run run rest' hrun hlength _ _ =>
      cases run with
      | nil =>
        rw [List.length_nil] at hlength
        omega
      | cons first run =>
        obtain rfl := (List.cons.inj hall).1
        exact absurd (hrun step List.mem_cons_self) hstep

private theorem Laid.joined_of_append (h : Laid id n (run ++ rest)) (hne : run ≠ [])
    (hlength : run.length = n) (hrun : ∀ step ∈ run, isBound id step) :
    Joined run ∧ Laid id n rest := by
  generalize hall : run ++ rest = all at h
  cases h with
  | nil => exact absurd (List.append_eq_nil_iff.mp hall).1 hne
  | @skip step _ hstep _ =>
    cases run with
    | nil => exact absurd rfl hne
    | cons first run =>
      obtain rfl := (List.cons.inj hall).1
      exact absurd (hrun first List.mem_cons_self) hstep
  | run _ hlength' hjoined h =>
    obtain ⟨rfl, rfl⟩ := List.append_inj hall (hlength.trans hlength'.symm)
    exact ⟨hjoined, h⟩

end

/-- The pieces of a list that is laid out in joined runs are these runs. -/
theorem Expands.joined (h : Expands repeats steps out) (hlaid : Laid id n steps)
    (hget : repeats.get? id = some block) (hn : block.steps = n)
    (hmem : Piece.run id block run ∈ Grid.pieces repeats steps) : Joined run := by
  have hrun := h.pieces.2.2 id block run hmem
  have hpos : 0 < n := by
    rw [← hn, ← hrun.length]
    exact List.length_pos_iff.mpr hrun.ne_nil
  induction h with
  | nil => simp [pieces_nil] at hmem
  | @keep step rest out hnone _ ih =>
    have hunbound : ∀ kept ∈ [step], ¬ isBound id kept := by simp [isBound, hnone]
    rw [pieces_cons_none hnone] at hmem
    apply ih (hlaid.of_unbound_append hpos hunbound)
    exact (List.mem_cons.mp hmem).resolve_left (by simp)
  | @copy other grid taken rest out hother hne hlength hbound _ ih =>
    have htaken : IsRun repeats other grid taken := ⟨hother, hne, hlength, hbound⟩
    rw [htaken.pieces_append] at hmem
    by_cases hid : other = id
    · subst hid
      obtain rfl := Option.some.inj (hget.symm.trans hother)
      obtain ⟨hjoined, hrest⟩ := hlaid.joined_of_append hne (hlength.trans hn) hbound
      rcases List.mem_cons.mp hmem with heq | hmem
      · cases heq
        exact hjoined
      · exact ih hrest hmem
    · have hunbound : ∀ step ∈ taken, ¬ isBound id step := by
        intro step hstep
        have hstep := isBound_iff.mp (hbound step hstep)
        simp [isBound, hstep, hid]
      refine ih (hlaid.of_unbound_append hpos hunbound) ((List.mem_cons.mp hmem).resolve_left ?_)
      intro heq
      cases heq
      exact hid rfl

end Gerber.Grid
