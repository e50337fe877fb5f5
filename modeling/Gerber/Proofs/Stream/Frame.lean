import Gerber.Proofs.Stream.Effect

/-!
# The frame of a stream

The steps of a stream start with the root step, and a stop can only be the last of them.  The stop
is bound to no step-and-repeat block.
-/

namespace Gerber

variable {α : Type}

namespace Command

private theorem operation?_ne_stop {t body : Text} {action : Action}
    (h : operation? t = some (operation body action)) : action ≠ .stop := by
  have hends : ∀ p ∈ operationEnds, p.2 ≠ Action.stop := by decide
  obtain ⟨p, hmem, hp⟩ := List.exists_of_findSome?_eq_some h
  obtain ⟨head, -, hhead⟩ := Option.map_eq_some_iff.mp hp
  cases hhead
  exact hends p hmem

private theorem select?_ne_operation {t body : Text} {action : Action} :
    select? t ≠ some (operation body action) := by
  intro h
  simp only [select?, Option.bind_eq_bind, Option.bind_eq_some_iff] at h
  obtain ⟨code, -, digits, -, n, -, hn⟩ := h
  split at hn <;> cases hn

private theorem ofInner_ne_operation {inner body : Text} {action : Action} :
    ofInner inner ≠ operation body action := by
  intro h
  simp only [ofInner] at h
  repeat (split at h; cases h)
  cases h

/-- A data block is a fixed text, an operation or a selection, or it is unknown. -/
theorem ofBlock_cases (t : Text) :
    (t, ofBlock t) ∈ fixedBlocks ∨ operation? t = some (ofBlock t) ∨
      select? t = some (ofBlock t) ∨ ofBlock t = unknown := by
  unfold ofBlock
  cases hfixed : fixedBlocks.lookup t with
  | some command =>
    obtain ⟨front, back, hsplit, -⟩ := List.lookup_eq_some_iff.mp hfixed
    refine .inl ?_
    rw [hsplit]
    exact List.mem_append_right _ List.mem_cons_self
  | none =>
    cases hoperation : operation? t with
    | some command => exact .inr (.inl rfl)
    | none =>
      cases hselect : select? t with
      | some command => exact .inr (.inr (.inl rfl))
      | none => exact .inr (.inr (.inr rfl))

/-- No operation stops a stream. -/
theorem action_ne_stop {t body : Text} {action : Action}
    (h : ofText t = operation body action) : action ≠ .stop := by
  unfold ofText at h
  split at h
  · cases h
  split at h
  · exact absurd h ofInner_ne_operation
  rcases ofBlock_cases t with hfixed | hoperation | hselect | hunknown
  · have hnone : ∀ p ∈ fixedBlocks, p.2 ≠ operation body action := by
      simp [fixedBlocks]
    exact absurd h (hnone _ hfixed)
  · exact operation?_ne_stop (hoperation.trans (congrArg some h))
  · exact absurd (hselect.trans (congrArg some h)) select?_ne_operation
  · cases hunknown.symm.trans h

end Command

def Quiet (steps : List (Step α)) : Prop := ∀ step ∈ steps, step.action ≠ .stop

/-- The root step, steps that do not stop, and the stop of a stopped stream. -/
inductive Framed [Scalar α] : Bool → List (Step α) → Prop
  | unstopped {middle : List (Step α)} : Quiet middle → Framed false (Step.root :: middle)
  | stopped {middle : List (Step α)} {last : Step α} :
      Quiet middle → last.action = .stop → last.stepRepeat = none →
        Framed true (Step.root :: (middle ++ [last]))

theorem Framed.exists_cons [Scalar α] {stopped : Bool} {steps : List (Step α)}
    (h : Framed stopped steps) : ∃ rest, steps = Step.root :: rest := by
  cases h with
  | unstopped _ => exact ⟨_, rfl⟩
  | stopped _ _ _ => exact ⟨_, rfl⟩

/-- A stop is bound to no step-and-repeat block. -/
theorem Framed.stepRepeat_of_stop [Scalar α] {stopped : Bool} {steps : List (Step α)}
    (h : Framed stopped steps) : ∀ step ∈ steps, step.action = .stop → step.stepRepeat = none := by
  have hroot : (Step.root : Step α).action ≠ .stop := by simp [Step.root]
  cases h with
  | unstopped hquiet =>
    intro step hmem hstop
    rcases List.mem_cons.mp hmem with rfl | hmem
    · exact absurd hstop hroot
    · exact absurd hstop (hquiet step hmem)
  | stopped hquiet _ hlast =>
    intro step hmem hstop
    simp only [List.mem_cons, List.mem_append, List.not_mem_nil, or_false] at hmem
    rcases hmem with rfl | hmem | rfl
    · exact absurd hstop hroot
    · exact absurd hstop (hquiet step hmem)
    · exact hlast

namespace Stream

variable [Scalar α] {setting : Setting α} {cursor final : Cursor α} {tokens : List Token}
  {stopped : Bool} {s t : Session α}

private theorem quiet_follow {token : Token} {outcome : Outcome} {step : Step α}
    (h : Effect setting cursor.pending cursor.last.coord token s outcome step t)
    (hne : outcome ≠ .stop) (hq : Quiet cursor.completed) :
    Quiet (cursor.follow outcome step).completed := by
  cases h with
  | operation hc _ _ => exact List.forall_mem_cons.mpr ⟨Command.action_ne_stop hc, hq⟩
  | stop => exact absurd rfl hne
  | _ => exact hq

private theorem framed_of_advances (h : Advances setting cursor s tokens final stopped t)
    (hq : Quiet cursor.completed) : Framed stopped final.steps := by
  have hreverse {steps : List (Step α)} (hq : Quiet steps) : Quiet steps.reverse :=
    fun step hmem => hq step (List.mem_reverse.mp hmem)
  induction h with
  | done _ => exact .unstopped (hreverse hq)
  | step he hne _ ih => exact ih (quiet_follow he hne hq)
  | stop he _ =>
    cases he
    simp only [Cursor.follow, Cursor.steps, List.reverse_cons]
    exact .stopped (hreverse hq) rfl rfl

theorem framed_of_compile {compiled : Compiled α}
    (h : (compile setting tokens).Yields s compiled t) :
    Framed compiled.stopped compiled.steps := by
  obtain ⟨final, hadvances, hsteps⟩ := advances_of_compile h
  rw [hsteps]
  exact framed_of_advances hadvances (List.forall_mem_nil _)

end Stream

end Gerber
