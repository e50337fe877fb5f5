import Gerber.Proofs.Stream.Reading

/-!
# How far a stream gets

The commands of a stream are carried out in turn.  A stream that fails does so at one of them: those
before it are carried out, and those after it have no part in it.
-/

namespace Gerber.Stream

variable {α : Type} [Scalar α] {setting : Setting α} {cursor reached : Cursor α}
  {s t u : Session α} {token : Token} {tokens before rest : List Token} {result : Cursor α × Bool}

/-- After a command that does not stop the stream, the run is that of the other commands. -/
theorem outcome_advance_cons {outcome : Outcome} {step : Step α}
    (h : (apply setting cursor.pending cursor.last.coord token).Yields s (outcome, step) u)
    (hne : outcome ≠ .stop) (rest : List Token) :
    (advance setting cursor (token :: rest)).outcome s =
      (advance setting (cursor.follow outcome step) rest).outcome u := by
  rw [advance, Run.outcome_bind_of_yields (Run.yields_located.mpr h)]
  cases outcome with
  | stop => exact absurd rfl hne
  | _ => rfl

/-- The first command of a run that yields, which may be a stop. -/
theorem yields_apply_of_advance
    (h : (advance setting cursor (token :: rest)).Yields s result t) :
    ∃ outcome step u,
      (apply setting cursor.pending cursor.last.coord token).Yields s (outcome, step) u ∧
        (outcome ≠ .stop →
          (advance setting (cursor.follow outcome step) rest).Yields u result t) ∧
        (outcome = .stop → result.2 = true ∧ u.SameBooks t) := by
  have hrun := h
  rw [advance, Run.yields_bind] at h
  obtain ⟨⟨outcome, step⟩, u, happly, hend⟩ := h
  have happly := Run.yields_located.mp happly
  refine ⟨outcome, step, u, happly, ?_, ?_⟩
  · intro hne
    exact (outcome_advance_cons happly hne rest).symm.trans hrun
  · intro hstop
    subst hstop
    simp only at hend
    split at hend
    · simp only [Run.yields_bind, Run.yields_pure] at hend
      obtain ⟨_, _, hnote, rfl, rfl⟩ := hend
      exact ⟨rfl, .of_note hnote⟩
    · obtain ⟨rfl, rfl⟩ := Run.yields_pure.mp hend
      exact ⟨rfl, .refl _⟩

/-- The commands before a point are carried out first. -/
theorem outcome_advance_append (h : (advance setting cursor before).Yields s (reached, false) u)
    (rest : List Token) :
    (advance setting cursor (before ++ rest)).outcome s =
      (advance setting reached rest).outcome u := by
  induction before generalizing cursor s with
  | nil =>
    rw [advance, Run.yields_pure, Prod.mk.injEq] at h
    obtain ⟨⟨rfl, -⟩, rfl⟩ := h
    rfl
  | cons token before ih =>
    obtain ⟨outcome, step, v, happly, hrest, hstop⟩ := yields_apply_of_advance h
    have hne : outcome ≠ .stop := by
      intro heq
      cases (hstop heq).1
    rw [List.cons_append, outcome_advance_cons happly hne]
    exact ih (hrest hne)

/-- A stream fails at the command that fails, once those before it are carried out. -/
theorem fails_advance_iff {e : Error} :
    (advance setting cursor tokens).Fails s e t ↔ ∃ before token after reached u,
      tokens = before ++ token :: after ∧
      (advance setting cursor before).Yields s (reached, false) u ∧
      (Run.located token.line token.text
        (apply setting reached.pending reached.last.coord token)).Fails u e t := by
  constructor
  · intro h
    induction tokens generalizing cursor s with
    | nil => exact absurd h Run.fails_pure
    | cons token rest ih =>
      have hrun := h
      rw [advance, Run.fails_bind] at h
      rcases h with hfails | ⟨⟨outcome, step⟩, u, happly, h⟩
      · exact ⟨[], token, rest, cursor, s, rfl, Run.yields_pure.mpr ⟨rfl, rfl⟩, hfails⟩
      · have happly := Run.yields_located.mp happly
        by_cases hne : outcome = .stop
        · subst hne
          simp only at h
          split at h <;> simp at h
        · obtain ⟨before, later, after, reached, v, rfl, hreached, hfails⟩ :=
            ih ((outcome_advance_cons happly hne rest).symm.trans hrun)
          refine ⟨token :: before, later, after, reached, v, rfl, ?_, hfails⟩
          exact (outcome_advance_cons happly hne before).trans hreached
  · rintro ⟨before, token, after, reached, u, rfl, hreached, hfails⟩
    refine (outcome_advance_append hreached _).trans ?_
    change (advance setting reached (token :: after)).Fails u e t
    rw [advance, Run.fails_bind]
    exact .inl hfails

end Gerber.Stream
