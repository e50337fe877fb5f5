import Gerber.Proofs.Run.Alike
import Gerber.Proofs.Stream.Reading

/-!
# Essential commands

Comments, definitions and the commands without effect may stand anywhere in a stream, and anything
may stand after its stop.  The stream is compiled as if it were not there; only the notices tell.
-/

namespace Gerber

/-- The command changes neither steps nor books. -/
def Token.isIdle (token : Token) : Bool := token.command.isIdle

namespace Stream

/-- The commands up to and including the first stop. -/
def upToStop : List Token → List Token
  | [] => []
  | token :: rest => if token.isStop then [token] else token :: upToStop rest

/-- The commands that a stream cannot do without. -/
def essential (tokens : List Token) : List Token := (upToStop tokens).filter (!·.isIdle)

private theorem essential_cons_stop {token : Token} (h : token.isStop) (rest : List Token) :
    essential (token :: rest) = [token] := by
  have hcommand : token.command = .stop := of_decide_eq_true h
  have hidle : token.isIdle = false := by
    rw [Token.isIdle, hcommand]
    rfl
  simp [essential, upToStop, h, hidle]

private theorem essential_cons_idle {token : Token} (h : token.isIdle) (rest : List Token) :
    essential (token :: rest) = essential rest := by
  have hstop : token.isStop = false := by
    apply decide_eq_false
    intro hcommand
    rw [Token.isIdle, hcommand] at h
    cases h
  simp [essential, upToStop, h, hstop]

private theorem essential_cons {token : Token} (hstop : ¬token.isStop) (hidle : ¬token.isIdle)
    (rest : List Token) : essential (token :: rest) = token :: essential rest := by
  simp [essential, upToStop, hstop, hidle]

variable {α : Type} [Scalar α] (setting : Setting α)

private theorem apply_alike (pending : Step α) (last : Coord α) (token : Token) :
    (apply setting pending last token).Alike (apply setting pending last token) := by
  unfold apply
  cases Command.ofText token.text with
  | interpolation mode => exact .pure _
  | polarity polarity => exact .pure _
  | quadrant mode => exact .pure _
  | regionBegin =>
    refine .ite (.bind (.isRegionOpen _) fun _ => .ite (.bind (.note _) fun _ => ?_) ?_) ?_
    all_goals exact .bind (.openRegion _) fun _ => .pure _
  | regionEnd => exact .bind (.closeRegion _ _ _) fun _ => .pure _
  | operation body action =>
    simp only [operate_eq]
    refine .bind (.ofExcept _) fun coord => ?_
    refine .bind (.forSome _ fun region => .addVertex region coord) fun _ => ?_
    exact .bind (.forSome _ fun block => .adjustRepeat block 1) fun _ => .pure _
  | select code => exact .bind (.ofExcept _) fun _ => .pure _
  | stepRepeatOpen =>
    cases pending.stepRepeat with
    | none => exact .bind (.ofExcept _) fun _ => .bind (.openRepeat _) fun _ => .pure _
    | some block =>
      refine .bind (.closeRepeat block) fun _ => ?_
      exact .bind (.ofExcept _) fun _ => .bind (.openRepeat _) fun _ => .pure _
  | stepRepeatClose =>
    cases pending.stepRepeat with
    | none => exact .bind (.note _) fun _ => .pure _
    | some block => exact .bind (.closeRepeat block) fun _ => .pure _
  | stop =>
    cases pending.stepRepeat with
    | none => exact .pure _
    | some block => exact .bind (.closeRepeat block) fun _ => .pure _
  | imageTransform name identity => exact .bind (.note _) fun _ => .pure _
  | ignored name => exact .bind (.note _) fun _ => .pure _
  | comment => exact .pure _
  | header => exact .pure _
  | unknown => exact .bind (.note _) fun _ => .pure _

private theorem apply_leaves {token : Token} (h : token.isIdle) (pending : Step α)
    (last : Coord α) : (apply setting pending last token).Leaves (.skip, pending) := by
  intro s
  unfold apply
  unfold Token.isIdle Token.command at h
  cases hc : Command.ofText token.text with
  | imageTransform name identity => exact ⟨_, rfl, rfl, rfl⟩
  | ignored name => exact ⟨_, rfl, rfl, rfl⟩
  | comment => exact ⟨s, rfl, .refl s⟩
  | header => exact ⟨s, rfl, .refl s⟩
  | unknown => exact ⟨_, rfl, rfl, rfl⟩
  | _ =>
    rw [hc] at h
    cases h

private theorem advance_essential (cursor : Cursor α) (tokens : List Token) :
    (advance setting cursor tokens).Alike (advance setting cursor (essential tokens)) := by
  induction tokens generalizing cursor with
  | nil => exact .pure _
  | cons token rest ih =>
    by_cases hidle : token.isIdle
    · rw [essential_cons_idle hidle, advance]
      have hleaves := (apply_leaves setting hidle cursor.pending cursor.last.coord).located
        token.line token.text
      exact .skip hleaves (ih cursor)
    have happly := (apply_alike setting cursor.pending cursor.last.coord token).located
      token.line token.text
    by_cases hstop : token.isStop
    · -- what follows the stop is never reached
      rw [essential_cons_stop hstop, advance, advance]
      refine happly.bind_of_yields fun s result t hrun => ?_
      obtain ⟨outcome, step⟩ := result
      obtain rfl := (effect_of_apply (Run.yields_located.mp hrun)).stop_iff.mpr hstop
      simp only
      split
      · exact .skip (Run.Quiet.note _).leaves (.pure _)
      · exact .pure _
    · rw [essential_cons hstop hidle, advance, advance]
      refine happly.bind_of_yields fun s result t hrun => ?_
      obtain ⟨outcome, step⟩ := result
      have heffect := effect_of_apply (Run.yields_located.mp hrun)
      cases outcome with
      | next => exact ih { cursor with pending := step }
      | skip => exact ih { cursor with pending := step }
      | complete => exact ih (cursor.complete step)
      | stop => exact absurd (heffect.stop_iff.mp rfl) hstop

private theorem compile_alike (tokens : List Token) :
    (compile setting tokens).Alike (compile setting (essential tokens)) := by
  refine .bind (advance_essential setting .initial tokens) fun (cursor, stopped) => ?_
  have hend : (do
      if cursor.pending.region.isSome then
        if ← Run.isRegionOpen cursor.pending.region then Run.note .regionLeftOpen
      pure ⟨cursor.steps, stopped⟩ : Run α (Compiled α)).Alike (do
      if cursor.pending.region.isSome then
        if ← Run.isRegionOpen cursor.pending.region then Run.note .regionLeftOpen
      pure ⟨cursor.steps, stopped⟩) := by
    refine .ite (.bind (.isRegionOpen _) fun _ => .ite (.bind (.note _) fun _ => ?_) ?_) ?_
    all_goals exact .pure _
  simp only
  cases cursor.pending.stepRepeat with
  | none => exact hend
  | some block => exact .bind (.closeRepeat block) fun _ => hend

/-- Only the essential commands of a stream matter.  Wherever idle commands stand, and whatever
follows the stop, the stream is compiled into the same steps or fails with the same error, and
leaves the same regions and step-and-repeat blocks. -/
theorem compile_essential (tokens : List Token) (s : Session α) :
    ((compile setting (essential tokens)).outcome s).1 = ((compile setting tokens).outcome s).1 ∧
      ((compile setting tokens).outcome s).2.SameBooks
        ((compile setting (essential tokens)).outcome s).2 :=
  compile_alike setting tokens s s (.refl s)

end Stream

end Gerber
