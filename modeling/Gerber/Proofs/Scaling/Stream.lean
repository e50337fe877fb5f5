import Gerber.Proofs.Scaling.Apertures
import Gerber.Proofs.Scaling.Run
import Gerber.Proofs.Stream.Effect

/-!
# Scaling of streams

A stream that is read in inches is compiled into the steps that it is compiled into when it is read
in millimetres, with all their places multiplied.
-/

namespace Gerber

variable {α : Type} [Scalar α]

def Setting.inInches (setting : Setting α) : Setting α :=
  ⟨setting.format.inInches, setting.apertures.scale inch, setting.tolerance⟩

def Compiled.scale (c : Compiled α) (k : α) : Compiled α :=
  { c with steps := c.steps.map (·.scale k) }

namespace Stream

def Cursor.scale (cursor : Cursor α) (k : α) : Cursor α :=
  ⟨cursor.completed.map (·.scale k), cursor.pending.scale k⟩

namespace Cursor

variable {k : α}

private theorem scale_initial (hk : Exact k) : (initial : Cursor α).scale k = initial := by
  simp only [scale, initial, List.map_nil, Step.scale_successor hk, Step.scale_root hk]

private theorem last_scale (hk : Exact k) (cursor : Cursor α) :
    (cursor.scale k).last = cursor.last.scale k := by
  unfold last scale
  cases cursor.completed with
  | nil => exact (Step.scale_root hk).symm
  | cons step rest => rfl

private theorem steps_scale (hk : Exact k) (cursor : Cursor α) :
    (cursor.scale k).steps = cursor.steps.map (·.scale k) := by
  simp [steps, scale, Step.scale_root hk]

private theorem scale_complete (hk : Exact k) (cursor : Cursor α) (step : Step α) :
    (cursor.complete step).scale k = (cursor.scale k).complete (step.scale k) := by
  simp only [scale, complete, List.map_cons, Step.scale_successor hk]
  rfl

end Cursor

variable {setting : Setting α} (hk : Exact (inch : α)) (h : setting.format.units = .millimeters)

include hk h

private theorem operate_inInches (pending : Step α) (last : Coord α) (line : Nat) (body : Text)
    (action : Action) :
    Run.Scaled inch (Prod.map id (·.scale inch)) (operate setting pending last line body action)
      (operate setting.inInches (pending.scale inch) (last.scale inch) line body action) := by
  have hbody : Coord.ofBody setting.inInches.format (some (last.scale inch)) body =
      (Coord.ofBody setting.format (some last) body).map (·.scale inch) :=
    Coord.ofBody_inInches hk h (some last) body
  rw [operate_eq, operate_eq]
  refine .bind (.ofExcept hbody) fun coord => ?_
  refine .bind (.forSome _ fun region => .addVertex region coord) fun _ => ?_
  refine .bind (.forSome _ fun block => .adjustRepeat block 1) fun _ => ?_
  exact .pure _ _

omit hk h in
private theorem openRegion_inInches (pending : Step α) (line : Nat) :
    Run.Scaled inch (Prod.map id (·.scale inch))
      (do
        let region ← Run.openRegion line
        pure (Outcome.next, { pending with region := some region }) : Run α (Outcome × Step α))
      (do
        let region ← Run.openRegion line
        pure (Outcome.next, { pending.scale inch with region := some region })) :=
  .bind (.openRegion line) fun _ => .pure _ _

private theorem openRepeat_inInches (pending : Step α) (token : Token) :
    Run.Scaled inch (Prod.map id (·.scale inch))
      (do
        let block ← Run.ofExcept
          ((StepRepeat.ofCommand token.text setting.format token.line).mapError .stepRepeat)
        let id ← Run.openRepeat block
        pure (Outcome.next, { pending with stepRepeat := some id }) : Run α (Outcome × Step α))
      (do
        let block ← Run.ofExcept
          ((StepRepeat.ofCommand token.text setting.inInches.format token.line).mapError
            .stepRepeat)
        let id ← Run.openRepeat block
        pure (Outcome.next, { pending.scale inch with stepRepeat := some id })) := by
  have hblock : (StepRepeat.ofCommand token.text setting.inInches.format token.line :
      Except StepRepeatFault (StepRepeat α)) =
        (StepRepeat.ofCommand token.text setting.format token.line).map (·.scale inch) :=
    StepRepeat.ofCommand_inInches hk h token.text token.line
  rw [hblock, Except.map_mapError]
  exact .bind (.ofExcept rfl) fun block => .bind (.openRepeat block) fun _ => .pure _ _

/-- A command does the same to the pending step and to the books, whatever the units. -/
private theorem apply_inInches (pending : Step α) (last : Coord α) (token : Token) :
    Run.Scaled inch (Prod.map id (·.scale inch)) (apply setting pending last token)
      (apply setting.inInches (pending.scale inch) (last.scale inch) token) := by
  unfold apply
  cases Command.ofText token.text with
  | interpolation mode => exact .pure _ _
  | polarity polarity => exact .pure _ _
  | quadrant mode => exact .pure _ _
  | regionBegin =>
    simp only [Step.scale_region]
    have hopen := openRegion_inInches pending token.line
    refine .ite (.bind (.isRegionOpen _) fun answer => ?_) hopen
    exact .ite (.bind (.note _ _) fun _ => hopen) hopen
  | regionEnd => exact .bind (.closeRegion _ _ _) fun _ => .pure _ _
  | operation body action => exact operate_inInches hk h pending last token.line body action
  | select code => exact .bind (.ofExcept (Apertures.lookup_scale _ _)) fun _ => .pure _ _
  | stepRepeatOpen =>
    simp only [Step.scale_stepRepeat]
    have hopen := openRepeat_inInches hk h pending token
    cases pending.stepRepeat with
    | none => exact hopen
    | some block => exact .bind (.closeRepeat block) fun _ => hopen
  | stepRepeatClose =>
    simp only [Step.scale_stepRepeat]
    cases pending.stepRepeat with
    | none => exact .bind (.note _ _) fun _ => .pure _ _
    | some block => exact .bind (.closeRepeat block) fun _ => .pure _ _
  | stop =>
    simp only [Step.scale_stepRepeat]
    cases pending.stepRepeat with
    | none => exact .pure _ _
    | some block => exact .bind (.closeRepeat block) fun _ => .pure _ _
  | imageTransform name identity => exact .bind (.note _ _) fun _ => .pure _ _
  | ignored name => exact .bind (.note _ _) fun _ => .pure _ _
  | comment => exact .pure _ _
  | header => exact .pure _ _
  | unknown => exact .bind (.note _ _) fun _ => .pure _ _

private theorem advance_inInches (cursor : Cursor α) (tokens : List Token) :
    Run.Scaled inch (Prod.map (·.scale inch) id) (advance setting cursor tokens)
      (advance setting.inInches (cursor.scale inch) tokens) := by
  induction tokens generalizing cursor with
  | nil => exact .pure _ _
  | cons token rest ih =>
    have happly := apply_inInches hk h cursor.pending cursor.last.coord token
    have hlast : (cursor.scale inch).last.coord = cursor.last.coord.scale inch := by
      rw [Cursor.last_scale hk]
      rfl
    rw [advance, advance, hlast]
    refine .bind (.located happly _ _) fun result => ?_
    obtain ⟨outcome, step⟩ := result
    cases outcome with
    | next => exact ih { cursor with pending := step }
    | skip => exact ih { cursor with pending := step }
    | complete =>
      have hcomplete := ih (cursor.complete step)
      rwa [Cursor.scale_complete hk] at hcomplete
    | stop => exact .ite (.bind (.note _ _) fun _ => .pure _ _) (.pure _ _)

variable (setting) in
/-- A stream is compiled into the same steps, with all their places multiplied. -/
theorem compile_inInches (tokens : List Token) :
    Run.Scaled inch (·.scale inch) (compile setting tokens) (compile setting.inInches tokens) := by
  have hadvance := advance_inInches hk h .initial tokens
  rw [Cursor.scale_initial hk] at hadvance
  refine .bind hadvance fun (cursor, stopped) => ?_
  have hpending : (cursor.scale inch).pending = cursor.pending.scale inch := rfl
  have hdone : Run.Scaled inch (·.scale inch) (pure ⟨cursor.steps, stopped⟩ : Run α (Compiled α))
      (pure ⟨(cursor.scale inch).steps, stopped⟩) := by
    rw [Cursor.steps_scale hk]
    exact .pure _ _
  have hend : Run.Scaled inch (·.scale inch)
      (do
        if cursor.pending.region.isSome then
          if ← Run.isRegionOpen cursor.pending.region then Run.note .regionLeftOpen
        pure ⟨cursor.steps, stopped⟩ : Run α (Compiled α))
      (do
        if cursor.pending.region.isSome then
          if ← Run.isRegionOpen cursor.pending.region then Run.note .regionLeftOpen
        pure ⟨(cursor.scale inch).steps, stopped⟩) :=
    .ite (.bind (.isRegionOpen _) fun _ => .ite (.bind (.note _ _) fun _ => hdone) hdone) hdone
  simp only [Prod.map, id, hpending, Step.scale_region, Step.scale_stepRepeat]
  cases cursor.pending.stepRepeat with
  | none => exact hend
  | some block => exact .bind (.closeRepeat block) fun _ => hend

end Stream

end Gerber
