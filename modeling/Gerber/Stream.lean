import Gerber.Aperture
import Gerber.Command
import Gerber.Coord.Body
import Gerber.Session

/-!
# Command streams

A command stream is compiled into steps.  Commands change the modal state of a pending step; an
operation completes it and the next one starts from its modal state.
-/

namespace Gerber

/-- What a stream is compiled with. -/
structure Setting (α : Type) where
  format : Format
  apertures : Apertures α
  tolerance : α

/-- What a command did to the pending step. -/
inductive Outcome where
  /-- The modal state changed. -/
  | next
  /-- The step is complete. -/
  | complete
  /-- The stream ends here. -/
  | stop
  /-- The command had no effect. -/
  | skip
deriving DecidableEq

/-- The steps of a stream, the root step first, and whether it ended with a stop command. -/
structure Compiled (α : Type) where
  steps : List (Step α)
  stopped : Bool

namespace Stream

variable {α : Type} [Scalar α]

/-- Completes the pending step with an operation at the coordinate that `body` writes. -/
def operate (setting : Setting α) (pending : Step α) (last : Coord α) (line : Nat) (body : Text)
    (action : Action) : Run α (Outcome × Step α) := do
  let coord ← Run.ofExcept (Coord.ofBody setting.format (some last) body)
  if let some id := pending.region then Run.addVertex id coord
  if let some id := pending.stepRepeat then Run.adjustRepeat id 1
  pure (.complete, { pending with prev := last, coord, action, line })

/-- Applies one command to the pending step; `last` is the coordinate of the last step. -/
def apply (setting : Setting α) (pending : Step α) (last : Coord α) (token : Token) :
    Run α (Outcome × Step α) := do
  match Command.ofText token.text with
  | .interpolation mode => pure (.next, { pending with interpolation := mode })
  | .polarity polarity => pure (.next, { pending with polarity })
  | .quadrant mode => pure (.next, { pending with quadrant := mode })
  | .regionBegin =>
    if pending.region.isSome then
      if ← Run.isRegionOpen pending.region then Run.note (.regionReopened token.line)
    let id ← Run.openRegion token.line
    pure (.next, { pending with region := some id })
  | .regionEnd =>
    Run.closeRegion pending.region token.line setting.tolerance
    pure (.next, { pending with region := none })
  | .operation body action => operate setting pending last token.line body action
  | .select code =>
    let _ ← Run.ofExcept (setting.apertures.lookup code)
    pure (.next, { pending with aperture := some code })
  | .stepRepeatOpen =>
    if let some id := pending.stepRepeat then Run.closeRepeat id
    let block ← Run.ofExcept
      ((StepRepeat.ofCommand token.text setting.format token.line).mapError .stepRepeat)
    let id ← Run.openRepeat block
    pure (.next, { pending with stepRepeat := some id })
  | .stepRepeatClose =>
    match pending.stepRepeat with
    | some id => Run.closeRepeat id
    | none => Run.note (.repeatNotOpen token.line)
    pure (.next, { pending with stepRepeat := none })
  | .stop =>
    if let some id := pending.stepRepeat then Run.closeRepeat id
    pure (.stop,
      { pending with
        stepRepeat := none, prev := last, coord := last, action := .stop, line := token.line })
  | .imageTransform name identity =>
    Run.note
      (if identity then .ignoredTransform name token.line
        else .droppedTransform name token.line)
    pure (.skip, pending)
  | .ignored name =>
    Run.note (.ignoredCommand name token.line)
    pure (.skip, pending)
  | .comment => pure (.skip, pending)
  | .header => pure (.skip, pending)
  | .unknown =>
    Run.note (.unrecognized token.text token.line)
    pure (.skip, pending)

/-- A stream at work: the completed steps after the root step, the latest first, and the pending
step. -/
structure Cursor (α : Type) where
  completed : List (Step α)
  pending : Step α

namespace Cursor

def initial : Cursor α := ⟨[], Step.root.successor 1⟩

def last (cursor : Cursor α) : Step α := cursor.completed.headD Step.root

def steps (cursor : Cursor α) : List (Step α) := Step.root :: cursor.completed.reverse

def complete (cursor : Cursor α) (step : Step α) : Cursor α :=
  ⟨step :: cursor.completed, step.successor (step.number + 1)⟩

end Cursor

/-- Applies the commands up to and including the first stop command. -/
def advance (setting : Setting α) (cursor : Cursor α) :
    List Token → Run α (Cursor α × Bool)
  | [] => pure (cursor, false)
  | token :: rest => do
    let (outcome, step) ←
      Run.located token.line token.text (apply setting cursor.pending cursor.last.coord token)
    match outcome with
    | .next => advance setting { cursor with pending := step } rest
    | .skip => advance setting { cursor with pending := step } rest
    | .complete => advance setting (cursor.complete step) rest
    | .stop =>
      if !rest.isEmpty then Run.note (.ignoredAfterStop rest.length token.line)
      pure (⟨step :: cursor.completed, step⟩, true)

/-- Compiles a stream, starting from the root step. -/
def compile (setting : Setting α) (tokens : List Token) : Run α (Compiled α) := do
  let (cursor, stopped) ← advance setting .initial tokens
  if let some id := cursor.pending.stepRepeat then Run.closeRepeat id
  if cursor.pending.region.isSome then
    if ← Run.isRegionOpen cursor.pending.region then Run.note .regionLeftOpen
  pure ⟨cursor.steps, stopped⟩

end Stream

end Gerber
