import Gerber.Definitions
import Gerber.Extents
import Gerber.Grid
import Gerber.Inlining

/-!
# Programs

A file is compiled into a flat list of steps: its definitions are taken out, the remaining
commands are compiled, flashes of aperture blocks are replaced by the steps of the blocks, and the
runs of step-and-repeat blocks by their copies.
-/

namespace Gerber

/-- What a compilation can be asked for: the gap up to which a contour counts as closed, the
number of inlining passes, and whether a file without a stop command is refused. -/
structure Options (α : Type) where
  tolerance : α
  maxPasses : Nat
  requireStop : Bool

/-- The options in force when none are given. -/
def Options.standard {α : Type} [Scalar α] : Options α := ⟨Scalar.decimal 1 (-6), 64, false⟩

/-- A compiled file; the first of its `unwound` steps is the root step. -/
structure Program (α : Type) where
  format : Format
  macros : Macros α
  apertures : Apertures α
  regions : List (Region α)
  stepRepeats : List (StepRepeat α)
  extents : Extents α
  stopped : Bool
  unwound : List (Step α)

/-- How many steps there are of each action. -/
structure ActionCounts where
  draws : Nat
  moves : Nat
  flashes : Nat
  stops : Nat
deriving DecidableEq

namespace Program

variable {α : Type}

def steps (p : Program α) : List (Step α) := p.unwound.tail

def countOf (p : Program α) (action : Action) : Nat :=
  p.steps.countP fun s => s.action = action

def actionCounts (p : Program α) : ActionCounts where
  draws := p.countOf .draw
  moves := p.countOf .move
  flashes := p.countOf .flash
  stops := p.countOf .stop

def firstWith? (lead : Text) (tokens : List Token) : Option Token :=
  tokens.find? fun token => token.text.startsWith lead

/-- The command that a failure of the two format commands lies at: the unit command for bad units
if there is one, and else the format command. -/
def formatCulprit (fs : Token) (mo : Option Token) : Fault → Token
  | .units _ => mo.getD fs
  | _ => fs

/-- The format of a file, from commands anywhere in it. -/
def findFormat (tokens : List Token) : Run α Format :=
  match firstWith? "%FS".toList tokens with
  | none => Run.fail .missingFormat
  | some fs =>
    let mo := firstWith? "%MO".toList tokens
    match Format.ofCommands fs.text ((mo.map Token.text).getD []) with
    | .ok format => pure format
    | .error fault =>
      let culprit := formatCulprit fs mo fault
      Run.located culprit.line culprit.text (Run.fail fault)

variable [Scalar α]

/-- Replaces block flashes and step-and-repeat runs, and numbers the steps anew. -/
def unwind (apertures : Apertures α) (limit : Nat) (steps : List (Step α)) :
    Run α (List (Step α)) := do
  let inlined ← Inlining.inline apertures limit steps
  let s ← get
  let expanded ← Run.ofExcept (Grid.expand s.stepRepeats inlined)
  pure (Grid.renumber expanded)

/-- Compiles the commands of a file. -/
def ofTokens (options : Options α) (tokens : List Token) : Run α (Program α) := do
  Run.note (.tokenized tokens.length)
  let format ← findFormat tokens
  Run.note (.format format.integerDigits format.decimalDigits format.units.title)
  let definitions ← Definitions.ofTokens format options.tolerance tokens
  let apertures := definitions.apertures
  let stream := definitions.stream.reverse
  Run.note (.inventory definitions.macros.size apertures.size stream.length)
  let compiled ← Stream.compile ⟨format, apertures, options.tolerance⟩ stream
  if !compiled.stopped then
    if options.requireStop then Run.fail .missingStop
    Run.note .endsWithoutStop
  let steps ← unwind apertures options.maxPasses compiled.steps
  Run.note (.unwound (steps.length - 1))
  let s ← get
  pure
    { format
      macros := definitions.macros
      apertures
      regions := s.regions.regions
      stepRepeats := s.stepRepeats.blocks
      extents := Extents.ofSteps steps.tail
      stopped := compiled.stopped
      unwound := steps }

/-- Compiles a file.  The notices come with the result, whether it is a program or an error. -/
def ofBytes (options : Options α) (bytes : List UInt8) :
    Except Error (Program α) × List Notice :=
  let (result, session) := (ofTokens options (Token.ofBytes bytes)).run.run .initial
  (result, session.notices)

end Program

end Gerber
