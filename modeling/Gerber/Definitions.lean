import Gerber.Stream

/-!
# Definitions

Definitions are taken out of the commands of a file before its main stream is compiled.  They hold
for the whole file: a definition between the opening and closing command of an aperture block is
no part of the block.  All other commands belong to the innermost open block, or to the main
stream if none is open.
-/

namespace Gerber

/-- An aperture block that has not been closed: its code, the line it was opened on, and its
commands so far, of which the latest comes first. -/
structure OpenBlock where
  code : Nat
  startLine : Nat
  body : List Token

/-- What has been taken from the commands so far: macros, apertures, the open blocks with the
innermost in front, and the main stream with its latest command in front. -/
structure Definitions (α : Type) where
  macros : Macros α
  apertures : Apertures α
  openBlocks : List OpenBlock
  stream : List Token

inductive DefinitionKind where
  /-- The format and the units, which are read in advance. -/
  | header
  | apertureMacro
  | aperture
  | block
deriving DecidableEq

/-- The kind of definition that a command is. -/
def DefinitionKind.ofText? (t : Text) : Option DefinitionKind :=
  if t.startsWith "%FS".toList || t.startsWith "%MO".toList then some header
  else if t.startsWith "%AM".toList then some apertureMacro
  else if t.startsWith "%AD".toList then some aperture
  else if t.startsWith "%AB".toList then some block
  else none

namespace Definitions

variable {α : Type}

def empty : Definitions α := ⟨.empty, .empty, [], []⟩

/-- Hands a command on to the innermost open block or to the main stream. -/
def pass (d : Definitions α) (token : Token) : Definitions α :=
  match d.openBlocks with
  | [] => { d with stream := token :: d.stream }
  | block :: outer =>
    { d with openBlocks := { block with body := token :: block.body } :: outer }

/-- Defines an aperture.  It is worth a notice if its code is in use. -/
def define (d : Definitions α) (a : Aperture α) (line : Nat) : Run α (Definitions α) := do
  if (d.apertures.get? a.code).isSome then Run.note (.apertureRedefined a.code line)
  pure { d with apertures := d.apertures.define a }

variable [Scalar α]

/-- Closes the innermost open block: its commands are compiled with the apertures defined so far,
and it becomes an aperture itself. -/
def closeBlock (format : Format) (tolerance : α) (d : Definitions α) :
    Run α (Definitions α) :=
  match d.openBlocks with
  | [] => Run.fail (.apertureBlock .notOpen)
  | block :: outer => do
    let body := block.body.reverse
    let compiled ← Stream.compile ⟨format, d.apertures, tolerance⟩ body
    Run.note (.blockCompiled block.code (compiled.steps.length - 1))
    define { d with openBlocks := outer }
      ⟨block.code, .block ⟨block.startLine, body, compiled.steps⟩⟩ block.startLine

def direct (format : Format) (tolerance : α) (d : Definitions α) (token : Token) :
    Run α (Definitions α) := do
  match ← Run.ofExcept ((BlockDirective.ofCommand token.text).mapError .apertureBlock) with
  | .opening code => pure { d with openBlocks := ⟨code, token.line, []⟩ :: d.openBlocks }
  | .closing => closeBlock format tolerance d

def take (format : Format) (tolerance : α) (d : Definitions α) (token : Token) :
    Run α (Definitions α) :=
  match DefinitionKind.ofText? token.text with
  | none => pure (d.pass token)
  | some .header => pure d
  | some .apertureMacro => do
    let m ← Run.ofExcept ((ApertureMacro.ofCommand token.text).mapError .apertureMacro)
    pure { d with macros := d.macros.define m }
  | some .aperture => do
    let a ← Run.ofExcept (Aperture.ofCommand token.text format d.macros)
    d.define a token.line
  | some .block => d.direct format tolerance token

/-- Takes commands in order; a failure lies at the command that is taken. -/
def takeAll (format : Format) (tolerance : α) (d : Definitions α) :
    List Token → Run α (Definitions α)
  | [] => pure d
  | token :: rest => do
    let d ← Run.located token.line token.text (d.take format tolerance token)
    takeAll format tolerance d rest

omit [Scalar α] in
/-- Fails if a block is still open. -/
def finish (d : Definitions α) : Run α Unit :=
  match d.openBlocks with
  | [] => pure ()
  | block :: _ =>
    Run.located block.startLine ("%ABD".toList ++ Text.ofNat block.code ++ "*%".toList)
      (Run.fail (.unterminatedBlock block.code))

/-- Takes all commands of a file. -/
def ofTokens (format : Format) (tolerance : α) (tokens : List Token) :
    Run α (Definitions α) := do
  let d ← takeAll format tolerance empty tokens
  d.finish
  pure d

end Definitions

end Gerber
