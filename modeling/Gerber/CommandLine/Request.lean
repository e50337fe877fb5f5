import Gerber.Program
import Gerber.Scalar.Float

/-!
# Requests

The arguments of the command line.  They are read from left to right, and the first thing that is
wrong, or that asks for help, decides.
-/

namespace Gerber

/-- What the program is asked to do: the file to compile, the file to write if not the standard
output, the layout of the report, and the options of the compilation. -/
structure Request where
  input : Text
  output : Option Text
  pretty : Bool
  steps : Bool
  options : Options Float

/-- Why arguments are no request. -/
inductive Usage where
  | help
  | mistake
deriving DecidableEq

namespace Request

/-- An option that takes no value. -/
inductive Flag where
  | pretty
  | steps
  | requireStop
deriving DecidableEq

/-- An option that takes a value. -/
inductive Setting where
  | output
  | tolerance
  | maxPasses
deriving DecidableEq

def flags : List (Text × Flag) :=
  [("pretty".toList, .pretty), ("steps".toList, .steps), ("require-stop".toList, .requireStop)]

def settings : List (Text × Setting) :=
  [("output".toList, .output), ("region-tolerance".toList, .tolerance),
    ("max-unwind-passes".toList, .maxPasses)]

/-- The arguments read so far, none of which may come twice.  `awaiting` is a setting whose value
comes next; `plain` tells that no option can follow. -/
structure Draft where
  input : Option Text
  output : Option Text
  pretty : Bool
  steps : Bool
  requireStop : Bool
  tolerance : Option Float
  maxPasses : Option Nat
  awaiting : Option Setting
  plain : Bool

def fill {β : Type} (field : Option β) (value : Option β) : Except Usage (Option β) :=
  match field, value with
  | none, some value => .ok (some value)
  | _, _ => .error .mistake

def path? (t : Text) : Option Text := if t.isEmpty then none else some t

namespace Draft

def empty : Draft := ⟨none, none, false, false, false, none, none, none, false⟩

def raise (d : Draft) : Flag → Except Usage Draft
  | .pretty => if d.pretty then .error .mistake else .ok { d with pretty := true }
  | .steps => if d.steps then .error .mistake else .ok { d with steps := true }
  | .requireStop =>
    if d.requireStop then .error .mistake else .ok { d with requireStop := true }

/-- Gives a setting its value. -/
def assign (d : Draft) (setting : Setting) (value : Text) : Except Usage Draft :=
  match setting with
  | .output => (fill d.output (path? value)).map fun output => { d with output }
  | .tolerance =>
    (fill d.tolerance (Scalar.ofText? value)).map fun tolerance => { d with tolerance }
  | .maxPasses =>
    (fill d.maxPasses (Text.natural? (Nat.pow 2 64) value)).map fun maxPasses =>
      { d with maxPasses }

/-- Takes an argument that is no option: the file to compile. -/
def place (d : Draft) (value : Text) : Except Usage Draft :=
  (fill d.input (path? value)).map fun input => { d with input }

/-- Reads an option by its full name, with its value after an equals sign if it has one. -/
def readLong (d : Draft) (name : Text) (value : Option Text) : Except Usage Draft :=
  match flags.lookup name, settings.lookup name, value with
  | some flag, _, none => d.raise flag
  | _, some setting, some value => d.assign setting value
  | _, some setting, none => .ok { d with awaiting := some setting }
  | _, _, none => .error (if name = "help".toList then .help else .mistake)
  | _, _, some _ => .error .mistake

/-- Reads options by their letters.  The letter of the output takes the rest of the argument as
its value, without an equals sign in front, or the next argument if there is no rest. -/
def readShort (d : Draft) (letters : Text) : Except Usage Draft :=
  match letters with
  | ['o'] => .ok { d with awaiting := some .output }
  | 'o' :: '=' :: value => d.assign .output value
  | 'o' :: value => d.assign .output value
  | 'h' :: _ => .error .help
  | _ => .error .mistake

/-- Reads an argument that is no value of a setting.  After two hyphens none is an option. -/
def readFree (d : Draft) (argument : Text) : Except Usage Draft :=
  if d.plain then d.place argument
  else
    match argument with
    | ['-', '-'] => .ok { d with plain := true }
    | '-' :: '-' :: long =>
      match Text.cut? long '=' with
      | some (name, value) => d.readLong name (some value)
      | none => d.readLong long none
    | ['-'] => d.place argument
    | '-' :: letters => d.readShort letters
    | _ => d.place argument

/-- Reads an argument.  The value of a setting must not look like an option. -/
def read (d : Draft) (argument : Text) : Except Usage Draft :=
  match d.awaiting with
  | none => d.readFree argument
  | some setting =>
    if argument.head? == some '-' && argument != ['-'] then .error .mistake
    else assign { d with awaiting := none } setting argument

end Draft

def ofArguments (arguments : List Text) : Except Usage Request := do
  let d ← arguments.foldlM Draft.read Draft.empty
  match d.input, d.awaiting with
  | some input, none =>
    let standard : Options Float := .standard
    .ok
      { input
        output := d.output
        pretty := d.pretty
        steps := d.steps
        options :=
          { tolerance := d.tolerance.getD standard.tolerance
            maxPasses := d.maxPasses.getD standard.maxPasses
            requireStop := d.requireStop } }
  | _, _ => .error .mistake

end Request

end Gerber
