import Gerber.Primitive
import Gerber.Text.Digits

/-!
# Errors

Everything that can go wrong when a file is compiled.  A fault is a cause; an error is a fault
with the command it was found in, if one is known.
-/

namespace Gerber

/-- What is wrong with the digit counts of a format command. -/
inductive FormatFault where
  | malformed
  | different (xInteger xDecimal yInteger yDecimal : Nat)
  | outOfRange (integer decimal : Nat)
deriving DecidableEq

/-- What is wrong with a coordinate. -/
inductive CoordinateFault where
  | notANumber (numeral : Text)
  | tooManyDigits (numeral : Text)
  | noEnd (body : Text)
  | unexpectedLetter (letter : Char) (body : Text)
  | doesNotFit (shown : Text) (integer decimal : Nat)
deriving DecidableEq

/-- What is wrong with the text of an aperture definition. -/
inductive DefinitionFault where
  | malformed
  | badCode
  | reservedCode
  | noTemplate
  | badParameter
  | circleParameters
  | rectangleParameters
  | polygonParameters
  | polygonVertices
deriving DecidableEq

/-- What is wrong with the shape of an aperture. -/
inductive ApertureFault where
  | definition (why : DefinitionFault) (source : Text)
  | missingModifiers (primitive : Primitive) (needed given : Nat)
  | outlineVertices (shown : Text) (given : Nat)
deriving DecidableEq

/-- What is wrong with the definition of an aperture macro. -/
inductive MacroFault where
  | missingName (source : Text)
  | missingTerminator (source : Text)
  | badAssignment (line : Text)
  | badPrimitiveCode (field : Text)
  | unknownPrimitive (code : Nat)
deriving DecidableEq

/-- What is wrong with a macro expression. -/
inductive ExpressionFault where
  | unbalanced (expression : Text)
  | unbound (name expression : Text)
  | unboundModifier (name : Text)
  | badNumber (literal expression : Text)
  | unexpected (character : Char) (expression : Text)
  | divisionByZero (expression : Text)
  | missingOperator (expression : Text)
  | missingOperand (expression : Text)
deriving DecidableEq

/-- What is wrong with a step-and-repeat block. -/
inductive StepRepeatFault where
  | notACommand (source : Text)
  | badField (key : Char) (source : Text)
  | zeroRepeat (source : Text)
  | negativeStep (source : Text)
  | negativeCount (id : Text)
  | shortRun (id : Text) (line steps remaining : Nat)
  | brokenRun (id : Text) (line : Nat)
deriving DecidableEq

/-- What is wrong with an aperture block command. -/
inductive BlockFault where
  | malformed (source : Text)
  | badCode (source : Text)
  | notOpen
deriving DecidableEq

/-- Why a file or another place of output is of no use. -/
inductive StorageFault where
  | notFound
  | isDirectory
  | notADirectory
  | nameTooLong
  | tooManyLinks
  | noDevice
  | zeroInName
  | noSpace
  | full
  | other (reason : Text)
deriving DecidableEq

/-- The cause of a failure. -/
inductive Fault where
  | missingFormat
  | format (why : FormatFault) (source : Text)
  | trailingZeros (source : Text)
  | incrementalCoordinates (source : Text)
  | units (source : Text)
  | coordinate (why : CoordinateFault)
  | aperture (why : ApertureFault)
  | apertureNotFound (code : Nat)
  | macroNotFound (name : Text)
  | apertureMacro (why : MacroFault)
  | expression (why : ExpressionFault)
  | regionNotOpen
  | stepRepeat (why : StepRepeatFault)
  | stepRepeatNotOpen (id : Nat)
  | apertureBlock (why : BlockFault)
  | unterminatedBlock (code : Nat)
  | unwindLimit (passes : Nat)
  | missingStop
  | storage (why : StorageFault)
  | record (why : StorageFault)
deriving DecidableEq

namespace FormatFault

def message (source : Text) : FormatFault → String
  | malformed => source.string
  | different xi xd yi yd => s!"{source.string}: X{xi}{xd} and Y{yi}{yd} differ"
  | outOfRange i d => s!"{source.string}: digit counts {i}.{d} out of range"

end FormatFault

namespace CoordinateFault

def message : CoordinateFault → String
  | notANumber numeral => s!"not a number: '{numeral.string}'"
  | tooManyDigits numeral => s!"too many digits: '{numeral.string}'"
  | noEnd body => s!"missing D in '{body.string}'"
  | unexpectedLetter letter body => s!"unexpected '{letter}' in '{body.string}'"
  | doesNotFit shown i d => s!"{shown.string} mm does not fit {i}.{d} digits"

end CoordinateFault

namespace DefinitionFault

def message : DefinitionFault → String
  | malformed => "malformed"
  | badCode => "bad aperture code"
  | reservedCode => "D-codes below 10 are reserved"
  | noTemplate => "no template"
  | badParameter => "bad parameter"
  | circleParameters => "circle takes diameter[Xhole]"
  | rectangleParameters => "rectangle/obround takes x_size Xy_size[Xhole]"
  | polygonParameters => "polygon takes diameter Xvertices[Xrotation[Xhole]]"
  | polygonVertices => "polygon needs 3 to 12 vertices"

end DefinitionFault

namespace ApertureFault

def message : ApertureFault → String
  | definition why source => s!"{why.message}: {source.string}"
  | missingModifiers primitive needed given =>
    s!"{primitive.title} primitive needs {needed} modifiers, got {given}"
  | outlineVertices shown given =>
    s!"outline vertex count {shown.string} does not fit {given} modifiers"

end ApertureFault

namespace MacroFault

def message : MacroFault → String
  | missingName source => s!"macro definition does not start with %AM: {source.string}"
  | missingTerminator source => s!"macro definition is not terminated by %: {source.string}"
  | badAssignment line => s!"variable assignment without '=': {line.string}"
  | badPrimitiveCode field => s!"non-numeric primitive code: {field.string}"
  | unknownPrimitive code => s!"unknown primitive code {code}"

def code : MacroFault → Nat
  | missingName _ => 33
  | missingTerminator _ => 34
  | badAssignment _ => 35
  | badPrimitiveCode _ => 36
  | unknownPrimitive _ => 37

end MacroFault

namespace ExpressionFault

def message : ExpressionFault → String
  | unbalanced expression => s!"unbalanced parentheses: {expression.string}"
  | unbound name expression => s!"unbound variable ${name.string} in: {expression.string}"
  | unboundModifier name => s!"unbound variable ${name.string}"
  | badNumber literal expression => s!"bad number {literal.string} in: {expression.string}"
  | unexpected character expression => s!"unexpected '{character}' in: {expression.string}"
  | divisionByZero expression => s!"division by zero in: {expression.string}"
  | missingOperator expression => s!"missing operator in: {expression.string}"
  | missingOperand expression => s!"missing operand in: {expression.string}"

end ExpressionFault

namespace StepRepeatFault

def message : StepRepeatFault → String
  | notACommand source => s!"not an %SR command: {source.string}"
  | badField key source => s!"bad {key} value in: {source.string}"
  | zeroRepeat source => s!"repeat counts must be at least 1: {source.string}"
  | negativeStep source => s!"negative step distance: {source.string}"
  | negativeCount id => s!"step count of block {id.string} went negative"
  | shortRun id line steps remaining =>
    s!"block {id.string} at line {line} spans {steps} steps but only {remaining} remain"
  | brokenRun id line =>
    s!"block {id.string} at line {line} does not cover a contiguous run of steps"

end StepRepeatFault

namespace BlockFault

def message : BlockFault → String
  | malformed source => s!"malformed: {source.string}"
  | badCode source => s!"bad block code: {source.string}"
  | notOpen => "%AB close without open block"

end BlockFault

namespace StorageFault

def message : StorageFault → String
  | notFound => "No such file or directory (os error 2)"
  | isDirectory => "Is a directory (os error 21)"
  | notADirectory => "Not a directory (os error 20)"
  | nameTooLong => "File name too long (os error 36)"
  | tooManyLinks => "Too many levels of symbolic links (os error 40)"
  | noDevice => "No such device or address (os error 6)"
  | zeroInName => "file name contained an unexpected NUL byte"
  | noSpace => "No space left on device (os error 28)"
  | full => "writer is full"
  | other reason => reason.string

end StorageFault

namespace Fault

def message : Fault → String
  | missingFormat => "no %FS format specification found"
  | format why source => s!"bad format specification: {why.message source}"
  | trailingZeros source => s!"trailing zero omission is not supported: {source.string}"
  | incrementalCoordinates source =>
    s!"incremental coordinates are not supported: {source.string}"
  | units source => s!"bad or missing %MO units: {source.string}"
  | coordinate why => s!"bad coordinate: {why.message}"
  | aperture why => s!"bad aperture definition: {why.message}"
  | apertureNotFound code => s!"aperture D{code} is not defined"
  | macroNotFound name => s!"aperture macro '{name.string}' is not defined"
  | apertureMacro why => s!"aperture macro: {why.message}"
  | expression why => s!"macro expression: {why.message}"
  | regionNotOpen => "region closed without being opened"
  | stepRepeat why => s!"bad step-and-repeat: {why.message}"
  | stepRepeatNotOpen id => s!"step-and-repeat block #{id} was never opened"
  | apertureBlock why => s!"aperture block: {why.message}"
  | unterminatedBlock code => s!"aperture block D{code} is never closed"
  | unwindLimit passes => s!"aperture block expansion did not settle after {passes} passes"
  | missingStop => "command stream ends without M02/M00"
  | storage why => s!"I/O error: {why.message}"
  | record why => s!"JSON error: {why.message}"

/-- The number that identifies the condition; the program exits with it. -/
def code : Fault → Nat
  | missingFormat => 10
  | format _ _ => 11
  | trailingZeros _ => 12
  | incrementalCoordinates _ => 13
  | units _ => 14
  | coordinate _ => 20
  | aperture _ => 30
  | apertureNotFound _ => 31
  | macroNotFound _ => 32
  | apertureMacro why => why.code
  | expression _ => 40
  | regionNotOpen => 50
  | stepRepeat _ => 60
  | stepRepeatNotOpen _ => 61
  | apertureBlock _ => 70
  | unterminatedBlock _ => 71
  | unwindLimit _ => 80
  | missingStop => 90
  | storage _ => 100
  | record _ => 101

end Fault

/-- The command that an error was found in. -/
structure Place where
  line : Nat
  text : Text
deriving DecidableEq

/-- A cause of failure and the command it was found in. -/
structure Error where
  fault : Fault
  place : Option Place := none
deriving DecidableEq

namespace Error

/-- The error placed at a command, unless it has a place already. -/
def locate (e : Error) (line : Nat) (text : Text) : Error :=
  match e.place with
  | some _ => e
  | none => { e with place := some ⟨line, text⟩ }

def code (e : Error) : Nat := e.fault.code

def message (e : Error) : String :=
  match e.place with
  | some place => s!"line {place.line}: {place.text.string}: {e.fault.message}"
  | none => e.fault.message

end Error

end Gerber
