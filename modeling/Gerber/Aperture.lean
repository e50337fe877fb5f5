import Gerber.ApertureMacro
import Gerber.Format
import Gerber.Step
import Gerber.Token

/-!
# Apertures

The tools that steps are drawn and flashed with: standard shapes, macros with parameters, and
blocks of commands.  Sizes are in millimetres.
-/

namespace Gerber

/-- A macro aperture: the primitives of the macro and their figures for the parameters. -/
structure MacroInstance (α : Type) where
  name : Text
  parameters : List α
  primitives : List (MacroPrimitive α)
  figures : List (Figure α)

/-- A block aperture: the commands between its opening and closing command, and the steps they
compile to, of which the first is the root step. -/
structure BlockAperture (α : Type) where
  startLine : Nat
  body : List Token
  steps : List (Step α)

/-- The shape of an aperture. -/
inductive Shape (α : Type) where
  | circle (diameter : α) (hole : Option α)
  | rectangle (width height : α) (hole : Option α)
  | obround (width height : α) (hole : Option α)
  | polygon (outerDiameter : α) (vertices : Nat) (rotation : α) (hole : Option α)
  | custom (instanced : MacroInstance α)
  | block (block : BlockAperture α)

/-- A shape with the code that selects it. -/
structure Aperture (α : Type) where
  code : Nat
  shape : Shape α

variable {α : Type}

def Shape.block? : Shape α → Option (BlockAperture α)
  | block b => some b
  | _ => none

def Aperture.block? (a : Aperture α) : Option (BlockAperture α) := a.shape.block?

/-- The apertures of a file in the order of their codes, one for each code. -/
structure Apertures (α : Type) where
  entries : List (Aperture α)

namespace Apertures

def empty : Apertures α := ⟨[]⟩

/-- Puts an aperture at its place among others that are in order. -/
def insert (a : Aperture α) : List (Aperture α) → List (Aperture α)
  | [] => [a]
  | b :: rest =>
    if a.code < b.code then a :: b :: rest
    else if a.code = b.code then a :: rest
    else b :: insert a rest

/-- Adds an aperture; one of the same code is replaced. -/
def define (table : Apertures α) (a : Aperture α) : Apertures α := ⟨insert a table.entries⟩

def get? (table : Apertures α) (code : Nat) : Option (Aperture α) :=
  table.entries.find? fun a => a.code == code

/-- The aperture of a code, which must be defined. -/
def lookup (table : Apertures α) (code : Nat) : Except Fault (Aperture α) :=
  match table.get? code with
  | some a => .ok a
  | none => .error (.apertureNotFound code)

def block? (table : Apertures α) (code : Nat) : Option (BlockAperture α) :=
  (table.get? code).bind Aperture.block?

def size (table : Apertures α) : Nat := table.entries.length

def codes (table : Apertures α) : List Nat := table.entries.map Aperture.code

end Apertures

variable [Scalar α]

namespace Shape

/-- A standard circle: a diameter and perhaps a hole. -/
def ofCircle (scale : α) : List α → Except DefinitionFault (Shape α)
  | [d] => .ok (.circle (d * scale) none)
  | [d, h] => .ok (.circle (d * scale) (some (h * scale)))
  | _ => .error .circleParameters

/-- The two sizes of a standard rectangle or obround, and perhaps a hole. -/
def ofSides (scale : α) (shape : α → α → Option α → Shape α) :
    List α → Except DefinitionFault (Shape α)
  | [x, y] => .ok (shape (x * scale) (y * scale) none)
  | [x, y, h] => .ok (shape (x * scale) (y * scale) (some (h * scale)))
  | _ => .error .rectangleParameters

/-- A standard polygon of 3 to 12 vertices. -/
def ofVertices (diameter vertices rotation : α) (hole : Option α) :
    Except DefinitionFault (Shape α) :=
  match Scalar.nat? vertices with
  | some n =>
    if 3 ≤ n ∧ n ≤ 12 then .ok (.polygon diameter n rotation hole) else .error .polygonVertices
  | none => .error .polygonVertices

/-- A standard polygon: an outer diameter and a number of vertices, perhaps a rotation, perhaps a
hole. -/
def ofPolygon (scale : α) : List α → Except DefinitionFault (Shape α)
  | [d, n] => ofVertices (d * scale) n Scalar.zero none
  | [d, n, r] => ofVertices (d * scale) n r none
  | [d, n, r, h] => ofVertices (d * scale) n r (some (h * scale))
  | _ => .error .polygonParameters

/-- The macro aperture of a name. -/
def ofMacro (macros : Macros α) (scale : α) (name : Text) (parameters : List α) :
    Except Fault (Shape α) :=
  match macros.get? name with
  | none => .error (.macroNotFound name)
  | some m =>
    (m.figures parameters scale).map fun figures =>
      .custom ⟨name, parameters, m.primitives, figures⟩

/-- The shape that a template name and its parameters give; `located` says where a fault lies. -/
def ofTemplate (macros : Macros α) (scale : α) (located : DefinitionFault → Fault)
    (template : Text) (parameters : List α) : Except Fault (Shape α) :=
  match template with
  | ['C'] => (ofCircle scale parameters).mapError located
  | ['R'] => (ofSides scale .rectangle parameters).mapError located
  | ['O'] => (ofSides scale .obround parameters).mapError located
  | ['P'] => (ofPolygon scale parameters).mapError located
  | name => ofMacro macros scale name parameters

end Shape

namespace Aperture

/-- The parameters between letters `X`; a blank text has none. -/
def parameters? (t : Text) : Option (List α) :=
  if (Text.trim t).isEmpty then some []
  else (t.splitOn 'X').mapM fun field => Scalar.ofText? (Text.trim field)

/-- The code at the start of a definition and what follows it.  Codes below ten are reserved. -/
def code? (t : Text) : Except DefinitionFault (Nat × Text) :=
  match Text.natural? (Nat.pow 2 32) (t.takeWhile Char.isDigit) with
  | none => .error .badCode
  | some code =>
    if code < 10 then .error .reservedCode else .ok (code, t.dropWhile Char.isDigit)

/-- The aperture that a complete `%AD` command defines. -/
def ofCommand (source : Text) (format : Format) (macros : Macros α) :
    Except Fault (Aperture α) := do
  let located (why : DefinitionFault) : Fault := .aperture (.definition why source)
  let body := (source.after? "%ADD".toList).bind fun t => Text.before? t "*%".toList
  match body with
  | none => throw (located .malformed)
  | some body =>
    let (code, rest) ← (code? body).mapError located
    let (template, list) := (rest.cut? ',').getD (rest, [])
    if template.isEmpty then throw (located .noTemplate)
    match parameters? list with
    | none => throw (located .badParameter)
    | some parameters =>
      let shape ← Shape.ofTemplate macros format.units.scale located template parameters
      pure ⟨code, shape⟩

end Aperture

/-- A command that opens or closes an aperture block. -/
inductive BlockDirective where
  | opening (code : Nat)
  | closing
deriving DecidableEq

namespace BlockDirective

/-- The directive that a complete `%AB` command writes.  The letter `D` may stand before the
code. -/
def ofCommand (source : Text) : Except BlockFault BlockDirective :=
  match (source.after? "%AB".toList).bind fun t => Text.before? t "*%".toList with
  | none => .error (.malformed source)
  | some [] => .ok .closing
  | some body =>
    match Text.natural? (Nat.pow 2 32) ((Text.after? body ['D']).getD body) with
    | some code => if 10 ≤ code then .ok (.opening code) else .error (.badCode source)
    | none => .error (.badCode source)

end BlockDirective

end Gerber
