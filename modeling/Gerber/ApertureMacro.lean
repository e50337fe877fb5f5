import Gerber.Figure
import Gerber.Modifier

/-!
# Aperture macros

A macro is a named sequence of comments, assignments and primitives between stars.  The
primitives and the assignments are kept apart; each assignment knows the primitive it precedes.
-/

namespace Gerber

/-- A primitive of a macro with its modifiers in order. -/
structure MacroPrimitive (α : Type) where
  primitive : Primitive
  modifiers : List (Modifier α)

/-- An assignment of a macro; `before` is the index of the primitive that follows it. -/
structure Assignment (α : Type) where
  name : Text
  value : Modifier α
  before : Nat

/-- The definition of an aperture macro. -/
structure ApertureMacro (α : Type) where
  name : Text
  comments : List Text
  assignments : List (Assignment α)
  primitives : List (MacroPrimitive α)

namespace ApertureMacro

variable {α : Type} [Scalar α]

inductive Line (α : Type) where
  | comment (text : Text)
  | assignment (name : Text) (value : Modifier α)
  | primitive (primitive : MacroPrimitive α)

/-- The assignment that a line starting with `$` writes. -/
def Line.ofAssignment (t : Text) : Except MacroFault (Line α) :=
  match t.cut? '=' with
  | none => .error (.badAssignment t)
  | some (left, right) =>
    let name := Bindings.bare (Text.trim left)
    if name.isEmpty then .error (.badAssignment t)
    else .ok (.assignment name (.ofText right))

/-- The primitive that a line writes: its code and its modifiers, between commas.  Code zero is
another spelling of a comment. -/
def Line.ofFields (t : Text) : Except MacroFault (Line α) :=
  let fields := t.splitOn ','
  let field := Text.trim (fields.headD [])
  match Text.natural? (Nat.pow 2 32) field with
  | none => .error (.badPrimitiveCode field)
  | some 0 => .ok (.comment (Text.join [','] fields.tail))
  | some code =>
    match Primitive.ofCode? code with
    | none => .error (.unknownPrimitive code)
    | some shape => .ok (.primitive ⟨shape, fields.tail.map Modifier.ofText⟩)

/-- The line that a text without blanks at its ends writes. -/
def Line.ofText (t : Text) : Except MacroFault (Line α) :=
  match t with
  | ['0'] => .ok (.comment [])
  | '0' :: ' ' :: text => .ok (.comment (Text.trimLead text))
  | '$' :: _ => ofAssignment t
  | _ => ofFields t

def add (m : ApertureMacro α) : Line α → ApertureMacro α
  | .comment text => { m with comments := m.comments ++ [text] }
  | .assignment name value =>
    { m with assignments := m.assignments ++ [⟨name, value, m.primitives.length⟩] }
  | .primitive primitive => { m with primitives := m.primitives ++ [primitive] }

/-- The lines that the parts of a macro between stars write; blank parts write none. -/
def linesOf (parts : List Text) : Except MacroFault (List (Line α)) :=
  ((parts.map Text.trim).filter fun t => !t.isEmpty).mapM Line.ofText

/-- The parts of a macro command between stars: the name, the lines, and what follows the last
star, which must start with the closing sign. -/
def parts? (body : Text) : Option (Text × List Text) :=
  match body.splitOn '*' with
  | name :: rest =>
    match rest.getLast? with
    | some ('%' :: _) => some (name, rest.dropLast)
    | _ => none
  | [] => none

def ofCommand (source : Text) : Except MacroFault (ApertureMacro α) :=
  match source.after? "%AM".toList with
  | none => .error (.missingName source)
  | some body =>
    match parts? body with
    | none => .error (.missingTerminator source)
    | some (name, parts) =>
      if (Text.trim name).isEmpty then .error (.missingName source)
      else (linesOf parts).map fun lines => lines.foldl add ⟨Text.trim name, [], [], []⟩

/-- Runs the assignments that precede the primitive at `index`; the others remain. -/
def assign (index : Nat) (bindings : Bindings α) :
    List (Assignment α) → Except ExpressionFault (Bindings α × List (Assignment α))
  | [] => .ok (bindings, [])
  | a :: rest =>
    if a.before ≤ index then
      match a.value.eval bindings with
      | .ok value => assign index (bindings.set a.name value) rest
      | .error e => .error e
    else .ok (bindings, a :: rest)

/-- The figure of a primitive under the given bindings. -/
def figure (bindings : Bindings α) (scale : α) (p : MacroPrimitive α) :
    Except Fault (Figure α) :=
  match p.modifiers.mapM (Modifier.eval bindings) with
  | .error e => .error (.expression e)
  | .ok values => (Figure.ofValues p.primitive values scale).mapError .aperture

/-- The figures of the primitives from `index` on. -/
def figuresFrom (scale : α) (index : Nat) (bindings : Bindings α)
    (assignments : List (Assignment α)) :
    List (MacroPrimitive α) → Except Fault (List (Figure α))
  | [] => .ok []
  | p :: rest => do
    let (bindings, assignments) ← (assign index bindings assignments).mapError .expression
    let first ← figure bindings scale p
    let others ← figuresFrom scale (index + 1) bindings assignments rest
    pure (first :: others)

/-- The figures of a macro for the parameters of an aperture.  Each assignment is run before the
primitive that follows it. -/
def figures (m : ApertureMacro α) (parameters : List α) (scale : α) :
    Except Fault (List (Figure α)) :=
  figuresFrom scale 0 (.ofParameters parameters) m.assignments m.primitives

end ApertureMacro

/-- The macros of a file, one for each name. -/
structure Macros (α : Type) where
  entries : List (ApertureMacro α)

namespace Macros

variable {α : Type}

def empty : Macros α := ⟨[]⟩

/-- Adds a macro; one of the same name is replaced. -/
def define (macros : Macros α) (m : ApertureMacro α) : Macros α :=
  ⟨m :: macros.entries.filter fun other => other.name != m.name⟩

def get? (macros : Macros α) (name : Text) : Option (ApertureMacro α) :=
  macros.entries.find? fun m => m.name == name

def size (macros : Macros α) : Nat := macros.entries.length

end Macros

end Gerber
