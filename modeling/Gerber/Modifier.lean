import Gerber.Expression
import Gerber.Text.Blank

/-!
# Modifiers

The arguments of macro primitives and the right sides of macro assignments.  A modifier that is a
plain number or a plain variable is recognised as such; any other one stays an expression.
-/

namespace Gerber

/-- A modifier that has not been evaluated. -/
inductive Modifier (α : Type) where
  | literal (value : α)
  /-- A variable whose name has only digits, without its `$`. -/
  | named (name : Text)
  | expression (text : Text)

namespace Modifier

variable {α : Type} [Scalar α]

/-- The modifier that is neither blank nor a number. -/
def ofWord (t : Text) : Modifier α :=
  match t with
  | '$' :: name => if Text.isDigits name then named name else expression t
  | _ => expression t

/-- The modifier that a text writes; a blank text writes zero. -/
def ofText (t : Text) : Modifier α :=
  let t := Text.trim t
  if t.isEmpty then literal Scalar.zero
  else
    match Scalar.ofText? t with
    | some value => literal value
    | none => ofWord t

def eval (bindings : Bindings α) : Modifier α → Except ExpressionFault α
  | literal value => .ok value
  | named name =>
    match bindings.get? name with
    | some value => .ok value
    | none => .error (.unboundModifier name)
  | expression text => Expression.evaluate bindings text

end Modifier

end Gerber
