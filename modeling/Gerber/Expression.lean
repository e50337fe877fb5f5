import Gerber.Error
import Gerber.Scalar

/-!
# Macro expressions

The arithmetic of macro modifiers.  An expression has numbers, variables, the four operations,
signs and parentheses; `x` multiplies, because a star ends a statement.  Products bind tighter
than sums and both are folded from left to right.  A closing parenthesis turns the group that was
opened last into its value, and the expression as a whole is such a group.
-/

namespace Gerber

/-- The values of variables, by their names without the leading `$`; the first entry of a name
counts. -/
structure Bindings (α : Type) where
  entries : List (Text × α)

namespace Bindings

variable {α : Type}

/-- The variables of an aperture definition: `$1` is its first parameter, and so on. -/
def ofParameters (parameters : List α) : Bindings α :=
  ⟨parameters.zipIdx.map fun (value, k) => (Text.ofNat (k + 1), value)⟩

def bare (name : Text) : Text := name.dropWhile (· == '$')

def set (b : Bindings α) (name : Text) (value : α) : Bindings α :=
  ⟨(bare name, value) :: b.entries⟩

def get? (b : Bindings α) (name : Text) : Option α := b.entries.lookup (bare name)

end Bindings

namespace Expression

inductive Operation where
  | add
  | sub
  | mul
  | div
deriving DecidableEq

/-- A part of an expression without parentheses. -/
inductive Item (α : Type) where
  | number (value : α)
  | operation (op : Operation)
deriving DecidableEq

/-- A part of an expression. -/
inductive Piece (α : Type) where
  | item (item : Item α)
  | opening
  | closing
deriving DecidableEq

variable {α : Type} [Scalar α]

/-- Whether a character continues the name of a variable; `x` multiplies and does not. -/
def isNameChar (c : Char) : Bool := c.isAlphanum && c != 'x' && c != 'X'

def isNumberChar (c : Char) : Bool := c.isDigit || c == '.'

/-- The pieces of the part `t` of an expression. -/
def pieces (expression : Text) (bindings : Bindings α) (t : Text) :
    Except ExpressionFault (List (Piece α)) :=
  match t with
  | [] => .ok []
  | c :: t =>
    if c == ' ' || c == '\t' then pieces expression bindings t
    else if c == '+' then prepend (.item (.operation .add)) (pieces expression bindings t)
    else if c == '-' then prepend (.item (.operation .sub)) (pieces expression bindings t)
    else if c == 'x' || c == 'X' then
      prepend (.item (.operation .mul)) (pieces expression bindings t)
    else if c == '/' then prepend (.item (.operation .div)) (pieces expression bindings t)
    else if c == '(' then prepend .opening (pieces expression bindings t)
    else if c == ')' then prepend .closing (pieces expression bindings t)
    else if c == '$' then
      match bindings.get? (t.takeWhile isNameChar) with
      | some value =>
        prepend (.item (.number value)) (pieces expression bindings (t.dropWhile isNameChar))
      | none => .error (.unbound (t.takeWhile isNameChar) expression)
    else if isNumberChar c then
      match Scalar.ofText? (c :: t.takeWhile isNumberChar) with
      | some value =>
        prepend (.item (.number value)) (pieces expression bindings (t.dropWhile isNumberChar))
      | none => .error (.badNumber (c :: t.takeWhile isNumberChar) expression)
    else .error (.unexpected c expression)
termination_by t.length
decreasing_by
  all_goals
    first
    | exact Nat.lt_succ_self _
    | exact Nat.lt_succ_of_le (List.dropWhile_sublist _).length_le
where
  /-- Puts a piece in front of the pieces that follow it. -/
  prepend (piece : Piece α) (rest : Except ExpressionFault (List (Piece α))) :
      Except ExpressionFault (List (Piece α)) :=
    rest.map (piece :: ·)

/-- The operands of a group with the operation in front of each.  `op` is the operation in front
of the next operand and `sign` the sign collected for it. -/
def operands (expression : Text) (op : Operation) (sign : α) :
    List (Item α) → Except ExpressionFault (List (Operation × α))
  | [] => .error (.missingOperand expression)
  | .operation .sub :: t => operands expression op (-sign) t
  | .operation .add :: t => operands expression op sign t
  | .operation .mul :: _ => .error (.missingOperand expression)
  | .operation .div :: _ => .error (.missingOperand expression)
  | .number value :: t =>
    if op = .div ∧ Scalar.isZero (sign * value) then .error (.divisionByZero expression)
    else
      match t with
      | [] => .ok [(op, sign * value)]
      | .operation next :: t =>
        (operands expression next Scalar.one t).map ((op, sign * value) :: ·)
      | .number _ :: _ => .error (.missingOperator expression)

/-- One step of the fold from left to right: `sum` holds the finished terms, `product` the term
at hand.  A quotient is a product with the reciprocal. -/
def apply (state : α × α) (operand : Operation × α) : α × α :=
  match operand with
  | (.add, v) => (state.1 + state.2, v)
  | (.sub, v) => (state.1 + state.2, -v)
  | (.mul, v) => (state.1, state.2 * v)
  | (.div, v) => (state.1, state.2 * (Scalar.one / v))

/-- The value of a group with these operands: the first of them starts the first term, and the sum
starts from zero. -/
def total : List (Operation × α) → α
  | [] => Scalar.zero
  | (_, first) :: rest =>
    let state := rest.foldl apply (Scalar.zero, first)
    state.1 + state.2

def groupValue (expression : Text) (items : List (Item α)) : Except ExpressionFault α :=
  (operands expression .add Scalar.one items).map total

/-- Reads pieces into the group opened last and the groups around it, each in reverse.  At the end
nothing may be left but one number in the outermost group. -/
def collapse (expression : Text) (group : List (Item α)) (outer : List (List (Item α))) :
    List (Piece α) → Except ExpressionFault α
  | [] =>
    match group, outer with
    | [.number value], [] => .ok value
    | _, _ => .error (.unbalanced expression)
  | .item item :: t => collapse expression (item :: group) outer t
  | .opening :: t => collapse expression [] (group :: outer) t
  | .closing :: t =>
    match outer with
    | [] => .error (.unbalanced expression)
    | next :: outer =>
      match groupValue expression group.reverse with
      | .ok value => collapse expression (.number value :: next) outer t
      | .error e => .error e

def evaluate (bindings : Bindings α) (expression : Text) : Except ExpressionFault α :=
  match pieces expression bindings expression with
  | .ok parts => collapse expression [] [[]] (parts ++ [.closing])
  | .error e => .error e

end Expression

end Gerber
