import Gerber.Coord
import Gerber.Format

/-!
# Coordinate bodies

The body of an operation is a sequence of axis letters, each with a numeral, and a final `D`.
-/

namespace Gerber.Coord

variable {α : Type} [Scalar α]

/-- The coordinate that the next command starts from: the modal axes are kept. -/
def following (previous : Option (Coord α)) : Coord α :=
  match previous with
  | some c => { c with i := Scalar.zero, j := Scalar.zero, seq := c.seq + 1 }
  | none => { Coord.zero with seq := 1 }

/-- The coordinate with the axis of a letter set. -/
def setAxis? (c : Coord α) (letter : Char) (value : α) : Option (Coord α) :=
  if letter = 'X' then some { c with x := value }
  else if letter = 'Y' then some { c with y := value }
  else if letter = 'I' then some { c with i := value }
  else if letter = 'J' then some { c with j := value }
  else none

/-- Reads the groups of a letter and a numeral; a numeral goes up to the next ASCII letter. -/
def readAxes (format : Format) (body : Text) (c : Coord α) (t : Text) :
    Except Fault (Coord α) :=
  match t with
  | [] => .ok c
  | letter :: t =>
    match format.decode (t.takeWhile fun c => !c.isAlpha) with
    | .error e => .error e
    | .ok value =>
      match c.setAxis? letter value with
      | some c => readAxes format body c (t.dropWhile fun c => !c.isAlpha)
      | none => .error (.coordinate (.unexpectedLetter letter body))
termination_by t.length
decreasing_by exact Nat.lt_succ_of_le (List.dropWhile_sublist _).length_le

/-- The coordinate that the body of an operation writes; its `D` ends it. -/
def ofBody (format : Format) (previous : Option (Coord α)) (body : Text) :
    Except Fault (Coord α) :=
  match body.before? ['D'] with
  | none => .error (.coordinate (.noEnd body))
  | some axes => readAxes format body (following previous) axes

end Gerber.Coord
