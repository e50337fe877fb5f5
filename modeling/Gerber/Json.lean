import Gerber.Decimal.Layout

/-!
# JSON

The values that reports are made of, and their text: on one line, or with each item on a line of
its own.
-/

namespace Gerber

/-- A value of a report.  The fields of a record keep their order. -/
inductive Json where
  | null
  | bool (value : Bool)
  | integer (value : Int)
  | real (value : Float)
  | text (value : Text)
  | list (items : List Json)
  | record (fields : List (String × Json))

namespace Json

/-- Numbers with their point; a power of ten is written from 1e16 on and below 0.00001. -/
def number : Decimal.Layout where
  tie := .toEven
  positional := fun first => -5 ≤ first && first < 16
  wholeTail := ['.', '0']
  infinite := "inf".toList
  absent := "nan".toList

/-- The text of a floating-point number; only finite ones have one. -/
def realText (x : Float) : Text := if x.isFinite then number.write x else "null".toList

def controlDigits (c : Char) : Text := [Nat.digitChar (c.toNat / 16), Nat.digitChar (c.toNat % 16)]

/-- A character within quotes. -/
def escape (c : Char) : Text :=
  if c == '"' then ['\\', '"']
  else if c == '\\' then ['\\', '\\']
  else if c == '\x08' then ['\\', 'b']
  else if c == '\x0c' then ['\\', 'f']
  else if c == '\n' then ['\\', 'n']
  else if c == '\r' then ['\\', 'r']
  else if c == '\t' then ['\\', 't']
  else if c.toNat < 32 then ['\\', 'u', '0', '0'] ++ controlDigits c
  else [c]

def quoted (t : Text) : Text := '"' :: t.flatMap escape ++ ['"']

/-- What stands in front of an item: nothing on one line, else a new line and two blanks for each
level. -/
def lineBreak : Option Nat → Text
  | none => []
  | some level => '\n' :: List.replicate (2 * level) ' '

/-- What stands between the name of a field and its value. -/
def colon : Option Nat → Text
  | none => [':']
  | some _ => [':', ' ']

mutual

/-- The text of a value at a level, or on one line. -/
def write (level : Option Nat) : Json → Text
  | null => "null".toList
  | bool true => "true".toList
  | bool false => "false".toList
  | integer value => Text.ofInt value
  | real value => realText value
  | text value => quoted value
  | list [] => ['[', ']']
  | list items => '[' :: (writeItems (level.map (· + 1)) items ++ lineBreak level ++ [']'])
  | record [] => ['\x7b', '\x7d']
  | record fields =>
    '\x7b' :: (writeFields (level.map (· + 1)) fields ++ lineBreak level ++ ['\x7d'])

def writeItems (level : Option Nat) : List Json → Text
  | [] => []
  | [item] => lineBreak level ++ write level item
  | item :: rest => lineBreak level ++ write level item ++ ',' :: writeItems level rest

/-- The texts of named values with commas between them. -/
def writeFields (level : Option Nat) : List (String × Json) → Text
  | [] => []
  | [(name, value)] =>
    lineBreak level ++ quoted name.toList ++ colon level ++ write level value
  | (name, value) :: rest =>
    lineBreak level ++ quoted name.toList ++ colon level ++ write level value ++
      ',' :: writeFields level rest

end

def compact (value : Json) : Text := write none value

def pretty (value : Json) : Text := write (some 0) value

def natural (n : Nat) : Json := integer n

def optional {β : Type} (encode : β → Json) (value : Option β) : Json :=
  (value.map encode).getD null

def listOf {β : Type} (encode : β → Json) (values : List β) : Json := list (values.map encode)

def word (s : String) : Json := text s.toList

end Json

end Gerber
