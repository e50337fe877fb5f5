/-!
# Text

Commands are read as sequences of characters.  Here are the few ways in which they are cut:
a fixed lead or tail taken off, a text cut at a separator, a run of characters trimmed.
-/

namespace Gerber

/-- A text is the sequence of its characters. -/
abbrev Text := List Char

namespace Text

def string (t : Text) : String := String.ofList t

def startsWith (t lead : Text) : Bool := lead.isPrefixOf t

def after? (t lead : Text) : Option Text := lead.isPrefixOf? t

def before? (t tail : Text) : Option Text := tail.isSuffixOf? t

/-- What follows the first occurrence of `key`. -/
def following? (t : Text) (key : Char) : Option Text :=
  match t.dropWhile (· != key) with
  | [] => none
  | _ :: rest => some rest

def cut? (t : Text) (sep : Char) : Option (Text × Text) :=
  (t.following? sep).map fun rest => (t.takeWhile (· != sep), rest)

def trimEnd (p : Char → Bool) (t : Text) : Text := (t.reverse.dropWhile p).reverse

def trimBoth (p : Char → Bool) (t : Text) : Text := trimEnd p (t.dropWhile p)

def join (sep : Text) (parts : List Text) : Text := sep.intercalate parts

end Text

end Gerber
