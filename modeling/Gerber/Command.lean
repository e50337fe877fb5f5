import Gerber.Mode
import Gerber.Scalar.Float
import Gerber.Text.Letter
import Gerber.Token

/-!
# Commands

The commands of the graphics stream, told apart by their texts.
-/

namespace Gerber

/-- What a command asks for. -/
inductive Command where
  | interpolation (mode : Interpolation)
  | polarity (polarity : Polarity)
  | quadrant (mode : Quadrant)
  | regionBegin
  | regionEnd
  /-- An operation at the coordinate that `body` writes, up to and including its `D`. -/
  | operation (body : Text) (action : Action)
  | select (aperture : Nat)
  | stepRepeatOpen
  | stepRepeatClose
  | stop
  /-- A transform of the whole image; `identity` tells whether it would leave the image alone. -/
  | imageTransform (name : Text) (identity : Bool)
  /-- A command without effect on the steps. -/
  | ignored (name : Text)
  | comment
  /-- A definition, which is taken out of the stream before it is compiled. -/
  | header
  | unknown
deriving DecidableEq

namespace Command

/-- The data blocks that are fixed texts. -/
def fixedBlocks : List (Text × Command) :=
  [("G01*".toList, interpolation .linear), ("G1*".toList, interpolation .linear),
    ("G02*".toList, interpolation .clockwise), ("G2*".toList, interpolation .clockwise),
    ("G03*".toList, interpolation .counterclockwise),
    ("G3*".toList, interpolation .counterclockwise),
    ("G36*".toList, regionBegin), ("G37*".toList, regionEnd),
    ("G74*".toList, quadrant .single), ("G75*".toList, quadrant .multi),
    ("M02*".toList, stop), ("M2*".toList, stop), ("M00*".toList, stop), ("M0*".toList, stop),
    ("M01*".toList, ignored "M01".toList), ("M1*".toList, ignored "M1".toList),
    ("G54*".toList, ignored "G54".toList), ("G55*".toList, ignored "G55".toList),
    ("G70*".toList, ignored "G70".toList), ("G71*".toList, ignored "G71".toList),
    ("G90*".toList, ignored "G90".toList), ("G91*".toList, ignored "G91".toList)]

/-- The ends of operations. -/
def operationEnds : List (Text × Action) :=
  [("D01*".toList, .draw), ("D02*".toList, .move), ("D03*".toList, .flash),
    ("D1*".toList, .draw), ("D2*".toList, .move), ("D3*".toList, .flash)]

/-- The operation that a data block ends with. -/
def operation? (t : Text) : Option Command :=
  operationEnds.findSome? fun (tail, action) =>
    (t.before? tail).map fun head => operation (head ++ ['D']) action

/-- The aperture that a data block selects, with or without a code `G54` in front. -/
def select? (t : Text) : Option Command := do
  let selection := (t.after? "G54".toList).getD t
  let code ← selection.after? ['D']
  let digits ← Text.before? code ['*']
  let n ← Text.natural? (Nat.pow 2 32) digits
  if 10 ≤ n then some (select n) else none

def ofBlock (t : Text) : Command :=
  (((fixedBlocks.lookup t).or (operation? t)).or (select? t)).getD unknown

/-- The number after the first `key`, up to the next letter. -/
def parameter? (t : Text) (key : Char) : Option Float := do
  let rest ← t.following? key
  Scalar.ofText? (rest.takeWhile fun c => !Text.isLetter c)

/-- Whether the parameters of a command of two letters for the whole image change nothing.  A
parameter that is missing or no number changes nothing. -/
def isIdentity (name inner : Text) : Bool :=
  let isOr (default value : Float) (key : Char) := (parameter? inner key).getD default == value
  if name == "MI".toList then !isOr 0 1 'A' && !isOr 0 1 'B'
  else if name == "SF".toList then isOr 1 1 'A' && isOr 1 1 'B'
  else if name == "OF".toList then isOr 0 0 'A' && isOr 0 0 'B'
  else (Scalar.ofText? (inner.drop 2) : Option Float).getD 0 == 0

def transforms : List Text := ["MI".toList, "SF".toList, "OF".toList, "IR".toList]

def definitions : List Text :=
  ["FS".toList, "MO".toList, "AM".toList, "AD".toList, "AB".toList]

/-- Names of extended commands without effect on the steps. -/
def attributes : List Text :=
  ["TF".toList, "TA".toList, "TD".toList, "TO".toList, "AS".toList, "IN".toList, "IP".toList,
    "LN".toList, "LM".toList, "LR".toList, "LS".toList]

/-- The command between the percent signs and before the closing stars. -/
def ofInner (inner : Text) : Command :=
  let name := inner.take 2
  if inner == "LPD".toList then polarity .dark
  else if inner == "LPC".toList then polarity .clear
  else if inner == "SR".toList then stepRepeatClose
  else if name == "SR".toList then stepRepeatOpen
  else if definitions.contains name then header
  else if transforms.contains name then imageTransform name (isIdentity name inner)
  else if attributes.contains name then ignored name
  else unknown

/-- The command that a text writes. -/
def ofText (t : Text) : Command :=
  if Token.isComment t then comment
  else if t.head? == some '%' then
    ofInner
      (Text.trimEnd (· == '*') (Text.trimEnd (· == '%') (t.dropWhile (· == '%'))))
  else ofBlock t

end Command

end Gerber
