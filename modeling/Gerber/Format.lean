import Gerber.Error
import Gerber.Scalar

/-!
# Coordinate formats

The units and digit counts in which a file writes its coordinates.  A numeral has an implicit
decimal point: with two integer and six decimal digits, `1500000` writes 1.5 file units and
`-25` writes -0.000025.
-/

namespace Gerber

/-- The unit of length of a file. -/
inductive Units where
  | millimeters
  | inches
deriving DecidableEq

/-- Units and digit counts of coordinates. -/
structure Format where
  units : Units
  integerDigits : Nat
  decimalDigits : Nat
deriving DecidableEq

namespace Units

def ofCommand (source : Text) : Except Fault Units :=
  if source = "%MOMM*%".toList then .ok millimeters
  else if source = "%MOIN*%".toList then .ok inches
  else .error (.units source)

/-- The length of a unit in millimetres. -/
def scale {α : Type} [Scalar α] : Units → α
  | millimeters => Scalar.one
  | inches => Scalar.decimal 254 (-1)

def title : Units → String
  | millimeters => "Millimeters"
  | inches => "Inches"

end Units

namespace Format

/-- The digit counts that follow an axis letter: one digit for the integer places, the others for
the decimal places, of which there are at most 255. -/
def digitCounts? (t : Text) : Option (Nat × Nat) :=
  match t with
  | i :: d =>
    if t.isDigits && !d.isEmpty then
      (Text.natural? 256 d).map fun decimal => (Text.digitsValue [i], decimal)
    else none
  | [] => none

/-- The texts after `X` and after the last `Y`, if the text is an `X`, another text without `X`,
a `Y`, and a text without `X` and `Y`. -/
def axes? (t : Text) : Option (Text × Text) :=
  match t with
  | 'X' :: rest =>
    if rest.contains 'X' then none
    else
      match rest.reverse.dropWhile (· != 'Y') with
      | [] => none
      | _ :: before => some (before.reverse, (rest.reverse.takeWhile (· != 'Y')).reverse)
  | _ => none

/-- The format that the part of an `%FS` command after the modes gives. -/
def ofAxes (units : Units) (source axes : Text) : Except Fault Format :=
  let counts := do
    let body ← Text.before? axes "*%".toList
    let (x, y) ← axes? body
    pure (← digitCounts? x, ← digitCounts? y)
  match counts with
  | none => .error (.format .malformed source)
  | some ((xi, xd), (yi, yd)) =>
    if xi ≠ yi ∨ xd ≠ yd then .error (.format (.different xi xd yi yd) source)
    else if 6 < xi ∨ xd < 3 ∨ 7 < xd then .error (.format (.outOfRange xi xd) source)
    else .ok ⟨units, xi, xd⟩

/-- The format that a complete `%FS` command gives.  Leading zeros are omitted and coordinates are
absolute; the other two choices are told apart from malformed commands. -/
def ofHeader (units : Units) (source : Text) : Except Fault Format :=
  match Text.after? source "%FS".toList with
  | some ('L' :: 'A' :: axes) => ofAxes units source axes
  | some ('L' :: 'I' :: _) => .error (.incrementalCoordinates source)
  | some ('T' :: _) => .error (.trailingZeros source)
  | _ => .error (.format .malformed source)

/-- The format that complete `%FS` and `%MO` commands give. -/
def ofCommands (fs mo : Text) : Except Fault Format := do
  let units ← Units.ofCommand mo
  ofHeader units fs

def width (format : Format) : Nat := format.integerDigits + format.decimalDigits

/-- The largest number of one part of a numeral is below this. -/
def partLimit : Nat := Nat.pow 2 64

/-- The sign of a numeral, and its digits. -/
def signed : Text → Bool × Text
  | '-' :: digits => (true, digits)
  | '+' :: digits => (false, digits)
  | digits => (false, digits)

variable {α : Type} [Scalar α]

/-- The millimetres that a numeral writes. -/
def decode (format : Format) (numeral : Text) : Except Fault α :=
  let (negative, digits) := signed numeral
  if !digits.isDigits then .error (.coordinate (.notANumber numeral))
  else if format.width < digits.length then .error (.coordinate (.tooManyDigits numeral))
  else
    let whole := Text.digitsValue digits / Nat.pow 10 format.decimalDigits
    let part := Text.digitsValue digits % Nat.pow 10 format.decimalDigits
    if format.decimalDigits = 0 ∨ partLimit ≤ whole ∨ partLimit ≤ part then
      .error (.coordinate (.notANumber numeral))
    else
      let magnitude : α :=
        Scalar.ofNat whole + Scalar.ofNat part / Scalar.pow10 format.decimalDigits
      .ok ((if negative then -magnitude else magnitude) * format.units.scale)

/-- The numeral, without leading zeros, that is nearest to a number of millimetres. -/
def encode (format : Format) (value : α) : Except Fault Text :=
  let raw := Scalar.nearest (value / format.units.scale * Scalar.pow10 format.decimalDigits)
  if format.width < (Text.ofNat raw.natAbs).length then
    .error (.coordinate
      (.doesNotFit (Scalar.shown value) format.integerDigits format.decimalDigits))
  else .ok (Text.ofInt raw)

end Format

end Gerber
