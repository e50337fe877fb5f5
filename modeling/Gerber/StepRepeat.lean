import Gerber.Digest.Sha256
import Gerber.Format
import Gerber.Coord
import Gerber.Text.Letter

/-!
# Step and repeat

A step-and-repeat block repeats the steps compiled while it is open over the places of a grid.
-/

namespace Gerber

/-- A block with its repeat counts and its grid spacing in millimetres.  `id` tells it apart by its
text and line; `steps` counts the steps compiled while it was open. -/
structure StepRepeat (α : Type) where
  id : Text
  repeatX : Nat
  repeatY : Nat
  stepX : α
  stepY : α
  steps : Nat
  line : Nat

namespace StepRepeat

/-- The identity of a block: sixteen digits of the hash of its line and text. -/
def identity (source : Text) (line : Nat) : Text :=
  (Sha256.hexOfText (Text.ofNat line ++ ':' :: source)).take 16

/-- The text after the first `key`, up to the next letter, read by `read`; without the key the
field has its default. -/
def field {β : Type} (read : Text → Option β) (default : β) (key : Char) (body source : Text) :
    Except StepRepeatFault β :=
  match body.following? key with
  | none => .ok default
  | some rest =>
    match read (rest.takeWhile fun c => !Text.isLetter c) with
    | some value => .ok value
    | none => .error (.badField key source)

variable {α : Type} [Scalar α]

/-- The block that a complete `%SR` command opens.  Missing counts are one, missing distances
zero. -/
def ofCommand (source : Text) (format : Format) (line : Nat) :
    Except StepRepeatFault (StepRepeat α) := do
  match source.after? "%SR".toList with
  | none => throw (.notACommand source)
  | some rest =>
    let body := Text.trimEnd (· == '*') (Text.trimEnd (· == '%') rest)
    let repeatX ← field (Text.natural? (Nat.pow 2 32)) 1 'X' body source
    let repeatY ← field (Text.natural? (Nat.pow 2 32)) 1 'Y' body source
    let stepX : α ← field Scalar.ofText? Scalar.zero 'I' body source
    let stepY : α ← field Scalar.ofText? Scalar.zero 'J' body source
    if repeatX = 0 ∨ repeatY = 0 then throw (.zeroRepeat source)
    if Scalar.lt stepX Scalar.zero || Scalar.lt stepY Scalar.zero then
      throw (.negativeStep source)
    pure
      { id := identity source line
        repeatX, repeatY
        stepX := stepX * format.units.scale
        stepY := stepY * format.units.scale
        steps := 0
        line }

def repetitions (b : StepRepeat α) : Nat := b.repeatX * b.repeatY

def offset (b : StepRepeat α) (column row : Nat) : Vec α :=
  ⟨Scalar.ofNat column * b.stepX, Scalar.ofNat row * b.stepY⟩

/-- The distance of the copy of number `k`; the copies are counted row by row. -/
def offsetAt (b : StepRepeat α) (k : Nat) : Vec α := b.offset (k % b.repeatX) (k / b.repeatX)

def offsets (b : StepRepeat α) : List (Vec α) := (List.range b.repetitions).map b.offsetAt

end StepRepeat

/-- The step-and-repeat blocks of a file in the order in which they were opened.  Steps refer to
them by index. -/
structure StepRepeats (α : Type) where
  blocks : List (StepRepeat α)

namespace StepRepeats

variable {α : Type}

def empty : StepRepeats α := ⟨[]⟩

def get? (r : StepRepeats α) (id : Nat) : Option (StepRepeat α) := r.blocks[id]?

/-- Adds a block.  Its index is the number of blocks before it. -/
def add (r : StepRepeats α) (b : StepRepeat α) : StepRepeats α := ⟨r.blocks ++ [b]⟩

def countLimit : Nat := Nat.pow 2 64

/-- Changes the step count of a block. -/
def adjust (r : StepRepeats α) (id : Nat) (delta : Int) : Except Fault (StepRepeats α) :=
  match r.get? id with
  | none => .error (.stepRepeatNotOpen id)
  | some b =>
    let steps := (b.steps : Int) + delta
    if steps < 0 ∨ countLimit ≤ steps then .error (.stepRepeat (.negativeCount b.id))
    else .ok ⟨r.blocks.set id { b with steps := steps.toNat }⟩

end StepRepeats

end Gerber
