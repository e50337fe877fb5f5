import Gerber.Aperture
import Gerber.Session

/-!
# Inlining of aperture blocks

A flash of an aperture block stands for the steps of the block, moved to the place of the flash.
Blocks may flash other blocks, so flashes are replaced pass by pass until none is left.  A block
that flashes itself, directly or not, would never settle; the number of passes is limited.
-/

namespace Gerber.Inlining

variable {α : Type}

/-- The block that a step flashes. -/
def flashed? (apertures : Apertures α) (step : Step α) : Option (BlockAperture α) :=
  match step.action, step.aperture with
  | .flash, some code => apertures.block? code
  | _, _ => none

variable [Scalar α]

/-- The steps of a block as they are seen from a flash.  `prev` is the previous coordinate of the
first of them; each further one starts where the one before it ended. -/
def placed (flash : Step α) (prev : Coord α) : List (Step α) → List (Step α)
  | [] => []
  | inner :: rest =>
    let coord := inner.coord.translate flash.coord.place
    { inner with
      prev, coord
      origin := inner.origin.add flash.coord.place
      stepRepeat := flash.stepRepeat.or inner.stepRepeat } :: placed flash coord rest

/-- The steps that a flash of a block stands for: all steps of the block after the root step that
do not stop. -/
def substitute (flash : Step α) (block : BlockAperture α) : List (Step α) :=
  placed flash flash.coord (block.steps.tail.filter fun s => s.action ≠ .stop)

/-- Replaces each flash of a block.  The result is in reverse, in front of the steps `done`, and
comes with the number of flashes replaced, counted from `count`.  A step-and-repeat block counts
the steps that replace one of its own. -/
def pass (apertures : Apertures α) (done : List (Step α)) (count : Nat) :
    List (Step α) → Run α (List (Step α) × Nat)
  | [] => pure (done, count)
  | step :: rest => do
    match flashed? apertures step with
    | none => pass apertures (step :: done) count rest
    | some block =>
      let steps := substitute step block
      if let some id := step.stepRepeat then Run.adjustRepeat id ((steps.length : Int) - 1)
      pass apertures (steps.reverse ++ done) (count + 1) rest

/-- Replaces flashes pass by pass, of which `left` more may replace something. -/
def passes (apertures : Apertures α) (limit : Nat) (left : Nat) (steps : List (Step α)) :
    Run α (List (Step α)) := do
  let (done, count) ← pass apertures [] 0 steps
  if count = 0 then pure done.reverse
  else
    Run.note (.inlined (limit - left + 1) count)
    match left with
    | 0 => Run.fail (.unwindLimit limit)
    | left + 1 => passes apertures limit left done.reverse

/-- Replaces flashes of blocks until none is left, in at most `limit` passes. -/
def inline (apertures : Apertures α) (limit : Nat) (steps : List (Step α)) :
    Run α (List (Step α)) :=
  passes apertures limit limit steps

end Gerber.Inlining
