import Gerber.StepRepeat
import Gerber.Step

/-!
# Grid expansion

Each run of steps of a step-and-repeat block is replaced by one copy for every place of its grid.
A run is as long as the block has counted steps.
-/

namespace Gerber.Grid

variable {α : Type} [Scalar α]

/-- The copy of a run at a distance.  `prev` is the previous coordinate of its first step; each
further one starts where the one before it ended. -/
def copy (offset : Vec α) (prev : Coord α) : List (Step α) → List (Step α)
  | [] => []
  | step :: rest =>
    let coord := step.coord.translate offset
    { step with prev, coord } :: copy offset coord rest

/-- All copies of a run, row by row.  The first step of each starts from the origin. -/
def copies (block : StepRepeat α) (run : List (Step α)) : List (Step α) :=
  block.offsets.flatMap fun offset => copy offset Coord.zero run

/-- The run of a block at the start of a list of steps: as many steps as the block has counted,
all of them bound to it, and at least one. -/
def run (id : Nat) (block : StepRepeat α) (steps : List (Step α)) :
    Except StepRepeatFault (List (Step α)) :=
  if steps.length < block.steps then
    .error (.shortRun block.id block.line block.steps steps.length)
  else
    let taken := steps.take block.steps
    if taken.isEmpty || taken.any fun s => s.stepRepeat != some id then
      .error (.brokenRun block.id block.line)
    else .ok taken

omit [Scalar α] in
theorem run_steps_pos {id : Nat} {block : StepRepeat α} {steps taken : List (Step α)}
    (h : run id block steps = .ok taken) : 0 < block.steps := by
  unfold run at h
  split at h
  · cases h
  · simp only at h
    split at h
    · cases h
    · rename_i hrun
      cases hcount : block.steps with
      | zero => simp [hcount] at hrun
      | succ n => exact Nat.succ_pos n

/-- Replaces each run by its copies and keeps the steps outside of runs. -/
def expand (repeats : StepRepeats α) (steps : List (Step α)) : Except Fault (List (Step α)) :=
  match steps with
  | [] => .ok []
  | step :: rest =>
    match step.stepRepeat with
    | none => (expand repeats rest).map (step :: ·)
    | some id =>
      match repeats.get? id with
      | none => .error (.stepRepeatNotOpen id)
      | some block =>
        match _ : run id block (step :: rest) with
        | .error e => .error (.stepRepeat e)
        | .ok taken =>
          (expand repeats ((step :: rest).drop block.steps)).map (copies block taken ++ ·)
termination_by steps.length
decreasing_by
  · simp
  · have hpos := run_steps_pos (by assumption)
    simp only [List.length_drop, List.length_cons]
    omega

def renumber (steps : List (Step α)) : List (Step α) :=
  steps.mapIdx fun number step => { step with number }

end Gerber.Grid
