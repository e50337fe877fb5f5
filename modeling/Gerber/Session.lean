import Gerber.Notice
import Gerber.Region
import Gerber.StepRepeat

/-!
# Sessions

The regions and step-and-repeat blocks of a file are shared by all its command streams, and
notices are collected on the way.  A run may fail; what it changed before stays changed.
-/

namespace Gerber

/-- What the streams of a file share: regions, step-and-repeat blocks, and the notices so far, of
which the latest comes first. -/
structure Session (α : Type) where
  regions : Regions α
  stepRepeats : StepRepeats α
  log : List Notice

/-- A computation in a session that may fail. -/
abbrev Run (α β : Type) := ExceptT Error (StateM (Session α)) β

namespace Session

variable {α : Type}

def initial : Session α := ⟨.empty, .empty, []⟩

def notices (s : Session α) : List Notice := s.log.reverse

end Session

namespace Run

variable {α β : Type}

def fail (fault : Fault) : Run α β := throw { fault }

/-- Fails if a computation outside the session failed. -/
def ofExcept (result : Except Fault β) : Run α β :=
  match result with
  | .ok value => pure value
  | .error fault => fail fault

def located (line : Nat) (text : Text) (run : Run α β) : Run α β :=
  ExceptT.adapt (fun e => e.locate line text) run

def note (notice : Notice) : Run α Unit := modify fun s => { s with log := notice :: s.log }

/-- Opens a region and tells its index. -/
def openRegion (line : Nat) : Run α Nat := do
  let s ← get
  set { s with regions := s.regions.add line }
  pure s.regions.regions.length

def isRegionOpen (id : Option Nat) : Run α Bool := do
  let s ← get
  ofExcept (s.regions.isOpen id)

def addVertex (id : Nat) (c : Coord α) : Run α Unit :=
  modify fun s => { s with regions := s.regions.addVertex id c }

/-- Opens a step-and-repeat block and tells its index. -/
def openRepeat (b : StepRepeat α) : Run α Nat := do
  let s ← get
  set { s with stepRepeats := s.stepRepeats.add b }
  pure s.stepRepeats.blocks.length

/-- Changes the step count of a step-and-repeat block. -/
def adjustRepeat (id : Nat) (delta : Int) : Run α Unit := do
  let s ← get
  let stepRepeats ← ofExcept (s.stepRepeats.adjust id delta)
  set { s with stepRepeats }

/-- Closes a step-and-repeat block; one without steps is worth a notice. -/
def closeRepeat (id : Nat) : Run α Unit := do
  let s ← get
  match s.stepRepeats.get? id with
  | some b => if b.steps = 0 then note (.repeatEmpty b.line)
  | none => pure ()

variable [Scalar α]

/-- Closes the region of a step; a contour that does not end where it started is worth a
notice. -/
def closeRegion (id : Option Nat) (line : Nat) (tolerance : α) : Run α Unit := do
  let s ← get
  let (regions, region) ← ofExcept (s.regions.close id line)
  set { s with regions }
  if !region.isContour tolerance then
    note (.regionGap region.openLine (Scalar.shownTo 6 region.gap))

end Run

end Gerber
