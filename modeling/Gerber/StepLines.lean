import Gerber.Json.Records
import Gerber.Report

/-!
# Step lines

The steps of a program as a report, one record on each line.
-/

namespace Gerber.StepLines

def line (s : Step Float) : Text := s.toJson.compact

def report (steps : List (Step Float)) : Report := ⟨steps.map line⟩

def write (steps : List (Step Float)) : Text := (report steps).text

def writeWithin (room : Nat) (steps : List (Step Float)) : Except Fault Text :=
  (report steps).textWithin .full room

end Gerber.StepLines
