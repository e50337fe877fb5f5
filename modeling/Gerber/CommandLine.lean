import Gerber.CommandLine.Machine
import Gerber.CommandLine.Request
import Gerber.StepLines

/-!
# Command line

A request is carried out: a file is read and compiled, and the report is written to the standard
output or to a file.  Where files are is left open, so that the same run can be made on a disk and
in memory.
-/

namespace Gerber

/-- How files are read, and how reports are written: to the file that a path leads to, or to the
standard output. -/
structure Files (m : Type → Type) where
  read : Text → m (Except StorageFault (List UInt8))
  write : Option Text → Report → m (Except Fault Unit)

/-- The files of a machine in memory. -/
def Machine.access : Files (StateM Machine) where
  read path := do return (← get).read path
  write path report := do
    match path with
    | none =>
      modify fun machine => machine.print report
      return .ok ()
    | some path =>
      match (← get).write path report with
      | .ok machine =>
        set machine
        return .ok ()
      | .error fault => return .error fault

namespace Request

/-- The report on a program: its steps line by line, or its summary. -/
def report (r : Request) (p : Program Float) : Report :=
  if r.steps then StepLines.report p.steps
  else
    let summary := p.summary r.input
    ⟨[if r.pretty then summary.pretty else summary.compact]⟩

def run {m : Type → Type} [Monad m] (files : Files m) (r : Request) : m (Except Error Unit) := do
  match ← files.read r.input with
  | .error fault => return .error { fault := .storage fault }
  | .ok bytes =>
    match (Program.ofBytes r.options bytes).1 with
    | .error e => return .error e
    | .ok program =>
      match ← files.write r.output (r.report program) with
      | .error fault => return .error { fault := fault }
      | .ok () => return .ok ()

end Request

end Gerber
