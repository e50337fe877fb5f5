import Gerber.CommandLine.Folder
import Gerber.CommandLine.Location
import Gerber.Report

/-!
# Machines

A machine in memory, as far as a command can tell: the folder in which the command is given, the
locations that every system has, and the standard output.  Paths are followed name by name, and the
first name that leads nowhere decides about the fault.
-/

namespace Gerber

/-- A folder to work in, and what has been printed. -/
structure Machine where
  folder : Folder
  printed : Text

namespace Machine

def nameLimit : Nat := 255

def pathLimit : Nat := 4095

def linkLimit : Nat := 40

/-- What a location holds under a name, and the number of links passed on the way. -/
def find (m : Machine) (location : Location) (name : Text) : Except StorageFault (Nat × Entry) :=
  if name = [] ∨ name = ['.'] then .ok (0, .folder location)
  else if name = ['.', '.'] then .ok (0, .folder location.parent)
  else if nameLimit < name.utf8Size ∧ !location.isView then .error .nameTooLong
  else
    match location with
    | .here => .ok (0, (m.folder.get? name).elim .nothing .file)
    | .fixed names => .ok (Location.fixedEntry (names ++ [name]))

/-- What a location holds under a name where `left` more links can be passed, and the number of
links that can be passed afterwards. -/
def step (m : Machine) (left : Nat) (location : Location) (name : Text) :
    Except StorageFault (Nat × Entry) := do
  let (passed, entry) ← m.find location name
  if left < passed then .error .tooManyLinks else pure (left - passed, entry)

/-- Follows names from a location, as `step` does for one name.  There is nothing below nothing, and
what is below a file is a fault. -/
def follow (m : Machine) (left : Nat) (location : Location) :
    List Text → Except StorageFault (Nat × Entry)
  | [] => .ok (left, .folder location)
  | name :: rest => do
    match ← m.step left location name with
    | (left, .folder inner) => m.follow left inner rest
    | (left, .nothing) => .ok (left, .nothing)
    | other => if rest.isEmpty then .ok other else .error .notADirectory

/-- The location that a path starts from, and its names. -/
def parts (path : Text) : Except StorageFault (Location × List Text) :=
  if '\x00' ∈ path then .error .zeroInName
  else if pathLimit < path.utf8Size then .error .nameTooLong
  else if path.isEmpty then .error .notFound
  else .ok (if path.head? = some '/' then .fixed [] else .here, path.splitOn '/')

/-- Reads the file that a path leads to.  Other devices than terminals are empty. -/
def read (m : Machine) (path : Text) : Except StorageFault (List UInt8) := do
  let (location, names) ← parts path
  match (← m.follow linkLimit location names).2 with
  | .folder _ => .error .isDirectory
  | .file bytes => .ok bytes
  | .device .terminal => .error .noDevice
  | .device _ => .ok []
  | .nothing => .error .notFound

/-- The location and name of a file to be written, and what is there.  A path that ends like that of
a folder is no place for a file, whatever is there. -/
def target (m : Machine) (path : Text) : Except StorageFault (Location × Text × Entry) := do
  let (location, names) ← parts path
  let named := names.reverse.dropWhile List.isEmpty
  match ← m.follow linkLimit location (named.drop 1).reverse with
  | (left, .folder holder) =>
    if named.length < names.length then .error .isDirectory
    else
      let name := named.headD []
      let (_, entry) ← m.step left holder name
      pure (holder, name, entry)
  | (_, .nothing) => .error .notFound
  | (_, .file _) | (_, .device _) => .error .notADirectory

def print (m : Machine) (r : Report) : Machine := { m with printed := m.printed ++ r.text }

/-- Writes a report to the file that a path leads to.  Of the files outside the folder nothing is
kept. -/
def write (m : Machine) (path : Text) (r : Report) : Except Fault Machine := do
  let (holder, name, entry) ← (m.target path).mapError .storage
  match entry with
  | .folder _ => .error (.storage .isDirectory)
  | .device .null => .ok m
  | .device .full => r.writeWithoutRoom.map fun _ => m
  | .device .output => .ok (m.print r)
  | .device .terminal => .error (.storage .noDevice)
  | .file _ | .nothing =>
    if holder = .here then .ok { m with folder := m.folder.put name r.text }
    else if holder.isView then .error (.storage .notFound)
    else .ok m

end Machine

end Gerber
