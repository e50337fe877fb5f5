import Gerber.Error
import Gerber.Text.Utf8

/-!
# Reports

A report is a sequence of records.  It is written record by record, each followed by a line end,
and where there is no room for it the fault tells whether a record or a line end did not fit.
-/

namespace Gerber

/-- The texts of some records, without their line ends. -/
structure Report where
  records : List Text

namespace Report

def text (r : Report) : Text := r.records.flatMap fun record => record ++ ['\n']

/-- The text of records for which there is room for `room` bytes. -/
def fit (why : StorageFault) (room : Nat) : List Text → Except Fault Text
  | [] => .ok []
  | record :: rest =>
    let size := record.utf8Size
    if room < size then .error (.record why)
    else if room < size + 1 then .error (.storage why)
    else (fit why (room - (size + 1)) rest).map (record ++ '\n' :: ·)

def textWithin (why : StorageFault) (room : Nat) (r : Report) : Except Fault Text :=
  fit why room r.records

/-- The number of bytes that are gathered before a device is asked to take them. -/
def gathered : Nat := 8192

/-- Writes a report to a device that has no room.  This shows when more bytes have to be gathered
than can be, or else at the end, unless there is nothing to write. -/
def writeWithoutRoom (r : Report) : Except Fault Unit :=
  if r.records.isEmpty then .ok ()
  else
    match r.textWithin .noSpace gathered with
    | .error fault => .error fault
    | .ok _ => .error (.storage .noSpace)

end Report

end Gerber
