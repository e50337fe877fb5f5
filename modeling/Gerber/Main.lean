import Gerber.CommandLine

/-!
# Program

The command line on a disk.
-/

namespace Gerber

/-- The number of an error of the system, whichever sign it is reported with. -/
def errorNumber (code : UInt32) : Nat := (min code (0 - code)).toNat

/-- The fault that an error of the system stands for. -/
def StorageFault.ofError (e : IO.Error) : StorageFault :=
  let number :=
    match e with
    | .noFileOrDirectory _ _ _ => 2
    | .inappropriateType _ code _ => errorNumber code
    | .invalidArgument _ code _ => errorNumber code
    | .resourceExhausted _ code _ => errorNumber code
    | .noSuchThing _ code _ => errorNumber code
    | _ => 0
  match number with
  | 2 => notFound
  | 6 => noDevice
  | 20 => notADirectory
  | 21 => isDirectory
  | 28 => noSpace
  | 36 => nameTooLong
  | 40 => tooManyLinks
  | _ => other (toString e).toList

/-- Writes records, each followed by a line end. -/
def writeRecords (stream : IO.FS.Stream) : List Text → IO (Except Fault Unit)
  | [] => do
    try
      stream.flush
      return .ok ()
    catch e => return .error (.storage (.ofError e))
  | record :: rest => do
    try stream.putStr record.string
    catch e => return .error (.record (.ofError e))
    try stream.putStr "\n"
    catch e => return .error (.storage (.ofError e))
    writeRecords stream rest

def diskFiles : Files IO where
  read path := do
    try
      let bytes ← IO.FS.readBinFile path.string
      return .ok bytes.toList
    catch e => return .error (.ofError e)
  write path report := do
    try
      let stream ←
        match path with
        | none => IO.getStdout
        | some path => IO.FS.Stream.ofHandle <$> IO.FS.Handle.mk path.string .write
      writeRecords stream report.records
    catch e => return .error (.storage (.ofError e))

def usageText : String :=
  "Usage: gerber [-o FILE] [--pretty] [--steps] [--region-tolerance MM] " ++
    "[--max-unwind-passes N] [--require-stop] INPUT"

/-- Carries out a request on the disk and tells the exit code. -/
def Request.execute (r : Request) : IO UInt32 := do
  match ← r.run diskFiles with
  | .ok () =>
    if let some path := r.output then IO.eprintln s!"Written to {path.string}"
    return 0
  | .error e =>
    IO.eprintln s!"Error: {e.message}"
    return e.code.toUInt32

end Gerber

/-- Reads the arguments and carries out the request that they make. -/
def main (arguments : List String) : IO UInt32 := do
  match Gerber.Request.ofArguments (arguments.map String.toList) with
  | .ok request => request.execute
  | .error .help =>
    IO.println Gerber.usageText
    return 0
  | .error .mistake =>
    IO.eprintln Gerber.usageText
    return 2
