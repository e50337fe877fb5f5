import Gerber.Text

/-!
# Notices

What a compilation reports beside its result, in the order in which it is noticed.
-/

namespace Gerber

/-- How much a notice matters. -/
inductive Level where
  | warn
  | debug
  | trace
deriving DecidableEq

def Level.title : Level → String
  | .warn => "WARN"
  | .debug => "DEBUG"
  | .trace => "TRACE"

/-- Something noticed while compiling. -/
inductive Notice where
  | tokenized (commands : Nat)
  | format (integer decimal : Nat) (units : String)
  | blockCompiled (code steps : Nat)
  | inventory (macros apertures commands : Nat)
  | ignoredAfterStop (commands line : Nat)
  | ignoredTransform (name : Text) (line : Nat)
  | ignoredCommand (name : Text) (line : Nat)
  | inlined (pass flashes : Nat)
  | unwound (steps : Nat)
  | unrecognized (text : Text) (line : Nat)
  | droppedTransform (name : Text) (line : Nat)
  | apertureRedefined (code line : Nat)
  | endsWithoutStop
  | regionReopened (line : Nat)
  | regionLeftOpen
  | repeatNotOpen (line : Nat)
  | repeatEmpty (line : Nat)
  | regionGap (line : Nat) (distance : Text)
deriving DecidableEq

namespace Notice

def level : Notice → Level
  | tokenized _ => .debug
  | format _ _ _ => .debug
  | blockCompiled _ _ => .debug
  | inventory _ _ _ => .debug
  | ignoredAfterStop _ _ => .debug
  | ignoredTransform _ _ => .debug
  | ignoredCommand _ _ => .debug
  | inlined _ _ => .debug
  | unwound _ => .debug
  | unrecognized _ _ => .trace
  | droppedTransform _ _ => .warn
  | apertureRedefined _ _ => .warn
  | endsWithoutStop => .warn
  | regionReopened _ => .warn
  | regionLeftOpen => .warn
  | repeatNotOpen _ => .warn
  | repeatEmpty _ => .warn
  | regionGap _ _ => .warn

def message : Notice → String
  | tokenized commands => s!"tokenized {commands} commands"
  | format i d units => s!"format {i}.{d} in {units}"
  | blockCompiled code steps => s!"aperture block D{code} compiled to {steps} steps"
  | inventory macros apertures commands =>
    s!"{macros} macros, {apertures} apertures, {commands} commands in main stream"
  | ignoredAfterStop commands line => s!"ignoring {commands} commands after stop at line {line}"
  | ignoredTransform name line => s!"ignoring deprecated %{name.string} at line {line}"
  | ignoredCommand name line => s!"ignoring {name.string} at line {line}"
  | inlined pass flashes => s!"pass {pass}: inlined {flashes} block flashes"
  | unwound steps => s!"{steps} steps after unwinding"
  | unrecognized text line => s!"skipping unrecognized command {text.string} at line {line}"
  | droppedTransform name line =>
    s!"ignoring deprecated %{name.string} at line {line}: image transforms are not applied"
  | apertureRedefined code line => s!"aperture D{code} redefined at line {line}"
  | endsWithoutStop => "command stream ends without M02"
  | regionReopened line => s!"G36 at line {line} while a region is already open"
  | regionLeftOpen => "region still open at end of stream"
  | repeatNotOpen line => s!"%SR close at line {line} without an open block"
  | repeatEmpty line => s!"step-and-repeat at line {line} contains no steps"
  | regionGap line distance =>
    s!"region opened at line {line} ends {distance.string} mm away from its start"

end Notice

end Gerber
