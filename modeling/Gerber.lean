import Gerber.Aperture
import Gerber.ApertureMacro
import Gerber.Command
import Gerber.CommandLine
import Gerber.CommandLine.Folder
import Gerber.CommandLine.Location
import Gerber.CommandLine.Machine
import Gerber.CommandLine.Request
import Gerber.Coord
import Gerber.Coord.Body
import Gerber.Decimal.Binary64
import Gerber.Decimal.Hypotenuse
import Gerber.Decimal.Layout
import Gerber.Decimal.Numeral
import Gerber.Decimal.Places
import Gerber.Decimal.Rounding
import Gerber.Decimal.Shortest
import Gerber.Definitions
import Gerber.Digest.Sha256
import Gerber.Error
import Gerber.Expression
import Gerber.Extents
import Gerber.Figure
import Gerber.Format
import Gerber.Grid
import Gerber.Inlining
import Gerber.Json
import Gerber.Json.Records
import Gerber.Main
import Gerber.Mode
import Gerber.Modifier
import Gerber.Notice
import Gerber.Primitive
import Gerber.Program
import Gerber.Proofs.Coord.Groups
import Gerber.Proofs.Coord.Numerals
import Gerber.Proofs.Decimal.Nearest
import Gerber.Proofs.Decimal.Units
import Gerber.Proofs.Decimal.Values
import Gerber.Proofs.Definitions
import Gerber.Proofs.Definitions.Brackets
import Gerber.Proofs.Definitions.Extraction
import Gerber.Proofs.Definitions.Order
import Gerber.Proofs.Except
import Gerber.Proofs.Expression.Evaluation
import Gerber.Proofs.Expression.Modifiers
import Gerber.Proofs.Format.Header
import Gerber.Proofs.Format.RoundTrip
import Gerber.Proofs.Grid
import Gerber.Proofs.Grid.Copies
import Gerber.Proofs.Grid.Runs
import Gerber.Proofs.Grid.Splitting
import Gerber.Proofs.Inlining.Counts
import Gerber.Proofs.Inlining.Expansion
import Gerber.Proofs.Inlining.Frame
import Gerber.Proofs.Inlining.Standing
import Gerber.Proofs.Inlining.Tally
import Gerber.Proofs.Macro.Figures
import Gerber.Proofs.Macro.Lines
import Gerber.Proofs.Macro.Replay
import Gerber.Proofs.Program.Attribution
import Gerber.Proofs.Program.Conditions
import Gerber.Proofs.Program.Copies
import Gerber.Proofs.Program.Extents
import Gerber.Proofs.Program.Inches
import Gerber.Proofs.Program.NestedRuns
import Gerber.Proofs.Program.Prepared
import Gerber.Proofs.Program.Settling
import Gerber.Proofs.Program.Unwinding
import Gerber.Proofs.Program.WellFormed
import Gerber.Proofs.Run
import Gerber.Proofs.Run.Alike
import Gerber.Proofs.Scaling.Apertures
import Gerber.Proofs.Scaling.Definitions
import Gerber.Proofs.Scaling.Run
import Gerber.Proofs.Scaling.Stream
import Gerber.Proofs.Scaling.Unwinding
import Gerber.Proofs.StepRepeat
import Gerber.Proofs.Stream.Counts
import Gerber.Proofs.Stream.Effect
import Gerber.Proofs.Stream.Essential
import Gerber.Proofs.Stream.Frame
import Gerber.Proofs.Stream.Progress
import Gerber.Proofs.Stream.Reading
import Gerber.Proofs.Stream.References
import Gerber.Proofs.Stream.RegionBooks
import Gerber.Proofs.Stream.Regions
import Gerber.Proofs.Stream.Sequence
import Gerber.Proofs.Text.Cuts
import Gerber.Proofs.Text.Digits
import Gerber.Proofs.Text.Utf8
import Gerber.Proofs.Token.Content
import Gerber.Proofs.Token.Glued
import Gerber.Proofs.Token.Reading
import Gerber.Proofs.Token.Shape
import Gerber.Proofs.Token.Sites
import Gerber.Proofs.Token.Spacing
import Gerber.Region
import Gerber.Report
import Gerber.Scalar
import Gerber.Scalar.Float
import Gerber.Session
import Gerber.Step
import Gerber.StepLines
import Gerber.StepRepeat
import Gerber.Stream
import Gerber.Text
import Gerber.Text.Blank
import Gerber.Text.Digits
import Gerber.Text.Letter
import Gerber.Text.Utf8
import Gerber.Token
