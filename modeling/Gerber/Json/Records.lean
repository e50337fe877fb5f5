import Gerber.Decimal.Places
import Gerber.Json
import Gerber.Program

/-!
# Records

How the parts of a program appear in reports.  Coordinates and extents are written with six
decimal places, all other sizes in full.
-/

namespace Gerber

namespace Json

def rounded (x : Float) : Json := real (Decimal.roundTo 6 x)

def point (v : Vec Float) : Json := list [real v.x, real v.y]

end Json

open Json

namespace Polarity

def title : Polarity → String
  | dark => "dark"
  | clear => "clear"

end Polarity

namespace Quadrant

def title : Quadrant → String
  | single => "single"
  | multi => "multi"

end Quadrant

namespace Interpolation

def title : Interpolation → String
  | linear => "linear"
  | clockwise => "clockwise"
  | counterclockwise => "counterclockwise"

end Interpolation

namespace Action

def title : Action → String
  | draw => "draw"
  | move => "move"
  | flash => "flash"
  | stop => "stop"

end Action

namespace Units

def word : Units → String
  | millimeters => "millimeters"
  | inches => "inches"

end Units

namespace Primitive

def word : Primitive → String
  | circle => "circle"
  | vectorLine => "vector_line"
  | centerLine => "center_line"
  | outline => "outline"
  | polygon => "polygon"
  | moire => "moire"
  | thermal => "thermal"

end Primitive

namespace Format

def toJson (f : Format) : Json :=
  record
    [("units", word f.units.word), ("integer_digits", natural f.integerDigits),
      ("decimal_digits", natural f.decimalDigits)]

end Format

namespace Coord

/-- The record of a coordinate whose lengths are written by `length`. -/
def toJsonWith (length : Float → Json) (c : Coord Float) : Json :=
  record
    [("x", length c.x), ("y", length c.y), ("i", length c.i), ("j", length c.j),
      ("seq", natural c.seq.toNat)]

def toJson (c : Coord Float) : Json := c.toJsonWith rounded

end Coord

namespace Step

/-- The fields for the region and the step-and-repeat block of a step, where it has them. -/
def bindingFields (s : Step Float) : List (String × Json) :=
  (s.region.map fun id => ("region", natural id)).toList ++
    (s.stepRepeat.map fun id => ("step_repeat", natural id)).toList

def toJson (s : Step Float) : Json :=
  record <|
    [("number", natural s.number), ("polarity", word s.polarity.title),
      ("quadrant", word s.quadrant.title), ("interpolation", word s.interpolation.title),
      ("aperture", optional natural s.aperture), ("prev", s.prev.toJson),
      ("coord", s.coord.toJson), ("action", word s.action.title)] ++
    s.bindingFields ++
    [("origin", list [rounded s.origin.x, rounded s.origin.y]), ("line", natural s.line)]

end Step

namespace Extents

/-- The bounds of a span.  Without a span they are infinite, the lower above the upper. -/
def bounds (span : Option (Span Float)) : Float × Float :=
  match span with
  | some s => (s.lo, s.hi)
  | none => (Decimal.Binary64.infinity false, Decimal.Binary64.infinity true)

def toJson (e : Extents Float) : Json :=
  record
    [("minx", rounded (bounds e.x).1), ("miny", rounded (bounds e.y).1),
      ("maxx", rounded (bounds e.x).2), ("maxy", rounded (bounds e.y).2)]

end Extents

namespace Region

def toJson (r : Region Float) : Json :=
  record
    [("start", optional Coord.toJson r.start), ("last", optional Coord.toJson r.last),
      ("vertices", natural r.vertices), ("open_line", natural r.openLine),
      ("close_line", optional natural r.closeLine)]

end Region

namespace StepRepeat

def toJson (b : StepRepeat Float) : Json :=
  record
    [("id", text b.id), ("repeat_x", natural b.repeatX), ("repeat_y", natural b.repeatY),
      ("step_x", real b.stepX), ("step_y", real b.stepY), ("steps", natural b.steps),
      ("line", natural b.line)]

end StepRepeat

namespace Token

def toJson (t : Token) : Json := record [("text", Json.text t.text), ("line", natural t.line)]

end Token

namespace Modifier

def toJson : Modifier Float → Json
  | literal value => record [("type", word "literal"), ("value", real value)]
  | named name => record [("type", word "variable"), ("value", text name)]
  | expression t => record [("type", word "expression"), ("value", text t)]

end Modifier

namespace MacroPrimitive

def toJson (p : MacroPrimitive Float) : Json :=
  record [("kind", word p.primitive.word), ("modifiers", listOf Modifier.toJson p.modifiers)]

end MacroPrimitive

namespace Assignment

def toJson (a : Assignment Float) : Json :=
  record
    [("name", text a.name), ("expr", a.value.toJson), ("before_primitive", natural a.before)]

end Assignment

namespace ApertureMacro

def toJson (m : ApertureMacro Float) : Json :=
  record
    [("name", text m.name), ("comments", listOf text m.comments),
      ("assignments", listOf Assignment.toJson m.assignments),
      ("primitives", listOf MacroPrimitive.toJson m.primitives)]

end ApertureMacro

namespace Figure

def toJson : Figure Float → Json
  | circle exposure diameter center rotation =>
    record
      [("type", word "circle"), ("exposure", bool exposure), ("diameter", real diameter),
        ("center", point center), ("rotation", real rotation)]
  | vectorLine exposure width start finish rotation =>
    record
      [("type", word "vector_line"), ("exposure", bool exposure), ("width", real width),
        ("start", point start), ("end", point finish), ("rotation", real rotation)]
  | centerLine exposure width height center rotation =>
    record
      [("type", word "center_line"), ("exposure", bool exposure), ("width", real width),
        ("height", real height), ("center", point center), ("rotation", real rotation)]
  | outline exposure points rotation =>
    record
      [("type", word "outline"), ("exposure", bool exposure), ("points", listOf point points),
        ("rotation", real rotation)]
  | polygon exposure vertices center diameter rotation =>
    record
      [("type", word "polygon"), ("exposure", bool exposure), ("vertices", natural vertices),
        ("center", point center), ("diameter", real diameter), ("rotation", real rotation)]
  | moire center outer thickness gap rings crossThickness crossLength rotation =>
    record
      [("type", word "moire"), ("center", point center), ("outer_diameter", real outer),
        ("ring_thickness", real thickness), ("ring_gap", real gap),
        ("max_rings", natural rings), ("crosshair_thickness", real crossThickness),
        ("crosshair_length", real crossLength), ("rotation", real rotation)]
  | thermal center outer inner gap rotation =>
    record
      [("type", word "thermal"), ("center", point center), ("outer_diameter", real outer),
        ("inner_diameter", real inner), ("gap", real gap), ("rotation", real rotation)]

end Figure

namespace MacroInstance

def fields (m : MacroInstance Float) : List (String × Json) :=
  [("name", text m.name), ("params", listOf real m.parameters),
    ("primitives", listOf MacroPrimitive.toJson m.primitives),
    ("resolved", listOf Figure.toJson m.figures)]

end MacroInstance

namespace BlockAperture

def fields (b : BlockAperture Float) : List (String × Json) :=
  [("start_line", natural b.startLine), ("body", listOf Token.toJson b.body)]

def toJson (b : BlockAperture Float) : Json := record b.fields

end BlockAperture

namespace Shape

def fields : Shape Float → List (String × Json)
  | circle diameter hole =>
    [("type", word "circle"), ("diameter", real diameter), ("hole", optional real hole)]
  | rectangle width height hole =>
    [("type", word "rectangle"), ("x_size", real width), ("y_size", real height),
      ("hole", optional real hole)]
  | obround width height hole =>
    [("type", word "obround"), ("x_size", real width), ("y_size", real height),
      ("hole", optional real hole)]
  | polygon outer vertices rotation hole =>
    [("type", word "polygon"), ("outer_diameter", real outer), ("vertices", natural vertices),
      ("rotation", real rotation), ("hole", optional real hole)]
  | custom instanced => ("type", word "macro") :: instanced.fields
  | block b => ("type", word "block") :: b.fields

end Shape

namespace Aperture

def toJson (a : Aperture Float) : Json := record (("code", natural a.code) :: a.shape.fields)

end Aperture

namespace ActionCounts

def toJson (c : ActionCounts) : Json :=
  record
    [("draws", natural c.draws), ("moves", natural c.moves), ("flashes", natural c.flashes),
      ("stops", natural c.stops)]

end ActionCounts

namespace Program

def summaryFields (p : Program Float) : List (String × Json) :=
  [("format", p.format.toJson), ("stopped", bool p.stopped),
    ("step_count", natural p.steps.length), ("actions", p.actionCounts.toJson),
    ("extents", p.extents.toJson), ("apertures", listOf Aperture.toJson p.apertures.entries),
    ("regions", listOf Region.toJson p.regions),
    ("step_repeats", listOf StepRepeat.toJson p.stepRepeats)]

def summary (p : Program Float) (input : Text) : Json :=
  record (("input", text input) :: p.summaryFields)

end Program

end Gerber
