import PageSvg.Options
import PageSvg.Geometry.Path

/-!
# Path data

A path is written as commands with numbers. Coordinates are first brought to whole multiples of
the last decimal place, in sixty-four bits, so that the offsets of relative commands are exact, as
long as they fit, and rounding errors do not add up along the path. Each command is written with
absolute or relative coordinates, whichever is shorter.
-/

namespace PageSvg.PathData

/-- Where the pen is and where its subpath began; `none` before the first point. -/
structure Pen where
  current : Int64 × Int64
  start : Int64 × Int64
  deriving DecidableEq, Repr

/-- A whole number of units of the last decimal place. -/
def unitsText (places : Nat) (n : Int64) : String :=
  (Numeral.finite (n < 0) n.toInt.natAbs (-(places : Int))).trimmed.text .plain

/-- Numbers side by side, with a space where no minus sign separates them. -/
def joined (places : Nat) : List Int64 → String
  | [] => ""
  | n :: rest =>
    unitsText places n ++
      String.join (rest.map fun k =>
        (if k < 0 then "" else " ") ++ unitsText places k)

/-- A command with absolute coordinates, or with relative ones when these are known and shorter. -/
def command (places : Nat) (letter relative : Char) (numbers : List Int64)
    (offsets : Option (List Int64)) : String :=
  let absoluteText := joined places numbers
  match offsets with
  | some offsets =>
    let relativeText := joined places offsets
    if relativeText.utf8ByteSize < absoluteText.utf8ByteSize then relative.toString ++ relativeText
    else letter.toString ++ absoluteText
  | none => letter.toString ++ absoluteText

/-- The coordinates of points, one after the other. -/
def coordinates (points : List (Int64 × Int64)) : List Int64 := points.flatMap fun p => [p.1, p.2]

/-- The coordinates of points as offsets from the pen. -/
def offsets (pen : Option Pen) (points : List (Int64 × Int64)) : Option (List Int64) :=
  pen.map fun pen =>
    points.flatMap fun p => [p.1 - pen.current.1, p.2 - pen.current.2]

/-- The text of a move, and the pen after it. -/
def move (places : Nat) (pen : Option Pen) (p : Int64 × Int64) : String × Pen :=
  (command places 'M' 'm' (coordinates [p]) (offsets pen [p]), ⟨p, p⟩)

/-- The text of a line from the pen: horizontal and vertical lines have commands of their own. -/
def line (places : Nat) (pen : Pen) (p : Int64 × Int64) : String :=
  let (x, y) := pen.current
  if p.2 = y ∧ p.1 ≠ x then command places 'H' 'h' [p.1] (some [p.1 - x])
  else if p.1 = x ∧ p.2 ≠ y then command places 'V' 'v' [p.2] (some [p.2 - y])
  else command places 'L' 'l' (coordinates [p]) (offsets (some pen) [p])

/-- The text of a curve from the pen. -/
def curve (places : Nat) (pen : Pen) (p q r : Int64 × Int64) : String :=
  command places 'C' 'c' (coordinates [p, q, r]) (offsets (some pen) [p, q, r])

/-- The texts of segments. A path that starts with a line starts with a move to its end, one that
starts with a curve with a move to its first control point, and a close before any point is
absent. -/
def pieces (places : Nat) : Option Pen → Path Int64 → List String
  | _, [] => []
  | pen, .move p :: rest =>
    let (text, next) := move places pen p
    text :: pieces places (some next) rest
  | none, .line p :: rest =>
    let (text, next) := move places none p
    text :: pieces places (some next) rest
  | some pen, .line p :: rest =>
    line places pen p :: pieces places (some { pen with current := p }) rest
  | none, .curve p q r :: rest =>
    let (text, next) := move places none p
    text :: curve places next p q r :: pieces places (some { next with current := r }) rest
  | some pen, .curve p q r :: rest =>
    curve places pen p q r :: pieces places (some { pen with current := r }) rest
  | none, .close :: rest => pieces places none rest
  | some pen, .close :: rest => "Z" :: pieces places (some { pen with current := pen.start }) rest

/-- A coordinate in units of the last decimal place. -/
def units {α : Type} [Scalar α] (places : Nat) (x : α) : Int64 :=
  Scalar.truncate (Scalar.round (x * Scalar.power 10 places))

/-- A path in units of the last decimal place. -/
def inUnits {α : Type} [Scalar α] (places : Nat) (path : Path α) : Path Int64 :=
  path.map (Segment.map fun p => (units places p.1, units places p.2))

/-- The path data of a path. -/
def text {α : Type} [Scalar α] (places : Nat) (path : Path α) : String :=
  String.join (pieces places none (inUnits places path))

end PageSvg.PathData
