import PageSvg.Geometry.Matrix

/-!
# Paths

A path is a list of segments in one coordinate space. The type of the coordinates is a parameter,
because paths are also written with whole-number coordinates.
-/

namespace PageSvg

/-- A step of a path. -/
inductive Segment (κ : Type)
  | move (p : κ × κ)
  | line (p : κ × κ)
  /-- A cubic curve: two control points and the end point. -/
  | curve (p q r : κ × κ)
  | close
  deriving DecidableEq, Repr

namespace Segment

variable {κ μ : Type}

/-- Maps the points of a segment. -/
def map (f : κ × κ → μ × μ) : Segment κ → Segment μ
  | move p => move (f p)
  | line p => line (f p)
  | curve p q r => curve (f p) (f q) (f r)
  | close => close

/-- The points of a segment, the end point last. -/
def points : Segment κ → List (κ × κ)
  | move p | line p => [p]
  | curve p q r => [p, q, r]
  | close => []

end Segment

/-- Segments in drawing order. -/
abbrev Path (κ : Type) := List (Segment κ)

namespace Path

variable {κ α : Type}

/-- All points, control points included. -/
def points (path : Path κ) : List (κ × κ) := path.flatMap Segment.points

/-- Where a subpath began and where the pen is. -/
structure Pen (κ : Type) where
  start : Option (κ × κ) := none
  current : Option (κ × κ) := none

/-- The pen after a segment: a close takes it back to the start of the subpath. -/
def Pen.follow (pen : Pen κ) : Segment κ → Pen κ
  | .move p => ⟨some p, some p⟩
  | .line p => { pen with current := some p }
  | .curve _ _ r => { pen with current := some r }
  | .close => { pen with current := pen.start }

/-- The end of the last segment, or the start of the subpath after a close. -/
def currentPoint? (path : Path κ) : Option (κ × κ) := (path.foldl Pen.follow {}).current

variable [Scalar α]

/-- The image of a path. -/
def transform (m : Matrix α) (path : Path α) : Path α := path.map (Segment.map m.apply)

/-- A rectangle as a closed subpath that starts at `(x, y)` and first runs along its width. -/
def rectangle (x y width height : α) : Path α :=
  [.move (x, y), .line (x + width, y), .line (x + width, y + height), .line (x, y + height),
    .close]

end Path

end PageSvg
