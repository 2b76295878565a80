import PageSvg.Geometry.Path

/-!
# Upright rectangles

A rectangle is kept with its lower corner first. `ofPath?` recognises the paths that are exactly
one upright rectangle.
-/

namespace PageSvg

/-- An upright rectangle between the corners `(x1, y1)` and `(x2, y2)`. -/
structure Rectangle (α : Type) where
  x1 : α
  y1 : α
  x2 : α
  y2 : α
  deriving BEq, Inhabited

namespace Rectangle

variable {α : Type} [Scalar α]

/-- The rectangle between two corners in any order. -/
def ofCorners (x1 y1 x2 y2 : α) : Rectangle α :=
  ⟨Scalar.min x1 x2, Scalar.min y1 y2, Scalar.max x1 x2, Scalar.max y1 y2⟩

/-- The rectangle from a corner with a width and a height, which may be negative. -/
def ofSize (x y width height : α) : Rectangle α := ofCorners x y (x + width) (y + height)

/-- The horizontal extent. -/
def width (r : Rectangle α) : α := r.x2 - r.x1

/-- The vertical extent. -/
def height (r : Rectangle α) : α := r.y2 - r.y1

/-- Has the rectangle no area? -/
def isEmpty (r : Rectangle α) : Bool := r.width ≤ 0 ∨ r.height ≤ 0

/-- The common part, unless one rectangle lies beyond an edge of the other. -/
def intersect? (r s : Rectangle α) : Option (Rectangle α) :=
  let x1 := Scalar.max r.x1 s.x1
  let y1 := Scalar.max r.y1 s.y1
  let x2 := Scalar.min r.x2 s.x2
  let y2 := Scalar.min r.y2 s.y2
  if x2 < x1 ∨ y2 < y1 then none else some ⟨x1, y1, x2, y2⟩

/-- Does `s` lie in `r`? Edges may touch. -/
def contains (r s : Rectangle α) : Bool :=
  r.x1 ≤ s.x1 ∧ r.y1 ≤ s.y1 ∧ s.x2 ≤ r.x2 ∧ s.y2 ≤ r.y2

/-- The smallest rectangle around two. -/
def union (r s : Rectangle α) : Rectangle α :=
  ⟨Scalar.min r.x1 s.x1, Scalar.min r.y1 s.y1, Scalar.max r.x2 s.x2, Scalar.max r.y2 s.y2⟩

/-- The smallest rectangle around a rectangle and a point. -/
def cover (r : Rectangle α) (p : α × α) : Rectangle α :=
  ⟨Scalar.min r.x1 p.1, Scalar.min r.y1 p.2, Scalar.max r.x2 p.1, Scalar.max r.y2 p.2⟩

/-- The rectangle grown on every side; a negative amount may turn it over. -/
def inflate (r : Rectangle α) (amount : α) : Rectangle α :=
  ofCorners (r.x1 - amount) (r.y1 - amount) (r.x2 + amount) (r.y2 + amount)

/-- The outline as a closed path. -/
def toPath (r : Rectangle α) : Path α := Path.rectangle r.x1 r.y1 r.width r.height

/-- The smallest rectangle around all points of a path, control points included. -/
def bounds? (path : Path α) : Option (Rectangle α) :=
  (Path.points path).foldl
    (fun r p => some (match r with
      | some r => r.cover p
      | none => ofCorners p.1 p.2 p.1 p.2))
    none

/-- The end points of lines up to the end of a path, when nothing but one close at the very end
follows them. -/
def lineEnds? : Path α → Option (List (α × α))
  | [] | [.close] => some []
  | .line p :: rest => (lineEnds? rest).map (p :: ·)
  | _ => none

/-- The corners of a single subpath of lines, without a repetition of the
first at the end of five. -/
def corners? : Path α → Option (List (α × α))
  | .move p :: rest =>
    match lineEnds? rest with
    | some [q, r, s, t] => if t == p then some [p, q, r, s] else none
    | ends => ends.map (p :: ·)
  | _ => none

/-- Is the edge between two points horizontal (`true`) or vertical (`false`)? -/
def edge? (p q : α × α) : Option Bool :=
  if p.2 == q.2 && !(p.1 == q.1) then some true
  else if p.1 == q.1 && !(p.2 == q.2) then some false
  else none

/-- The rectangle whose corners a path visits in turn, in either direction and from any corner, if
it does nothing else. -/
def ofPath? (path : Path α) : Option (Rectangle α) :=
  match corners? path with
  | some [p, q, r, s] =>
    match edge? p q with
    | some first =>
      if edge? q r == some (!first) && edge? r s == some first && edge? s p == some (!first) &&
          !(p.1 == r.1) && !(p.2 == r.2) then
        some (ofCorners p.1 p.2 r.1 r.2)
      else none
    | none => none
  | _ => none

/-- As `ofPath?`, for paths that end with a close. -/
def ofClosedPath? (path : Path α) : Option (Rectangle α) :=
  match path.getLast? with
  | some .close => ofPath? path
  | _ => none

end Rectangle

end PageSvg
