import PageSvg.Geometry.PathData
import PageSvg.Geometry.Rectangle
import PageSvg.Scene.Definitions

/-!
# Clip regions

The clip regions of a page form a forest. A region is its parent's region, cut by a shape of its
own; it is named by a digest of its parent's name, its shape and its fill rule, so cutting one
region twice by the same shape gives one region. A rectangle inside a rectangle is one rectangle.
Only regions that some content lies in are written.
-/

namespace PageSvg

/-- What a region is cut by, in device space. -/
inductive ClipShape (α : Type)
  | rectangle (r : Rectangle α)
  | path (p : Path α)
  /-- The outlines of text. -/
  | text (nodes : List Node)

/-- A region of the forest; parents are indexes. -/
structure ClipRegion (α : Type) where
  id : String
  parent : Option Nat
  shape : ClipShape α
  evenOdd : Bool
  /-- Some content lies in the region. -/
  referenced : Bool := false

/-- The clip regions of a page, in the order in which they came up. -/
structure ClipForest (α : Type) where
  regions : Array (ClipRegion α) := #[]
  /-- Decimal places of written coordinates. -/
  precision : Nat

namespace ClipForest

variable {α : Type} [Scalar α]

/-- The region at an index. -/
def get? (f : ClipForest α) (i : Nat) : Option (ClipRegion α) := f.regions[i]?

/-- The name of a region. -/
def id (f : ClipForest α) (i : Nat) : String := ((f.get? i).map (·.id)).getD ""

/-- How many regions there are. -/
def size (f : ClipForest α) : Nat := f.regions.size

/-- The regions cut out of a region. -/
def children (f : ClipForest α) (i : Nat) : List (ClipRegion α) :=
  f.regions.toList.filter (·.parent == some i)

/-- The rectangle of a region that is nothing but one rectangle. -/
def plainRectangle? (f : ClipForest α) (i : Nat) : Option (Rectangle α) :=
  match f.get? i with
  | some ⟨_, none, .rectangle r, _, _⟩ => some r
  | _ => none

/-- A shape in words, up to the written precision. -/
def describe (f : ClipForest α) : ClipShape α → String
  | .rectangle r =>
    "R" ++ String.intercalate " " ([r.x1, r.y1, r.x2, r.y2].map (Scalar.placesText f.precision))
  | .path p => "P" ++ PathData.text f.precision p
  | .text nodes => "T" ++ Node.bracketed (Node.describeEach nodes)

/-- The name of the region that a shape cuts out of a parent. -/
def regionId (f : ClipForest α) (parent : Option Nat) (shape : ClipShape α) (evenOdd : Bool) :
    String :=
  stableId "clip" <|
    (parent.map f.id).getD "" ++ "|" ++ f.describe shape ++ "|" ++
      (if evenOdd then "evenodd" else "nonzero")

/-- The region that a shape cuts out of a parent: the one of that name there, or a new one. -/
def insert (f : ClipForest α) (parent : Option Nat) (shape : ClipShape α) (evenOdd : Bool) :
    Nat × ClipForest α :=
  let id := f.regionId parent shape evenOdd
  match f.regions.findIdx? fun region => region.parent == parent && region.id == id with
  | some i => (i, f)
  | none =>
    (f.regions.size, { f with regions := f.regions.push { id, parent, shape, evenOdd } })

/-- Cuts a parent by a rectangle. A rectangle parent is replaced by the common part, which is a
corner of the new rectangle where the two do not meet. -/
def insertRectangle (f : ClipForest α) (parent : Option Nat) (r : Rectangle α) :
    Nat × ClipForest α :=
  match parent.bind f.get? with
  | some ⟨_, grandparent, .rectangle s, _, _⟩ =>
    let common := (r.intersect? s).getD (.ofCorners r.x1 r.y1 r.x1 r.y1)
    f.insert grandparent (.rectangle common) false
  | _ => f.insert parent (.rectangle r) false

/-- Cuts a parent by a path; a path that is a rectangle counts as one. -/
def insertPath (f : ClipForest α) (parent : Option Nat) (p : Path α) (evenOdd : Bool) :
    Nat × ClipForest α :=
  match Rectangle.ofPath? p with
  | some r => f.insertRectangle parent r
  | none => f.insert parent (.path p) evenOdd

/-- Cuts a parent by the outlines of text. -/
def insertText (f : ClipForest α) (parent : Option Nat) (nodes : List Node) : Nat × ClipForest α :=
  f.insert parent (.text nodes) false

/-- Marks a region and those above it, up to one already marked. Parents have smaller indexes, so
the walk is over after as many steps as there are regions. -/
def mark (f : ClipForest α) (i : Nat) : ClipForest α :=
  { f with regions := go f.regions (f.regions.size + 1) (some i) }
where
  go (regions : Array (ClipRegion α)) : Nat → Option Nat → Array (ClipRegion α)
    | 0, _ => regions
    | _, none => regions
    | fuel + 1, some i =>
      match regions[i]? with
      | none => regions
      | some region =>
        if region.referenced then regions
        else go (regions.setIfInBounds i { region with referenced := true }) fuel region.parent

/-- The element of a shape. -/
def shapeNodes (f : ClipForest α) (evenOdd : Bool) : ClipShape α → List Node
  | .rectangle r =>
    let text := Scalar.placesText f.precision
    [{ tag := "rect"
       attrs := [("x", text r.x1), ("y", text r.y1), ("width", text r.width),
         ("height", text r.height)] }]
  | .path p =>
    [({ tag := "path", attrs := [("d", PathData.text f.precision p)] } : Node).setIf evenOdd
      "clip-rule" "evenodd"]
  | .text nodes => nodes

/-- The definition of a region. -/
def regionNode (f : ClipForest α) (region : ClipRegion α) : Node where
  tag := "clipPath"
  attrs := ("id", region.id) ::
    match region.parent with
    | some parent => [("clip-path", Node.reference (f.id parent))]
    | none => []
  children := f.shapeNodes region.evenOdd region.shape

/-- The definitions of the marked regions, parents first. -/
def toNodes (f : ClipForest α) : List Node :=
  (f.regions.toList.filter (·.referenced)).map f.regionNode

end ClipForest

end PageSvg
