import PageSvg.Canvas.Overlay

/-!
# Pages

A page is shown in the output with its crop box as the viewport, turned clockwise by a multiple of
a quarter turn. Its content is drawn first and its annotations on top.
-/

namespace PageSvg

variable {α : Type} [Scalar α]

/-- A page to convert. -/
structure Page (α : Type) where
  /-- The part that is shown, in user space. -/
  cropBox : Rectangle α
  /-- In degrees, clockwise. -/
  rotation : Int
  content : ContentStream α
  resources : SetId
  overlays : List (Overlay α)

/-- A quarter turn or several. -/
inductive Turn
  | none
  | quarter
  | half
  | threeQuarters
  deriving DecidableEq, Repr

/-- The turn of an angle; an angle that is no multiple of ninety degrees counts as none. -/
def Turn.ofDegrees (degrees : Int) : Turn :=
  match degrees.emod 360 with
  | 90 => quarter
  | 180 => half
  | 270 => threeQuarters
  | _ => none

/-- The size of a box after a turn. -/
def Turn.size (width height : α) : Turn → α × α
  | none | half => (width, height)
  | quarter | threeQuarters => (height, width)

/-- The map that turns a box at the origin and leaves it there. -/
def Turn.matrix (width height : α) : Turn → Matrix α
  | none => .identity
  | quarter => ⟨0, 1, -1, 0, height, 0⟩
  | half => ⟨-1, 0, 0, -1, width, height⟩
  | threeQuarters => ⟨0, -1, 1, 0, 0, width⟩

namespace Page

/-- The size of the output. -/
def size (p : Page α) : α × α :=
  (Turn.ofDegrees p.rotation).size p.cropBox.width p.cropBox.height

/-- From user space, whose second axis points up, to the output, whose second axis points down. -/
def baseMatrix (p : Page α) : Matrix α :=
  (Matrix.mk 1 0 0 (-1) (-p.cropBox.x1) p.cropBox.y2).multiply
    ((Turn.ofDegrees p.rotation).matrix p.cropBox.width p.cropBox.height)

/-- The setting in which the page is drawn. -/
def setting (p : Page α) (o : Options α) (library : Library α) : Setting α where
  options := o
  library := library
  base := p.baseMatrix
  viewport := .ofCorners 0 0 p.size.1 p.size.2

/-- Draws the content and then what lies over it. -/
def draw (p : Page α) (s : Setting α) : Draw α Unit := do
  drawContent s.environment p.content
  p.overlays.forM (Overlay.draw s.environment)

end Page

end PageSvg
