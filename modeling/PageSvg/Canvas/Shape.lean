import PageSvg.Canvas.Pattern
import PageSvg.Operator.Basic

/-!
# Shapes and images

Paths are drawn in device space, or in user space where a stroke would be distorted otherwise. A
filled rectangle inside a plain clip rectangle is cut to it instead of being clipped. Images fill
the unit square of user space.
-/

namespace PageSvg

variable {α : Type} [Scalar α]

namespace GraphicsState

/-- The width of a stroke in the units of its geometry, user space or device space; it is at least
the width of the thinnest line. -/
def strokeWidth (o : Options α) (g : GraphicsState α) (userSpace : Bool) : α :=
  let scale := g.ctm.meanScale
  if userSpace then
    Scalar.max g.lineWidth (if 0 < scale then o.minStrokeWidth / scale else o.minStrokeWidth)
  else Scalar.max (g.lineWidth * scale) o.minStrokeWidth

/-- How far a stroke may reach beyond its path in device space. -/
def strokeReach (o : Options α) (g : GraphicsState α) : α :=
  let scale := Scalar.max (Matrix.length (g.ctm.a, g.ctm.b)) (Matrix.length (g.ctm.c, g.ctm.d))
  let half := Scalar.max (g.lineWidth * scale) o.minStrokeWidth / 2
  match g.lineJoin with
  | .miter => half * Scalar.max g.miterLimit (Scalar.sqrt 2)
  | _ => half * Scalar.sqrt 2

/-- The miter limit that is not written. -/
def standardMiterLimit : α := 4

/-- An element with the attributes of its joins. -/
def withJoin (o : Options α) (g : GraphicsState α) (node : Node) : Node :=
  match g.lineJoin with
  | .miter =>
    node.setIf (!(g.miterLimit == standardMiterLimit)) "stroke-miterlimit"
      (o.text (Scalar.max g.miterLimit 1))
  | join => node.set "stroke-linejoin" join.css

/-- An element with the attributes of its dashes. -/
def withDash (o : Options α) (g : GraphicsState α) (scale : α) (node : Node) : Node :=
  if g.dash.isSolid then node
  else
    let lengths := g.dash.array.map fun x => o.text (Scalar.abs x * scale)
    (node.set "stroke-dasharray" (String.intercalate " " lengths)).setIf (!(g.dash.phase == 0))
      "stroke-dashoffset" (o.text (g.dash.phase * scale))

/-- An element with the attributes of its stroke, apart from those that need not be written. -/
def withStroke (o : Options α) (g : GraphicsState α) (userSpace : Bool) (paint : String)
    (node : Node) : Node :=
  let width := g.strokeWidth o userSpace
  let node := node.set "stroke" paint
  let node := node.setIf (!(width == 1)) "stroke-width" (o.text width)
  let node := node.setIf (g.stroke.alpha < 1) "stroke-opacity" (o.text g.stroke.alpha)
  let node := node.setIf (g.lineCap != .butt) "stroke-linecap" g.lineCap.css
  g.withDash o (if userSpace then 1 else g.ctm.meanScale) (g.withJoin o node)

/-- An element with the attributes of its fill, apart from those that need not be written. -/
def withFill (o : Options α) (g : GraphicsState α) (evenOdd : Bool) (paint : String)
    (node : Node) : Node :=
  let node := node.setIf (paint != "#000") "fill" paint
  let node := node.setIf (g.fill.alpha < 1) "fill-opacity" (o.text g.fill.alpha)
  node.setIf evenOdd "fill-rule" "evenodd"

end GraphicsState

/-- An element filled with the paint in force. -/
def fillNode (env : Environment α) (node : Node) (evenOdd : Bool)
    (transform : Option (Matrix α)) : Draw α Node := do
  let g := (← get).graphics
  let paint ← paintValue env g.fill transform
  return g.withFill env.options evenOdd paint node

/-- An element stroked with the paint in force. -/
def strokeNode (env : Environment α) (node : Node) (transform : Option (Matrix α)) :
    Draw α Node := do
  let g := (← get).graphics
  let paint ← paintValue env g.stroke transform
  return g.withStroke env.options transform.isSome paint node

/-- The attributes of a rectangle. -/
def Rectangle.attrs (o : Options α) (r : Rectangle α) : List (String × String) :=
  [("x", o.text r.x1), ("y", o.text r.y1), ("width", o.text r.width), ("height", o.text r.height)]

/-- The element of a path in device space. A stroked path is a rectangle only if it is closed. -/
def shapeNode (o : Options α) (device : Path α) (stroked : Bool) : Node :=
  match if stroked then Rectangle.ofClosedPath? device else Rectangle.ofPath? device with
  | some r => { tag := "rect", attrs := r.attrs o }
  | none => { tag := "path", attrs := [("d", PathData.text o.precision device)] }

/-- What is drawn of a path that is filled and not stroked: a rectangle in a plain clip rectangle is
cut to the common part, and nothing is left of it where there is none. -/
def cutToClip (o : Options α) (clip : Option (Rectangle α)) (device : Path α)
    (bounds : Rectangle α) : Option (Path α × Rectangle α) :=
  match o.rectClipFastPath, clip, Rectangle.ofPath? device with
  | true, some clip, some r => (r.intersect? clip).map fun visible => (visible.toPath, visible)
  | _, _, _ => some (device, bounds)

/-- Draws a path of user space. -/
def drawPath (env : Environment α) (path : Path α) (mode : PaintMode) : Draw α Unit := do
  let c ← get
  let g := c.graphics
  let o := env.options
  let device := Path.transform g.ctm path
  match Rectangle.bounds? device with
  | none => return
  | some bounds =>
    let visible :=
      if mode.strokes then some (device, bounds) else cutToClip o c.clipRectangle? device bounds
    match visible with
    | none => return
    | some (device, bounds) =>
      let transform := if mode.strokes && !g.ctm.isUniform then some g.ctm else none
      let node : Node :=
        match transform with
        | some m =>
          { tag := "path", attrs := [("d", PathData.text o.precision path), ("transform", m.text o)] }
        | none => shapeNode o device mode.strokes
      let node ←
        if mode.fills then fillNode env node mode.evenOdd transform
        else pure (node.set "fill" "none")
      if mode.strokes then
        let node ← strokeNode env node transform
        modify fun c => c.append o node (some (bounds.inflate (g.strokeReach o)))
      else modify fun c => c.append o node (some bounds)

namespace Image

/-- From the unit square with its origin at the top to user space. -/
def flip : Matrix α := ⟨1, 0, 0, -1, 0, 1⟩

/-- The matrix under which an image is drawn. -/
def placement (g : GraphicsState α) : Matrix α := flip.multiply g.ctm

/-- The bounds of the unit square under a matrix. -/
def bounds (m : Matrix α) : Option (Rectangle α) :=
  Rectangle.bounds? (Path.transform m (Rectangle.ofCorners 0 0 1 1).toPath)

/-- The definition of an image. -/
def definition (i : Image α) (url : String) : Node :=
  ({ tag := "image"
     attrs := [("width", "1"), ("height", "1"), ("preserveAspectRatio", "none"), ("href", url)] } :
    Node).setIf (!i.interpolate) "image-rendering" "optimizeSpeed"

/-- The identifier of the definition of an image. -/
def definitionId (i : Image α) : String :=
  stableId "img" (i.key ++ "|" ++ if i.interpolate then "true" else "false")

/-- The mask that a stencil is painted through. -/
def stencil (id : String) : Node where
  tag := "mask"
  attrs := [("maskContentUnits", "userSpaceOnUse"), ("style", "mask-type:alpha")]
  children := [{ tag := "use", attrs := [("href", "#" ++ id)] }]

/-- What stands in the place of an image that cannot be drawn. -/
def brokenNode (o : Options α) (m : Matrix α) : Node where
  tag := "rect"
  attrs :=
    [("width", "1"), ("height", "1"), ("fill", (Rgb.gray (0.8 : α)).css),
      ("stroke", (Rgb.mk (0.8 : α) 0 0).css), ("stroke-width", "0.01"), ("class", "broken-image"),
      ("transform", m.text o)]

/-- Draws the stand-in for an image. -/
def drawBroken (o : Options α) (c : Canvas α) : Canvas α :=
  let m := placement c.graphics
  c.append o (brokenNode o m) (bounds m)

/-- Draws an image, a stencil in the fill colour. -/
def draw (env : Environment α) (i : Image α) : Draw α Unit := do
  let o := env.options
  let m := placement (← get).graphics
  match i.url with
  | .error _ => modify (drawBroken o)
  | .ok url =>
    let id := i.definitionId
    modify fun c => { c with definitions := c.definitions.insertNew id (i.definition url) }
    let node ←
      if i.isMask then do
        let maskId := stableId "mask" id
        modify fun c => { c with definitions := c.definitions.insertNew maskId (stencil id) }
        fillNode env
          { tag := "rect"
            attrs := [("width", "1"), ("height", "1"), ("mask", Node.reference maskId),
              ("transform", m.text o)] }
          false (some m)
      else pure { tag := "use", attrs := [("href", "#" ++ id), ("transform", m.text o)] }
    modify fun c => c.append o node (bounds m)

end Image

end PageSvg
