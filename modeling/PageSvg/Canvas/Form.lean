import PageSvg.Canvas.Shape
import PageSvg.Canvas.Graphics

/-!
# Forms and masks

A form is drawn under the state in force, with its effects around it as a whole. A soft mask is a
form drawn once into a mask element. Both are cut to their box, unless that lies around everything
there is to see.
-/

namespace PageSvg

variable {α : Type} [Scalar α]

/-- Does a box in device space leave the region in force, or the viewport where there is none, as
it is? -/
def boxIsMoot (viewport : Rectangle α) (clips : ClipForest α) (parent : Option Nat)
    (device : Path α) : Bool :=
  match Rectangle.bounds? device with
  | none => false
  | some b =>
    (parent.bind clips.plainRectangle?).any b.contains ||
      (parent.isNone && (Rectangle.ofPath? device).isSome && b.contains viewport)

/-- Cuts a region by the box of a form under a matrix; gives a region only if the box matters. -/
def Canvas.clipToBox (viewport : Rectangle α) (c : Canvas α) (parent : Option Nat)
    (box : Rectangle α) (m : Matrix α) : Option Nat × Canvas α :=
  let device := Path.transform m box.toPath
  if boxIsMoot viewport c.clips parent device then (none, c)
  else
    let (region, clips) := c.clips.insertPath parent device false
    (some region, { c with clips })

/-- As `clipToBox`, for a form that may have no box. The region is the parent where the box does not
matter. -/
def Canvas.formRegion (viewport : Rectangle α) (c : Canvas α) (parent : Option Nat)
    (box : Option (Rectangle α)) (m : Matrix α) : Option Nat × Canvas α :=
  match box with
  | none => (parent, c)
  | some box =>
    let (region, c) := c.clipToBox viewport parent box m
    (region.or parent, c)

namespace Form

/-- The elements of a form as one, under the effects in force. -/
def groupNode (f : Form α) (g : GraphicsState α) (nodes : List Node) : Node :=
  g.withEffects <|
    ({ tag := "g", children := nodes } : Node).setIf (f.group.any (·.isolated))
      "style" "isolation:isolate"

/-- Puts the elements of a form on the canvas: as a group if the form is one or effects are in
force, and one by one otherwise. -/
def place (f : Form α) (c : Canvas α) (nodes : List Node) : Canvas α :=
  let g := c.graphics
  if nodes.isEmpty then c
  else if f.group.isNone && g.blendMode.isNone && g.softMask.isNone then c.pushAll nodes
  else c.push (f.groupNode g nodes)

/-- Draws a form, unless it is being drawn already. -/
def draw (env : Environment α) (f : Form α) : Draw α Unit := do
  if (← get).activeForms.contains f.id then return
  modify (·.flushText env.options)
  let g := (← get).graphics
  let ctm := f.matrix.multiply g.ctm
  let region ← modifyGet (·.formRegion env.viewport g.clip f.bbox ctm)
  let state := { g with ctm := ctm, blendMode := none, softMask := none, clip := region }
  let c ← get
  let resources := f.resources.getD c.context.resources
  set { c with activeForms := f.id :: c.activeForms }
  let nodes? ←
    tryFinally (Draw.orSkip (env.nested state resources f.content c.context.colorLocked))
      (modify fun c => { c with activeForms := c.activeForms.drop 1 })
  modify (f.place · (nodes?.getD []))

end Form

namespace SoftMask

/-- A colour in a description. -/
def describeRgb (c : Rgb α) : String :=
  "Rgb \x7b r: " ++ Scalar.pointedText c.r ++ ", g: " ++ Scalar.pointedText c.g ++ ", b: " ++
    Scalar.pointedText c.b ++ " \x7d"

/-- The identifier of the definition of a mask. -/
def definitionId (m : SoftMask α) : String :=
  stableId "smask" <|
    m.group.id ++ "|" ++ m.kind.name ++ "|" ++
      match m.backdrop with
      | none => "None"
      | some c => "Some(" ++ describeRgb c ++ ")"

/-- The backdrop of a mask: none for black, on which a mask begins anyway. -/
def backdropNodes (o : Options α) (viewport : Rectangle α) (m : SoftMask α) : List Node :=
  match m.kind, m.backdrop with
  | .luminosity, some c =>
    if c == .black then []
    else [{ tag := "rect", attrs := viewport.attrs o ++ [("fill", c.css)] }]
  | _, _ => []

/-- The mask element around the elements of the group. -/
def maskNode (o : Options α) (viewport : Rectangle α) (m : SoftMask α) (nodes : List Node) :
    Node where
  tag := "mask"
  attrs := ("maskUnits", "userSpaceOnUse") :: viewport.attrs o ++
    (if m.kind = .alpha then [("style", "mask-type:alpha")] else [])
  children := m.backdropNodes o viewport ++ nodes

/-- Adds a mask to the definitions, unless it is there. Its group is drawn under the matrix of the
page. -/
def define (env : Environment α) (m : SoftMask α) : Draw α (Option String) := do
  let id := m.definitionId
  if (← get).definitions.contains id then return some id
  let ctm := m.group.matrix.multiply env.base
  let region ← modifyGet (·.formRegion env.viewport none m.group.bbox ctm)
  let state := { GraphicsState.initial ctm with clip := region }
  let resources := m.group.resources.getD (← get).context.resources
  match ← Draw.orSkip (env.nested state resources m.group.content false) with
  | none => return none
  | some nodes =>
    modify fun c =>
      { c with
        definitions := c.definitions.insertNew id (m.maskNode env.options env.viewport nodes) }
    return some id

end SoftMask

/-- Draws an external object. -/
def XObject.draw (env : Environment α) : XObject α → Draw α Unit
  | .image i => do
    modify (·.flushText env.options)
    i.draw env
  | .form f => f.draw env

/-- Draws an inline image, or a stand-in where it cannot be decoded. -/
def drawInlineImage (env : Environment α) (entries : Keyed (Operand α)) (data : List UInt8) :
    Draw α Unit := do
  modify (·.flushText env.options)
  match (env.resources (← get)).inlineImage entries data with
  | some i => i.draw env
  | none => modify (Image.drawBroken env.options)

namespace GraphicsParameters

/-- Applies a value that may be absent. -/
def setting {β : Type} (value : Option β) (f : Canvas α → β → Canvas α) (c : Canvas α) : Canvas α :=
  match value with
  | some x => f c x
  | none => c

/-- Applies all parameters but the mask. -/
def applyPlain (p : GraphicsParameters α) (c : Canvas α) : Canvas α :=
  c |> setting p.lineWidth Canvas.setLineWidth
    |> setting p.lineCap Canvas.setLineCap
    |> setting p.lineJoin Canvas.setLineJoin
    |> setting p.miterLimit Canvas.setMiterLimit
    |> setting p.dash (fun c d => c.setDash d.1 d.2)
    |> setting p.fillAlpha Canvas.setFillAlpha
    |> setting p.strokeAlpha Canvas.setStrokeAlpha
    |> setting p.blendMode Canvas.setBlendMode
    |> setting p.font (fun c f => c.setFont f.1 f.2)

/-- Applies parameters. -/
def apply (env : Environment α) (p : GraphicsParameters α) : Draw α Unit := do
  modify p.applyPlain
  match p.softMask with
  | none => return
  | some none => modify (·.setSoftMask none)
  | some (some mask) =>
    let id ← mask.define env
    modify (·.setSoftMask id)

end GraphicsParameters

/-- Where a shading is painted: its box, or all that can be seen. -/
def shadingArea (viewport : Rectangle α) (c : Canvas α) (s : Shading α) : Path α :=
  match s.bbox with
  | some box => Path.transform c.graphics.ctm box.toPath
  | none => (c.clipRectangle?.getD viewport).toPath

/-- Paints a shading. -/
def Canvas.paintShading (s : Setting α) (c : Canvas α) (shading : Shading α) : Canvas α :=
  let o := s.options
  let c := c.flushText o
  let device := shadingArea s.viewport c shading
  let (id, c) := c.gradient o shading c.graphics.ctm
  let fill := (id.map Node.reference).getD shading.average.css
  c.append o ((shapeNode o device false).set "fill" fill) (Rectangle.bounds? device)

end PageSvg
