import PageSvg.Canvas.Basic

/-!
# Putting elements on the canvas

A drawn element gets the effects in force and lies in the clip region in force, unless that is one
rectangle that contains it. Neighbours in one region share a group.

Text is kept until something else is drawn: `flushText` puts it on the canvas.
-/

namespace PageSvg

variable {α : Type} [Scalar α]

/-- A group around one element. -/
def Node.wrapped (n : Node) (name value : String) : Node :=
  { tag := "g", attrs := [(name, value)], children := [n] }

/-- An element under a blend mode: on the element itself unless it has a style or a mask. -/
def Node.blended (n : Node) : Option String → Node
  | none => n
  | some mode =>
    let style := "mix-blend-mode:" ++ mode
    if n.has "style" || n.has "mask" then n.wrapped "style" style else n.set "style" style

/-- An element under a mask. -/
def Node.masked (n : Node) : Option String → Node
  | none => n
  | some mask => n.wrapped "mask" (Node.reference mask)

/-- An element under the blend mode and the mask of a graphics state. -/
def GraphicsState.withEffects (g : GraphicsState α) (n : Node) : Node :=
  (n.blended g.blendMode).masked g.softMask

/-- Puts an element into the group of a clip region of some name: the last element if that is the
group and still open, and a new one otherwise. -/
def Context.pushClipped (k : Context α) (region : Nat) (name : String) (node : Node) : Context α :=
  match k.openClip == some region, k.content with
  | true, group :: rest => { k with content := group.push node :: rest }
  | _, content =>
    { k with
      content := node.wrapped "clip-path" (Node.reference name) :: content
      openClip := some region }

namespace Canvas

/-- Puts an element on the canvas as it is. -/
def push (c : Canvas α) (node : Node) : Canvas α :=
  c.mapContext fun k => { k with content := node :: k.content, openClip := none }

/-- Puts elements on the canvas as they are. -/
def pushAll (c : Canvas α) (nodes : List Node) : Canvas α := nodes.foldl push c

/-- Can clipping to the region in force not change an element within the bounds? -/
def fits (o : Options α) (c : Canvas α) (bounds : Option (Rectangle α)) : Bool :=
  match o.rectClipFastPath, c.clipRectangle?, bounds with
  | true, some r, some b => r.contains b
  | _, _, _ => false

/-- Draws an element within some bounds, under the effects and in the clip region in force. -/
def append (o : Options α) (c : Canvas α) (node : Node) (bounds : Option (Rectangle α)) :
    Canvas α :=
  let node := c.graphics.withEffects node
  match c.graphics.clip with
  | none => c.push node
  | some region =>
    if c.fits o bounds then c.push node
    else
      let c := { c with clips := c.clips.mark region }
      c.mapContext (·.pushClipped region (c.clips.id region) node)

/-- The elements of a paragraph in a part, with the style rules they need. -/
def paragraphNodes (o : Options α) (c : Canvas α) (p : Paragraph α) (part : TextPart) :
    List Node × Canvas α :=
  let (nodes, definitions) := (Layout.nodes o p part).run c.definitions
  (nodes, { c with definitions })

/-- Draws the elements of a paragraph in a part. -/
def drawPart (o : Options α) (p : Paragraph α) (bounds : Option (Rectangle α)) (c : Canvas α)
    (part : TextPart) : Canvas α :=
  let (nodes, c) := c.paragraphNodes o p part
  nodes.foldl (fun c node => c.append o node bounds) c

/-- About where a paragraph lies: a font size above and below its line. -/
def paragraphBounds (p : Paragraph α) : Option (Rectangle α) :=
  let size := p.spans.foldl (fun size s => Scalar.max size s.style.size) 0
  let width := p.spans.foldl (fun width s => width + s.extent) 0
  Rectangle.bounds? <| Path.transform p.transform <|
    (Rectangle.ofCorners p.x (p.y - size) (p.x + width) (p.y + size)).toPath

/-- Draws a paragraph. What clips is kept for the end of the text object. -/
def drawParagraph (o : Options α) (c : Canvas α) (p : Paragraph α) : Canvas α :=
  match p.glyphs? with
  | some nodes => c.pushAll nodes
  | none =>
    let parts := .visible :: if o.includeHiddenText then [.invisible] else []
    let c := parts.foldl (drawPart o p (paragraphBounds p)) c
    let (outlines, c) := c.paragraphNodes o p .clip
    c.mapContext fun k => { k with outlines := k.outlines ++ outlines }

/-- Draws the text shown so far. -/
def flushText (o : Options α) (c : Canvas α) : Canvas α :=
  if c.context.layout.isEmpty then c
  else
    let paragraphs := c.context.layout.paragraphs
    paragraphs.foldl (drawParagraph o) (c.mapContext fun k => { k with layout := .empty })

end Canvas

end PageSvg
