import PageSvg.Canvas.Pattern
import PageSvg.Canvas.Graphics

/-!
# Showing text

A string is decoded by its font and laid out under the matrices of text and page. Where word
spacing applies, a string is split behind its spaces, so that the spacing becomes a gap between
runs. Fonts made of glyph procedures are drawn glyph by glyph.
-/

namespace PageSvg

variable {α : Type} [Scalar α]

namespace Canvas

/-- The font of a name: one of the resources, or the stand-in. Pages that share resources take the
one found first. -/
def findFont (env : Environment α) (c : Canvas α) (name : String) : Font α × Canvas α :=
  let resources := env.resources c
  let own := resources.fonts.get? name
  match c.cache, resources.key? .font name with
  | some cache, some key =>
    let (font, cache) := cache.font key own
    (font.getD .standIn, { c with cache := some cache })
  | _, _ => (own.getD .standIn, c)

/-- Selects a font and a size. -/
def selectFont (env : Environment α) (c : Canvas α) (name : String) (size : α) : Canvas α :=
  let (font, c) := c.findFont env name
  (c.setFont font size).mapText fun t => { t with fontName := some name }

end Canvas

namespace GraphicsState

/-- The font in force. -/
def currentFont (g : GraphicsState α) : Font α := g.text.font.getD .standIn

/-- The axis of glyphs points up, that of the output down. -/
def glyphFlip : Matrix α := ⟨1, 0, 0, -1, 0, 0⟩

/-- Where the next glyph is drawn, without its size. -/
def textPosition (g : GraphicsState α) : Matrix α :=
  ((glyphFlip.multiply (.shift 0 g.text.rise)).multiply g.text.matrix).multiply g.ctm

/-- Horizontal scaling as a factor. -/
def textScale (t : TextState α) : α := t.scaling / 100

/-- From glyph space to device space for glyphs with a matrix of their own. -/
def glyphMatrix (g : GraphicsState α) (m : Matrix α) : Matrix α :=
  let t := g.text
  let size : Matrix α := ⟨t.fontSize * textScale t, 0, 0, t.fontSize, 0, t.rise⟩
  ((m.multiply size).multiply t.matrix).multiply g.ctm

end GraphicsState

/-- How text is filled: by a colour, or by a definition. -/
def textFill (env : Environment α) (g : GraphicsState α) :
    Draw α (Option (Rgb α × α) × Option String) := do
  if !g.text.mode.fills then return (none, none)
  match g.fill.pattern with
  | none => return (some (g.fill.rgb, g.fill.alpha), none)
  | some name =>
    match ← patternPaint env name g.fill none with
    | .definition id => return (none, some id)
    | .solid rgb => return (some (rgb, g.fill.alpha), none)

/-- The style of text in a state, at the scale of a line. -/
def makeStyle (env : Environment α) (g : GraphicsState α) (scale : α) : Draw α (TextStyle α) := do
  let (fill, fillReference) ← textFill env g
  let t := g.text
  let font := g.currentFont
  return {
    family := font.family
    bold := font.bold
    italic := font.italic
    size := Scalar.abs (t.fontSize * scale)
    fill := fill
    fillReference := fillReference
    stroke :=
      if t.mode.strokes then
        some ⟨g.stroke.rgb, g.stroke.alpha,
          Scalar.max (g.lineWidth * g.ctm.meanScale) env.options.minStrokeWidth⟩
      else none
    letterSpacing := t.charSpacing * t.scaling / 100 * scale
    scaling := t.scaling
    mode := t.mode }

/-- The style of text at the scale of a line; the last one is used again as long as it holds. -/
def currentStyle (env : Environment α) (scale : α) : Draw α (TextStyle α) := do
  let c ← get
  match c.context.textStyle with
  | some (last, style) =>
    if last == scale then return style
  | none => pure ()
  let style ← makeStyle env c.graphics scale
  modify fun c => c.mapContext fun k => { k with textStyle := some (scale, style) }
  return style

/-- Pieces of a string, each up to a space. -/
def splitAfterSpaces : List UInt8 → List (List UInt8)
  | [] => []
  | b :: rest =>
    if b = 0x20 then [b] :: splitAfterSpaces rest
    else
      match splitAfterSpaces rest with
      | [] => [[b]]
      | piece :: pieces => (b :: piece) :: pieces

/-- The advance of a decoded string in text space, word spacing not included. -/
def glyphAdvance (t : TextState α) (d : DecodedText α) : α :=
  (d.width / 1000 * t.fontSize + t.charSpacing * Scalar.ofInt d.glyphCount) *
    GraphicsState.textScale t

/-- Shows a piece of a string, with word spacing for each of so many spaces. -/
def showPiece (env : Environment α) (font : Font α) (piece : List UInt8) (spaces : Nat) :
    Draw α Unit := do
  let o := env.options
  let c ← get
  let t := c.graphics.text
  let decoded := font.decode piece
  let advance := glyphAdvance t decoded
  let m := c.graphics.textPosition
  set (c.mapContext fun k => { k with layout := k.layout.position o m })
  let scale := m.splitPlacement.scale
  let style ← currentStyle env scale
  modify fun c =>
    (c.mapContext fun k =>
      { k with layout := k.layout.addText o decoded.text (advance * scale) style }).advance
      (advance + t.wordSpacing * Scalar.ofInt spaces * GraphicsState.textScale t)

/-- Draws the glyph of a code, if the font has one and the render mode shows it. -/
def drawGlyph (env : Environment α) (glyphs : GlyphProcedures α) (code : UInt8) :
    Draw α (List Node) := do
  let c ← get
  let g := c.graphics
  match glyphs.content code with
  | none => return []
  | some content =>
    if g.text.mode.isInvisible then return []
    let state := { g with ctm := g.glyphMatrix glyphs.matrix, text := .standard }
    let resources := glyphs.resources.getD c.context.resources
    return (← Draw.orSkip (env.nested state resources content false)).getD []

/-- Draws the glyphs of some codes one after the other. -/
def drawGlyphs (env : Environment α) (font : Font α) (glyphs : GlyphProcedures α) :
    List UInt8 → Draw α (List Node)
  | [] => return []
  | code :: rest => do
    let nodes ← drawGlyph env glyphs code
    let t := (← get).graphics.text
    let advance := (font.decode [code]).width / 1000 * t.fontSize + t.charSpacing
    let advance := if code = 0x20 then advance + t.wordSpacing else advance
    modify (·.advance (advance * GraphicsState.textScale t))
    return nodes ++ (← drawGlyphs env font glyphs rest)

/-- Shows a string in the font in force. -/
def showText (env : Environment α) (bytes : List UInt8) : Draw α Unit := do
  let g := (← get).graphics
  let font := g.currentFont
  match font.procedures with
  | some glyphs =>
    let nodes ← drawGlyphs env font glyphs bytes
    modify fun c => c.mapContext fun k => { k with layout := k.layout.addGlyphs nodes }
  | none =>
    if !(g.text.wordSpacing == 0) && font.wordSpacing then
      (splitAfterSpaces bytes).forM fun piece => showPiece env font piece (piece.count 0x20)
    else showPiece env font bytes 0

/-- Shows the strings of an array; a number moves back by thousandths of the font size. -/
def showAdjusted (env : Environment α) : List (Operand α) → Draw α Unit
  | [] => return
  | item :: rest => do
    match item with
    | .string bytes => showText env bytes
    | other =>
      match other.number? with
      | some n =>
        modify fun c =>
          let t := c.graphics.text
          c.advance (-n / 1000 * t.fontSize * t.scaling / 100)
      | none => pure ()
    showAdjusted env rest

/-- Ends a text object: its text is drawn, and what clips cuts the clip region. -/
def Canvas.endText (o : Options α) (c : Canvas α) : Canvas α :=
  let c := (c.mapContext fun k => { k with inText := false }).flushText o
  if c.context.outlines.isEmpty then c
  else
    let outlines := c.context.outlines
    (c.mapContext fun k => { k with outlines := [] }).clipToText outlines

end PageSvg
