import PageSvg.Converter

/-!
# Manners of drawing

The interpreter with some of its steps left open: how elements are put on the canvas and read back,
where the style of text comes from, and what is done between operations. `Manner.plain` fills them
in as the interpreter itself does, which the lemmas named `plain_…` show; other manners say what
would become of a page if one of these steps were different.

A manner also sees the contexts around nested content, the innermost first.
-/

namespace PageSvg

variable {α : Type} [Scalar α]

/-- The steps of drawing that are left open. -/
structure Manner (α : Type) where
  /-- Puts an element on the canvas as it is. -/
  push : Canvas α → Node → Canvas α
  /-- Draws an element within some bounds, under the effects and in the clip region in force. -/
  append : Options α → Canvas α → Node → Option (Rectangle α) → Canvas α
  /-- The elements drawn in the context, in order. -/
  content : Canvas α → List Node
  /-- The style of text at the scale of a line. -/
  style : Environment α → α → Draw α (TextStyle α)
  /-- What is done before each operation and at the end, given the contexts around. -/
  watch : List (Context α) → Draw α Unit

namespace Manner

/-- As the interpreter draws. -/
def plain : Manner α where
  push := Canvas.push
  append := Canvas.append
  content := Canvas.content
  style := currentStyle
  watch _ := pure ()

/-- As the interpreter draws, with something done between operations. -/
def watching (watch : List (Context α) → Draw α Unit) : Manner α := { plain with watch }

variable (m : Manner α)

/-! ### Text that was shown -/

/-- Puts elements on the canvas as they are. -/
def pushAll (c : Canvas α) (nodes : List Node) : Canvas α := nodes.foldl m.push c

/-- Draws the elements of a paragraph in a part. -/
def drawPart (o : Options α) (p : Paragraph α) (bounds : Option (Rectangle α)) (c : Canvas α)
    (part : TextPart) : Canvas α :=
  let (nodes, c) := c.paragraphNodes o p part
  nodes.foldl (fun c node => m.append o c node bounds) c

/-- Draws a paragraph. -/
def drawParagraph (o : Options α) (c : Canvas α) (p : Paragraph α) : Canvas α :=
  match p.glyphs? with
  | some nodes => m.pushAll c nodes
  | none =>
    let parts := .visible :: if o.includeHiddenText then [.invisible] else []
    let c := parts.foldl (m.drawPart o p (Canvas.paragraphBounds p)) c
    let (outlines, c) := c.paragraphNodes o p .clip
    c.mapContext fun k => { k with outlines := k.outlines ++ outlines }

/-- Draws the text shown so far. -/
def flushText (o : Options α) (c : Canvas α) : Canvas α :=
  if c.context.layout.isEmpty then c
  else
    let paragraphs := c.context.layout.paragraphs
    paragraphs.foldl (m.drawParagraph o) (c.mapContext fun k => { k with layout := .empty })

/-- Ends a text object. -/
def endText (o : Options α) (c : Canvas α) : Canvas α :=
  let c := m.flushText o (c.mapContext fun k => { k with inText := false })
  if c.context.outlines.isEmpty then c
  else
    let outlines := c.context.outlines
    (c.mapContext fun k => { k with outlines := [] }).clipToText outlines

/-! ### Shapes and images -/

/-- Draws a path of user space. -/
def drawPath (env : Environment α) (path : Path α) (mode : PaintMode) : Draw α Unit := do
  let c ← get
  let g := c.graphics
  let o := env.options
  let device := Path.transform g.ctm path
  match Rectangle.bounds? device with
  | none => return
  | some bounds =>
    let visible :=
      if mode.strokes then some (device, bounds) else cutToClip o c.clipRectangle? device bounds
    match visible with
    | none => return
    | some (device, bounds) =>
      let transform := if mode.strokes && !g.ctm.isUniform then some g.ctm else none
      let node : Node :=
        match transform with
        | some m =>
          { tag := "path", attrs := [("d", PathData.text o.precision path), ("transform", m.text o)] }
        | none => shapeNode o device mode.strokes
      let node ←
        if mode.fills then fillNode env node mode.evenOdd transform
        else pure (node.set "fill" "none")
      if mode.strokes then
        let node ← strokeNode env node transform
        modify fun c => m.append o c node (some (bounds.inflate (g.strokeReach o)))
      else modify fun c => m.append o c node (some bounds)

/-- Paints the path and begins a new one. -/
def paintPath (env : Environment α) (mode : PaintMode) : Draw α Unit := do
  if mode.closes then modify Canvas.closePath
  let k := (← get).context
  modify (·.mapContext fun k => { k with path := [], pendingClip := none })
  if (mode.strokes || mode.fills) && !k.path.isEmpty then
    modify (m.flushText env.options)
    m.drawPath env k.path mode
  match k.pendingClip with
  | none => return
  | some evenOdd => modify fun c => c.clipTo (Path.transform c.graphics.ctm k.path) evenOdd

/-- Draws the stand-in for an image. -/
def drawBroken (o : Options α) (c : Canvas α) : Canvas α :=
  let placement := Image.placement c.graphics
  m.append o c (Image.brokenNode o placement) (Image.bounds placement)

/-- Draws an image, a stencil in the fill colour. -/
def drawImage (env : Environment α) (i : Image α) : Draw α Unit := do
  let o := env.options
  let placement := Image.placement (← get).graphics
  match i.url with
  | .error _ => modify (m.drawBroken o)
  | .ok url =>
    let id := i.definitionId
    modify fun c => { c with definitions := c.definitions.insertNew id (i.definition url) }
    let node ←
      if i.isMask then do
        let maskId := stableId "mask" id
        modify fun c => { c with definitions := c.definitions.insertNew maskId (Image.stencil id) }
        fillNode env
          { tag := "rect"
            attrs := [("width", "1"), ("height", "1"), ("mask", Node.reference maskId),
              ("transform", placement.text o)] }
          false (some placement)
      else pure { tag := "use", attrs := [("href", "#" ++ id), ("transform", placement.text o)] }
    modify fun c => m.append o c node (Image.bounds placement)

/-- Draws an inline image, or a stand-in where it cannot be decoded. -/
def drawInlineImage (env : Environment α) (entries : Keyed (Operand α)) (data : List UInt8) :
    Draw α Unit := do
  modify (m.flushText env.options)
  match (env.resources (← get)).inlineImage entries data with
  | some i => m.drawImage env i
  | none => modify (m.drawBroken env.options)

/-! ### Forms and shadings -/

/-- Puts the elements of a form on the canvas. -/
def place (f : Form α) (c : Canvas α) (nodes : List Node) : Canvas α :=
  let g := c.graphics
  if nodes.isEmpty then c
  else if f.group.isNone && g.blendMode.isNone && g.softMask.isNone then m.pushAll c nodes
  else m.push c (f.groupNode g nodes)

/-- Draws a form, unless it is being drawn already. -/
def drawForm (env : Environment α) (f : Form α) : Draw α Unit := do
  if (← get).activeForms.contains f.id then return
  modify (m.flushText env.options)
  let g := (← get).graphics
  let ctm := f.matrix.multiply g.ctm
  let region ← modifyGet (·.formRegion env.viewport g.clip f.bbox ctm)
  let state := { g with ctm := ctm, blendMode := none, softMask := none, clip := region }
  let c ← get
  let resources := f.resources.getD c.context.resources
  set { c with activeForms := f.id :: c.activeForms }
  let nodes? ←
    tryFinally (Draw.orSkip (env.nested state resources f.content c.context.colorLocked))
      (modify fun c => { c with activeForms := c.activeForms.drop 1 })
  modify (m.place f · (nodes?.getD []))

/-- Draws the external object of a name. -/
def drawXObject (env : Environment α) (name : String) : Draw α Unit := do
  match (env.resources (← get)).xobjects.get? name with
  | some (.image i) => do
    modify (m.flushText env.options)
    m.drawImage env i
  | some (.form f) => m.drawForm env f
  | none => return

/-- Paints a shading. -/
def paintShading (s : Setting α) (c : Canvas α) (shading : Shading α) : Canvas α :=
  let o := s.options
  let c := m.flushText o c
  let device := shadingArea s.viewport c shading
  let (id, c) := c.gradient o shading c.graphics.ctm
  let fill := (id.map Node.reference).getD shading.average.css
  m.append o c ((shapeNode o device false).set "fill" fill) (Rectangle.bounds? device)

/-- Paints the shading of a name. -/
def drawShading (env : Environment α) (name : String) : Draw α Unit := do
  match (env.resources (← get)).shadings.get? name with
  | some s => modify fun c => m.paintShading env.toSetting c s
  | none => return

/-! ### Text -/

/-- Shows a piece of a string, with word spacing for each of so many spaces. -/
def showPiece (env : Environment α) (font : Font α) (piece : List UInt8) (spaces : Nat) :
    Draw α Unit := do
  let o := env.options
  let c ← get
  let t := c.graphics.text
  let decoded := font.decode piece
  let advance := glyphAdvance t decoded
  let position := c.graphics.textPosition
  set (c.mapContext fun k => { k with layout := k.layout.position o position })
  let scale := position.splitPlacement.scale
  let style ← m.style env scale
  modify fun c =>
    (c.mapContext fun k =>
      { k with layout := k.layout.addText o decoded.text (advance * scale) style }).advance
      (advance + t.wordSpacing * Scalar.ofInt spaces * GraphicsState.textScale t)

/-- Shows a string in the font in force. -/
def showText (env : Environment α) (bytes : List UInt8) : Draw α Unit := do
  let g := (← get).graphics
  let font := g.currentFont
  match font.procedures with
  | some glyphs =>
    let nodes ← drawGlyphs env font glyphs bytes
    modify fun c => c.mapContext fun k => { k with layout := k.layout.addGlyphs nodes }
  | none =>
    if !(g.text.wordSpacing == 0) && font.wordSpacing then
      (splitAfterSpaces bytes).forM fun piece => m.showPiece env font piece (piece.count 0x20)
    else m.showPiece env font bytes 0

/-- Shows the strings of an array; a number moves back by thousandths of the font size. -/
def showAdjusted (env : Environment α) : List (Operand α) → Draw α Unit
  | [] => return
  | item :: rest => do
    match item with
    | .string bytes => m.showText env bytes
    | other =>
      match other.number? with
      | some n =>
        modify fun c =>
          let t := c.graphics.text
          c.advance (-n / 1000 * t.fontSize * t.scaling / 100)
      | none => pure ()
    showAdjusted env rest

/-! ### Content -/

/-- Performs an operator. Those without a step left open are as ever. -/
def perform (env : Environment α) (args : Arguments α) : Operator → Draw α Unit
  | .paint mode => m.paintPath env mode
  | .endText => modify (m.endText env.options)
  | .showText => m.showText env (args.bytes 0)
  | .showAdjusted => m.showAdjusted env (args.items 0)
  | .showOnNextLine => do
    modify (·.nextLine)
    m.showText env (args.bytes 0)
  | .showSpacedOnNextLine => do
    modify fun c => ((c.setWordSpacing (args.number 0)).setCharSpacing (args.number 1)).nextLine
    m.showText env (args.bytes 2)
  | .xobject => m.drawXObject env (args.name 0)
  | .shading => m.drawShading env (args.name 0)
  | .inlineImage =>
    match (args.operand? 0).bind Operand.entries? with
    | some entries => m.drawInlineImage env entries (args.bytes 1)
    | none => return
  | op => op.perform env args

/-- Executes an operation. -/
def execute (env : Environment α) (op : Operation α) : Draw α Bool := do
  match Operator.table.resolve op.operator op.operands with
  | none => return false
  | some (operator, args) =>
    m.perform env args operator
    return true

/-- Executes operations in order, up to the first that fails. -/
def executeAll (env : Environment α) (outer : List (Context α)) : ContentStream α → Draw α Unit
  | [] => m.watch outer
  | op :: rest => do
    m.watch outer
    Draw.checkCancelled
    let _ ← m.execute env op
    executeAll env outer rest

/-- Executes all of some content and draws the text that is still open. -/
def drawContent (env : Environment α) (outer : List (Context α)) (content : ContentStream α) :
    Draw α Unit := do
  m.executeAll env outer content
  modify (m.flushText env.options)
  m.watch outer

/-- Draws nested content where so many levels are left, and gives its elements. -/
def nested (s : Setting α) :
    Nat → List (Context α) → GraphicsState α → SetId → ContentStream α → Bool →
      Draw α (List Node)
  | 0, _, _, _, _, _ => do
    Draw.checkCancelled
    throw (.nestingTooDeep s.options.maxNestingDepth)
  | level + 1, outer, graphics, resources, content, locked => do
    Draw.checkCancelled
    let outer := (← get).context :: outer
    Draw.inside { Context.start graphics resources with colorLocked := locked } do
      m.drawContent { toSetting := s, nested := nested s level outer } outer content
      return m.content (← get)

/-- What content at some level needs to know. -/
def environment (s : Setting α) (level : Nat) (outer : List (Context α)) : Environment α where
  toSetting := s
  nested := m.nested s level outer

/-! ### Pages -/

/-- Draws an annotation. -/
def drawOverlay (env : Environment α) (a : Overlay α) : Draw α Unit := do
  if a.hidden then return
  match a.appearance.bbox with
  | none => return
  | some box =>
    match a.placement? env.base box with
    | none => return
    | some ctm =>
      modify (m.flushText env.options)
      let region ← modifyGet fun c => c.formRegion env.viewport c.graphics.clip (some box) ctm
      let state := { GraphicsState.initial ctm with clip := region }
      let resources := a.appearance.resources.getD (← get).context.resources
      let nodes? ← Draw.orSkip (env.nested state resources a.appearance.content false)
      modify (m.pushAll · (nodes?.getD []))

/-- Draws the content of a page and then what lies over it. -/
def drawPage (s : Setting α) (p : Page α) : Draw α Unit := do
  let env := m.environment s s.options.maxNestingDepth []
  m.drawContent env [] p.content
  p.overlays.forM fun a => do
    m.drawOverlay env a
    m.watch []

/-- Converts a page. -/
def convert (v : Converter α) (p : Page α) : Except (Fault α) (Document α) × Converter α :=
  let s := p.setting v.options v.library
  let keep (c : Canvas α) : Converter α :=
    { v with cache := c.cache.getD v.cache, cancellation := c.cancellation }
  match m.drawPage s p (v.canvas p) with
  | .ok _ c => (.ok (c.finish s), keep c)
  | .error fault c => (.error fault, keep c)

/-! ### The plain manner -/

section Operators

variable (watch : List (Context α) → Draw α Unit)

theorem watching_drawXObject (env : Environment α) (name : String) :
    (watching watch).drawXObject env name = PageSvg.drawXObject env name := by
  unfold drawXObject PageSvg.drawXObject
  refine bind_congr fun c => ?_
  split
  · next h => rw [h]; rfl
  · next h => rw [h]; rfl
  · next h => rw [h]

theorem watching_showAdjusted (env : Environment α) (items : List (Operand α)) :
    (watching watch).showAdjusted env items = PageSvg.showAdjusted env items := by
  induction items with
  | nil => rfl
  | cons item rest ih =>
    cases item with
    | string bytes => exact congrArg (fun next => PageSvg.showText env bytes >>= fun _ => next) ih
    | integer n | real x => exact congrArg (fun next => modify _ >>= fun _ => next) ih
    | _ => exact ih

theorem watching_perform (env : Environment α) (args : Arguments α) (op : Operator) :
    (watching watch).perform env args op = op.perform env args := by
  cases op with
  | showAdjusted => exact watching_showAdjusted watch env _
  | xobject => exact watching_drawXObject watch env _
  | _ => rfl

theorem watching_execute (env : Environment α) (op : Operation α) :
    (watching watch).execute env op = PageSvg.execute env op := by
  unfold execute PageSvg.execute OperatorTable.dispatch
  cases Operator.table.resolve op.operator op.operands with
  | none => rfl
  | some resolved => exact congrArg (· >>= fun _ => pure true) (watching_perform watch env _ _)

end Operators

theorem plain_executeAll (env : Environment α) (outer : List (Context α))
    (content : ContentStream α) :
    plain.executeAll env outer content = PageSvg.executeAll env content := by
  induction content with
  | nil => rfl
  | cons op rest ih =>
    unfold executeAll PageSvg.executeAll
    rw [ih, show plain.execute env op = PageSvg.execute env op from watching_execute _ env op]
    rfl

theorem plain_drawContent (env : Environment α) (outer : List (Context α))
    (content : ContentStream α) :
    plain.drawContent env outer content = PageSvg.drawContent env content := by
  unfold drawContent PageSvg.drawContent
  rw [plain_executeAll]
  rfl

theorem plain_nested (s : Setting α) (level : Nat) (outer : List (Context α)) :
    plain.nested s level outer = s.nested level := by
  induction level generalizing outer with
  | zero => rfl
  | succ level ih =>
    funext graphics resources content locked
    unfold nested Setting.nested
    refine bind_congr fun _ => ?_
    simp only [ih, plain_drawContent]
    rfl

/-- **The plain manner is the interpreter.** -/
theorem plain_drawPage (s : Setting α) (p : Page α) : plain.drawPage s p = p.draw s := by
  have hoverlay (env : Environment α) (a : Overlay α) : (do
      plain.drawOverlay env a
      plain.watch []) = a.draw env := bind_pure_unit
  unfold drawPage Page.draw environment
  simp only [plain_nested, plain_drawContent, hoverlay]
  rfl

theorem plain_convert (v : Converter α) (p : Page α) : plain.convert v p = v.convert p := by
  cases h : p.draw (p.setting v.options v.library) (v.canvas p) <;>
    simp only [convert, Converter.convert, plain_drawPage, h]

section Converting

variable {v : Converter α} {p : Page α} {c : Canvas α}

/-- The converter after a page that ended on a canvas. -/
def after (v : Converter α) (c : Canvas α) : Converter α :=
  { v with cache := c.cache.getD v.cache, cancellation := c.cancellation }

theorem convert_ok (h : m.drawPage (p.setting v.options v.library) p (v.canvas p) = .ok () c) :
    m.convert v p = (.ok (c.finish (p.setting v.options v.library)), after v c) := by
  simp only [convert, h, after]

theorem convert_error {fault : Fault α}
    (h : m.drawPage (p.setting v.options v.library) p (v.canvas p) = .error fault c) :
    m.convert v p = (.error fault, after v c) := by
  simp only [convert, h, after]

end Converting

end Manner

end PageSvg
