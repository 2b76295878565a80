import PageSvg.Canvas.Execution
import PageSvg.Proofs.Canvas.Calls
import PageSvg.Proofs.Canvas.Growth

/-!
# Frames of drawing

What the functions on a canvas leave alone. `Frame` is about what is shared with the content
around; `Adjusts` is the special case of operators that only change how the next mark is made.
-/

namespace PageSvg

variable {α : Type}

/-- What drawing keeps: how deep the content is nested, and all that is shared so far. -/
structure Canvas.Frame (c d : Canvas α) : Prop where
  depth : d.depth = c.depth
  activeForms : d.activeForms = c.activeForms
  clips : c.clips.Grows d.clips
  definitions : c.definitions.Grows d.definitions

/-- The canvases differ only in how the next mark is made, in what holds no reference. -/
structure Canvas.Adjusts (c d : Canvas α) : Prop where
  depth : d.depth = c.depth
  activeForms : d.activeForms = c.activeForms
  clips : d.clips = c.clips
  definitions : d.definitions = c.definitions
  clip : d.context.graphics.clip = c.context.graphics.clip
  softMask : d.context.graphics.softMask = c.context.graphics.softMask
  saved : d.context.saved = c.context.saved
  drawn : d.context.drawn = c.context.drawn
  layout : d.context.layout = c.context.layout
  outlines : d.context.outlines = c.context.outlines
  textStyle : d.context.textStyle = c.context.textStyle ∨ d.context.textStyle = none

namespace Canvas

variable {c d e : Canvas α}

theorem Frame.refl (c : Canvas α) : c.Frame c := ⟨rfl, rfl, .refl _, .refl _⟩

theorem Frame.trans (h : c.Frame d) (h' : d.Frame e) : c.Frame e :=
  ⟨h'.depth.trans h.depth, h'.activeForms.trans h.activeForms, h.clips.trans h'.clips,
    h.definitions.trans h'.definitions⟩

theorem Adjusts.refl (c : Canvas α) : c.Adjusts c :=
  ⟨rfl, rfl, rfl, rfl, rfl, rfl, rfl, rfl, rfl, rfl, .inl rfl⟩

theorem Adjusts.trans (h : c.Adjusts d) (h' : d.Adjusts e) : c.Adjusts e := by
  refine ⟨h'.depth.trans h.depth, h'.activeForms.trans h.activeForms, h'.clips.trans h.clips,
    h'.definitions.trans h.definitions, h'.clip.trans h.clip, h'.softMask.trans h.softMask,
    h'.saved.trans h.saved, h'.drawn.trans h.drawn, h'.layout.trans h.layout,
    h'.outlines.trans h.outlines, ?_⟩
  rcases h'.textStyle with e | e
  · rw [e]; exact h.textStyle
  · exact .inr e

theorem Adjusts.frame (h : c.Adjusts d) : c.Frame d :=
  ⟨h.depth, h.activeForms, h.clips ▸ .refl _, h.definitions ▸ .refl _⟩

theorem frame_mapContext (c : Canvas α) (f : Context α → Context α) : c.Frame (c.mapContext f) :=
  ⟨rfl, rfl, .refl _, .refl _⟩

theorem frame_mapGraphics (c : Canvas α) (f : GraphicsState α → GraphicsState α) :
    c.Frame (c.mapGraphics f) := c.frame_mapContext _

section Adjustments

variable (c : Canvas α)

theorem adjusts_dropStyle : c.Adjusts c.dropStyle :=
  ⟨rfl, rfl, rfl, rfl, rfl, rfl, rfl, rfl, rfl, rfl, .inr rfl⟩

theorem adjusts_mapGraphics {f : GraphicsState α → GraphicsState α}
    (hclip : (f c.graphics).clip = c.graphics.clip)
    (hmask : (f c.graphics).softMask = c.graphics.softMask) : c.Adjusts (c.mapGraphics f) :=
  ⟨rfl, rfl, rfl, rfl, hclip, hmask, rfl, rfl, rfl, rfl, .inl rfl⟩

theorem adjusts_setting {β : Type} (value : Option β) {f : Canvas α → β → Canvas α}
    (h : ∀ (c : Canvas α) (x : β), c.Adjusts (f c x)) :
    c.Adjusts (GraphicsParameters.setting value f c) := by
  unfold GraphicsParameters.setting
  split
  · exact h c _
  · exact .refl c

theorem adjusts_mapText (f : TextState α → TextState α) : c.Adjusts (c.mapText f) :=
  c.adjusts_mapGraphics rfl rfl

theorem adjusts_mapUnless (same : Bool) {f : GraphicsState α → GraphicsState α}
    (hclip : (f c.graphics).clip = c.graphics.clip)
    (hmask : (f c.graphics).softMask = c.graphics.softMask) : c.Adjusts (c.mapUnless same f) := by
  unfold mapUnless
  split
  · exact .refl c
  · exact (c.adjusts_mapGraphics hclip hmask).trans (adjusts_dropStyle _)

theorem adjusts_setLineCap (code : Int64) : c.Adjusts (c.setLineCap code) := by
  unfold setLineCap
  split
  · exact c.adjusts_mapGraphics rfl rfl
  · exact .refl c

theorem adjusts_setLineJoin (code : Int64) : c.Adjusts (c.setLineJoin code) := by
  unfold setLineJoin
  split
  · exact c.adjusts_mapGraphics rfl rfl
  · exact .refl c

theorem adjusts_setMiterLimit (limit : α) : c.Adjusts (c.setMiterLimit limit) :=
  c.adjusts_mapGraphics rfl rfl

theorem adjusts_setDash (array : List α) (phase : α) : c.Adjusts (c.setDash array phase) :=
  c.adjusts_mapGraphics rfl rfl

theorem adjusts_setBlendMode (name : String) : c.Adjusts (c.setBlendMode name) :=
  c.adjusts_mapGraphics rfl rfl

theorem adjusts_setPaint (target : PaintTarget) (p : Paint α) : c.Adjusts (c.setPaint target p) :=
  match target with
  | .fill => c.adjusts_mapGraphics rfl rfl
  | .stroke => c.adjusts_mapGraphics rfl rfl

theorem adjusts_findColorSpace (env : Environment α) (name : String) :
    c.Adjusts (c.findColorSpace env name).2 := by
  unfold findColorSpace
  dsimp only
  split
  · exact .refl c
  · split
    · exact ⟨rfl, rfl, rfl, rfl, rfl, rfl, rfl, rfl, rfl, rfl, .inl rfl⟩
    · exact .refl c

theorem adjusts_mapPath (f : Path α → Path α) : c.Adjusts (c.mapPath f) :=
  ⟨rfl, rfl, rfl, rfl, rfl, rfl, rfl, rfl, rfl, rfl, .inl rfl⟩

theorem adjusts_setPendingClip (evenOdd : Bool) : c.Adjusts (c.setPendingClip evenOdd) :=
  ⟨rfl, rfl, rfl, rfl, rfl, rfl, rfl, rfl, rfl, rfl, .inl rfl⟩

theorem adjusts_lockColors : c.Adjusts (c.mapContext fun k => { k with colorLocked := true }) :=
  ⟨rfl, rfl, rfl, rfl, rfl, rfl, rfl, rfl, rfl, rfl, .inl rfl⟩

theorem adjusts_beginMarked : c.Adjusts c.beginMarked :=
  ⟨rfl, rfl, rfl, rfl, rfl, rfl, rfl, rfl, rfl, rfl, .inl rfl⟩

theorem adjusts_endMarked : c.Adjusts c.endMarked :=
  ⟨rfl, rfl, rfl, rfl, rfl, rfl, rfl, rfl, rfl, rfl, .inl rfl⟩

theorem adjusts_mapTextUnless (same : Bool) (f : TextState α → TextState α) :
    c.Adjusts (c.mapTextUnless same f) := c.adjusts_mapUnless same rfl rfl

theorem adjusts_setRenderMode (code : Int64) : c.Adjusts (c.setRenderMode code) := by
  unfold setRenderMode
  split
  · exact c.adjusts_mapTextUnless _ _
  · exact .refl c

variable [Scalar α]

theorem adjusts_transform (m : Matrix α) : c.Adjusts (c.transform m) := by
  unfold transform
  split
  · exact .refl c
  · exact (c.adjusts_mapGraphics (f := fun g => { g with ctm := m.multiply g.ctm }) rfl rfl).trans
      (adjusts_dropStyle _)

theorem adjusts_setLineWidth (width : α) : c.Adjusts (c.setLineWidth width) :=
  c.adjusts_mapUnless _ rfl rfl

theorem adjusts_setFillAlpha (alpha : α) : c.Adjusts (c.setFillAlpha alpha) :=
  c.adjusts_mapUnless _ rfl rfl

theorem adjusts_setStrokeAlpha (alpha : α) : c.Adjusts (c.setStrokeAlpha alpha) :=
  c.adjusts_mapUnless _ rfl rfl

theorem adjusts_setFont (font : Font α) (size : α) : c.Adjusts (c.setFont font size) :=
  c.adjusts_mapTextUnless _ _

theorem adjusts_setCharSpacing (spacing : α) : c.Adjusts (c.setCharSpacing spacing) :=
  c.adjusts_mapTextUnless _ _

theorem adjusts_setScaling (scaling : α) : c.Adjusts (c.setScaling scaling) :=
  c.adjusts_mapTextUnless _ _

theorem adjusts_moveLine (x y : α) : c.Adjusts (c.moveLine x y) := c.adjusts_mapText _

theorem adjusts_nextLine : c.Adjusts c.nextLine := c.adjusts_moveLine _ _

theorem adjusts_moveLineSettingLeading (x y : α) : c.Adjusts (c.moveLineSettingLeading x y) :=
  (c.adjusts_mapText _).trans (adjusts_moveLine _ x y)

theorem adjusts_beginText : c.Adjusts c.beginText :=
  ⟨rfl, rfl, rfl, rfl, rfl, rfl, rfl, rfl, rfl, rfl, .inl rfl⟩

theorem adjusts_applyPlain (p : GraphicsParameters α) : c.Adjusts (p.applyPlain c) := by
  unfold GraphicsParameters.applyPlain
  refine .trans ?_ (adjusts_setting _ _ fun c f => c.adjusts_setFont f.1 f.2)
  refine .trans ?_ (adjusts_setting _ _ adjusts_setBlendMode)
  refine .trans ?_ (adjusts_setting _ _ fun c alpha => c.adjusts_setStrokeAlpha alpha)
  refine .trans ?_ (adjusts_setting _ _ fun c alpha => c.adjusts_setFillAlpha alpha)
  refine .trans ?_ (adjusts_setting _ _ fun c d => c.adjusts_setDash d.1 d.2)
  refine .trans ?_ (adjusts_setting _ _ adjusts_setMiterLimit)
  refine .trans ?_ (adjusts_setting _ _ adjusts_setLineJoin)
  refine .trans ?_ (adjusts_setting _ _ adjusts_setLineCap)
  exact adjusts_setting _ _ fun c width => c.adjusts_setLineWidth width

theorem adjusts_setColorSpace (env : Environment α) (target : PaintTarget) (name : String) :
    c.Adjusts (c.setColorSpace env target name) := by
  unfold setColorSpace
  split
  · exact .refl c
  · exact ((c.adjusts_findColorSpace env name).trans (adjusts_setPaint _ target _)).trans
      (adjusts_dropStyle _)

theorem adjusts_setComponents (target : PaintTarget) (components : List α) :
    c.Adjusts (c.setComponents target components) := by
  unfold setComponents
  split
  · exact .refl c
  · dsimp only
    split
    · exact .refl c
    · split
      · exact .refl c
      · exact (c.adjusts_setPaint target _).trans (adjusts_dropStyle _)

theorem adjusts_setDeviceColor (target : PaintTarget) (space : ColorSpace α)
    (components : List α) : c.Adjusts (c.setDeviceColor target space components) := by
  unfold setDeviceColor
  split
  · exact .refl c
  · exact (c.adjusts_setPaint target _).trans (adjusts_setComponents _ target components)

theorem adjusts_setPattern (target : PaintTarget) (name : String) (components : List α) :
    c.Adjusts (c.setPattern target name components) := by
  unfold setPattern
  split
  · exact .refl c
  · exact (c.adjusts_setPaint target _).trans (adjusts_dropStyle _)

theorem adjusts_setColorOrPattern (target : PaintTarget) (operands : List (Operand α)) :
    c.Adjusts (c.setColorOrPattern target operands) := by
  unfold setColorOrPattern
  dsimp only
  split
  · exact c.adjusts_setPattern target _ _
  · split
    · exact c.adjusts_setComponents target _
    · exact .refl c

theorem adjusts_findFont (env : Environment α) (name : String) :
    c.Adjusts (c.findFont env name).2 := by
  unfold findFont
  dsimp only
  split
  · exact ⟨rfl, rfl, rfl, rfl, rfl, rfl, rfl, rfl, rfl, rfl, .inl rfl⟩
  · exact .refl c

theorem adjusts_selectFont (env : Environment α) (name : String) (size : α) :
    c.Adjusts (c.selectFont env name size) := by
  have hfont := (c.adjusts_findFont env name).trans (adjusts_setFont _ (c.findFont env name).1 size)
  unfold selectFont
  exact hfont.trans (adjusts_mapText _ _)

end Adjustments

/-! ### Drawing -/

section Drawing

variable (c : Canvas α)

theorem frame_pushAll (nodes : List Node) : c.Frame (c.pushAll nodes) := by
  unfold pushAll
  induction nodes generalizing c with
  | nil => exact .refl c
  | cons node rest ih => exact (c.frame_mapContext _).trans (ih _)

theorem frame_withClips {clips : ClipForest α} (h : c.clips.Grows clips) :
    c.Frame { c with clips } := ⟨rfl, rfl, h, .refl _⟩

theorem frame_insertNew (id : String) (node : Node) :
    c.Frame { c with definitions := c.definitions.insertNew id node } :=
  ⟨rfl, rfl, .refl _, c.definitions.grows_insertNew id node⟩

theorem frame_place (f : Form α) (nodes : List Node) : c.Frame (f.place c nodes) := by
  unfold Form.place
  dsimp only
  split
  · exact .refl c
  · split
    · exact c.frame_pushAll nodes
    · exact c.frame_mapContext _

variable [Scalar α] (o : Options α)

theorem frame_restore : c.Frame c.restore := by
  unfold restore
  split
  · exact .refl c
  · dsimp only
    split
    · exact c.frame_mapContext _
    · exact c.adjusts_dropStyle.frame.trans (frame_mapContext _ _)

theorem frame_append (node : Node) (bounds : Option (Rectangle α)) :
    c.Frame (c.append o node bounds) := by
  unfold append
  dsimp only
  split
  · exact c.frame_mapContext _
  · split
    · exact c.frame_mapContext _
    · exact ⟨rfl, rfl, c.clips.grows_mark _, .refl _⟩

theorem frame_paragraphNodes (p : Paragraph α) (part : TextPart) :
    c.Frame (c.paragraphNodes o p part).2 :=
  ⟨rfl, rfl, .refl _, Layout.grows_nodes o p part c.definitions⟩

theorem frame_drawPart (p : Paragraph α) (bounds : Option (Rectangle α)) (part : TextPart) :
    c.Frame (c.drawPart o p bounds part) := by
  have happend (c : Canvas α) (nodes : List Node) :
      c.Frame (nodes.foldl (fun c node => c.append o node bounds) c) := by
    induction nodes generalizing c with
    | nil => exact .refl c
    | cons node rest ih => exact (c.frame_append o node bounds).trans (ih _)
  exact (c.frame_paragraphNodes o p part).trans (happend _ _)

theorem frame_drawParagraph (p : Paragraph α) : c.Frame (c.drawParagraph o p) := by
  have hparts (c : Canvas α) (parts : List TextPart) :
      c.Frame (parts.foldl (drawPart o p (paragraphBounds p)) c) := by
    induction parts generalizing c with
    | nil => exact .refl c
    | cons part rest ih => exact (c.frame_drawPart o p _ part).trans (ih _)
  unfold drawParagraph
  split
  · exact c.frame_pushAll _
  · exact ((hparts c _).trans (frame_paragraphNodes _ o p .clip)).trans (frame_mapContext _ _)

theorem frame_flushText : c.Frame (c.flushText o) := by
  have hparagraphs (c : Canvas α) (paragraphs : List (Paragraph α)) :
      c.Frame (paragraphs.foldl (drawParagraph o) c) := by
    induction paragraphs generalizing c with
    | nil => exact .refl c
    | cons p rest ih => exact (c.frame_drawParagraph o p).trans (ih _)
  unfold flushText
  split
  · exact .refl c
  · exact (c.frame_mapContext _).trans (hparagraphs _ _)

theorem frame_clipTo (device : Path α) (evenOdd : Bool) : c.Frame (c.clipTo device evenOdd) :=
  ⟨rfl, rfl, c.clips.grows_insertPath c.graphics.clip device evenOdd, .refl _⟩

theorem frame_clipToText (nodes : List Node) : c.Frame (c.clipToText nodes) :=
  ⟨rfl, rfl, c.clips.grows_insertText c.graphics.clip nodes, .refl _⟩

theorem frame_endText : c.Frame (c.endText o) := by
  unfold endText
  dsimp only
  split
  · exact (c.frame_mapContext _).trans (frame_flushText _ o)
  · exact (((c.frame_mapContext _).trans (frame_flushText _ o)).trans (frame_mapContext _ _)).trans
      (frame_clipToText _ _)

theorem frame_clipToBox (viewport : Rectangle α) (parent : Option Nat) (box : Rectangle α)
    (m : Matrix α) : c.Frame (c.clipToBox viewport parent box m).2 := by
  unfold clipToBox
  dsimp only
  split
  · exact .refl c
  · exact c.frame_withClips (c.clips.grows_insertPath ..)

theorem frame_formRegion (viewport : Rectangle α) (parent : Option Nat)
    (box : Option (Rectangle α)) (m : Matrix α) :
    c.Frame (c.formRegion viewport parent box m).2 := by
  unfold formRegion
  split
  · exact .refl c
  · exact c.frame_clipToBox viewport parent _ m

theorem frame_gradient (s : Shading α) (m : Matrix α) : c.Frame (c.gradient o s m).2 := by
  unfold gradient
  split
  · exact .refl c
  · exact c.frame_insertNew _ _

theorem frame_paintShading (s : Setting α) (shading : Shading α) :
    c.Frame (c.paintShading s shading) :=
  ((c.frame_flushText s.options).trans (frame_gradient _ s.options shading _)).trans
    (frame_append _ s.options _ _)

theorem frame_drawBroken : c.Frame (Image.drawBroken o c) := c.frame_append o _ _

end Drawing

end Canvas

/-! ### How drawing ends

What several functions on a canvas, or several branches of one, do in the end, under a name. -/

/-- The end of painting a path: cuts the clip in force by the path if that was asked for. -/
def clipPending [Scalar α] (pending : Option Bool) (path : Path α) : Draw α Unit :=
  match pending with
  | none => return
  | some evenOdd => modify fun c => c.clipTo (Path.transform c.graphics.ctm path) evenOdd

/-- The end of making a definition: what was drawn for it, if anything, is kept under its name. -/
def keepDefinition (id : String) (node : List Node → Node) (nodes? : Option (List Node)) :
    Draw α (Option String) :=
  match nodes? with
  | none => return none
  | some nodes => do
    modify fun c => { c with definitions := c.definitions.insertNew id (node nodes) }
    return some id

/-- The end of finding the style of text: makes one for a state and keeps it as the last one. -/
def renewStyle [Scalar α] (env : Environment α) (g : GraphicsState α) (scale : α) :
    Draw α (TextStyle α) := do
  let style ← makeStyle env g scale
  modify fun c => c.mapContext fun k => { k with textStyle := some (scale, style) }
  return style

theorem currentStyle_eq [Scalar α] (env : Environment α) (scale : α) :
    currentStyle env scale = (do
      let c ← get
      match c.context.textStyle with
      | some (last, style) => if last == scale then pure style else renewStyle env c.graphics scale
      | none => renewStyle env c.graphics scale) := rfl

end PageSvg
