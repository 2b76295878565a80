import Mathlib.Data.List.Forall2
import PageSvg.Proofs.Canvas.Manner
import PageSvg.Proofs.Canvas.Painting
import PageSvg.Proofs.Geometry.Pens
import PageSvg.Proofs.Keyed
import PageSvg.Proofs.Layout.Classes

/-!
# Steps of a manner

What a relation between canvases has to stand up to, so that the interpreter and another manner of
drawing keep it: the single steps of drawing are listed in `Steps`, one field for each. Drawing the
text that was shown is made of them.
-/

namespace PageSvg

open Draw

variable {α : Type} [Scalar α]

/-! ### Text that was shown -/

section Layout

variable (o : Options α) (c : Canvas α)

theorem Canvas.layout_append (node : Node) (bounds : Option (Rectangle α)) :
    (c.append o node bounds).context.layout = c.context.layout := by
  rw [append_eq]
  rfl

theorem Canvas.layout_drawPart (p : Paragraph α) (bounds : Option (Rectangle α)) (part : TextPart) :
    (c.drawPart o p bounds part).context.layout = c.context.layout := by
  have happend (c : Canvas α) (nodes : List Node) :
      (nodes.foldl (fun c node => c.append o node bounds) c).context.layout = c.context.layout := by
    induction nodes generalizing c with
    | nil => rfl
    | cons node rest ih => exact (ih _).trans (c.layout_append o node bounds)
  exact happend _ _

theorem Canvas.layout_drawParagraph (p : Paragraph α) :
    (c.drawParagraph o p).context.layout = c.context.layout := by
  have hpush (c : Canvas α) (nodes : List Node) :
      (c.pushAll nodes).context.layout = c.context.layout := by
    unfold pushAll
    induction nodes generalizing c with
    | nil => rfl
    | cons node rest ih => exact ih _
  have hparts (c : Canvas α) (parts : List TextPart) :
      (parts.foldl (drawPart o p (paragraphBounds p)) c).context.layout = c.context.layout := by
    induction parts generalizing c with
    | nil => rfl
    | cons part rest ih => exact (ih _).trans (c.layout_drawPart o p _ part)
  unfold drawParagraph
  split
  · exact hpush c _
  · exact hparts c _

/-- No text is left when it has been drawn. -/
theorem Canvas.isEmpty_flushText : (c.flushText o).context.layout.isEmpty = true := by
  have hparagraphs (c : Canvas α) (paragraphs : List (Paragraph α)) :
      (paragraphs.foldl (drawParagraph o) c).context.layout = c.context.layout := by
    induction paragraphs generalizing c with
    | nil => rfl
    | cons p rest ih => exact (ih _).trans (c.layout_drawParagraph o p)
  unfold flushText
  split
  · assumption
  · rw [hparagraphs]
    rfl

end Layout

/-! ### Style rules -/

namespace Definitions

/-- The definitions differ in their rules alone. -/
def OnlyRules (d e : Definitions) : Prop := e = { d with classes := e.classes }

theorem OnlyRules.refl (d : Definitions) : d.OnlyRules d := rfl

theorem OnlyRules.trans {d e f : Definitions} (h : d.OnlyRules e) (h' : e.OnlyRules f) :
    d.OnlyRules f := by
  unfold OnlyRules at *
  rw [h', h]

theorem onlyRules_styleClass (d : Definitions) (declarations : String) :
    d.OnlyRules (d.styleClass declarations).2 := by
  unfold styleClass
  split
  · rfl
  · rfl

end Definitions

namespace Layout

section Elements

variable (o : Options α) (p : Paragraph α) (part : TextPart) (d : Definitions)

theorem onlyRules_stretched (s : PlacedSpan α) : d.OnlyRules (stretched o p part s d).2 :=
  d.onlyRules_styleClass _

theorem onlyRules_inner (last : Option Nat) (s : PlacedSpan α) :
    d.OnlyRules (inner o part last s d).2 := d.onlyRules_styleClass _

theorem onlyRules_inners (last : Option Nat) (spans : List (PlacedSpan α)) :
    d.OnlyRules (inners o part last spans d).2 := by
  induction spans generalizing last d with
  | nil => exact .refl d
  | cons s rest ih => exact (onlyRules_inner o part d last s).trans (ih _ _)

theorem onlyRules_mapM_stretched (spans : List (PlacedSpan α)) :
    d.OnlyRules ((spans.mapM (stretched o p part)) d).2 := by
  induction spans generalizing d with
  | nil => exact .refl d
  | cons s rest ih =>
    rw [List.mapM_cons]
    exact (onlyRules_stretched o p part d s).trans (ih _)

/-- The elements of a paragraph add rules and no definitions. -/
theorem onlyRules_nodes : d.OnlyRules ((nodes o p part).run d).2 := by
  unfold nodes
  cases p.glyphs? with
  | some nodes => exact .refl d
  | none =>
    cases selected p part with
    | nil => exact .refl d
    | cons first rest =>
      show d.OnlyRules (spanNodes o p part (first :: rest) d).2
      rw [spanNodes]
      split
      · exact onlyRules_mapM_stretched o p part d _
      · dsimp only
        split
        · exact d.onlyRules_styleClass _
        · exact onlyRules_inners o part d none (first :: rest)

end Elements

end Layout

/-! ### Paragraphs -/

/-- The paragraphs come to the same elements at the same place, whatever part is drawn. -/
structure Paragraph.DrawnAlike (o : Options α) (p p' : Paragraph α) : Prop where
  glyphs : p'.glyphs? = p.glyphs?
  nodes : ∀ part, Layout.nodes o p' part = Layout.nodes o p part
  bounds : Canvas.paragraphBounds p' = Canvas.paragraphBounds p

theorem Paragraph.DrawnAlike.refl (o : Options α) (p : Paragraph α) : p.DrawnAlike o p :=
  ⟨rfl, fun _ => rfl, rfl⟩

/-! ### Steps -/

/-- The values are the components of a colour of a device space. -/
def ColorSpace.DeviceColor : ColorSpace α → List α → Prop
  | deviceGray, [_] | deviceRgb, [_, _, _] | deviceCmyk, [_, _, _, _] => True
  | _, _ => False

/-- The font of a set of parameters is one of the library, colours of device spaces have as many
components as they need, and a path goes on so that it begins with a move. -/
def Adjustment.Known (s : Setting α) : Adjustment α → Prop
  | font f _ => ∃ set ∈ s.library, ∃ entry ∈ set.parameters, ∃ size, entry.2.font = some (f, size)
  | deviceColor _ space values => space.DeviceColor values
  | path f => ∀ path, path.Anchored → (f path).Anchored
  | _ => True

/-- The canvas without the text that was shown. -/
def Canvas.clearText (c : Canvas α) : Canvas α :=
  c.mapContext fun k => { k with layout := .empty }

/-- What becomes of the text that was clipped to, at the end of a text object. -/
def Canvas.clipToOutlines (c : Canvas α) : Canvas α :=
  (c.mapContext fun k => { k with outlines := [] }).clipToText c.context.outlines

/-- The relation `R` between canvases is kept by each step of the interpreter and of a manner `m`,
with the contexts `outer` around. Content may still be nested if `deep`, and begins in graphics
states as in `G`. -/
structure Steps (s : Setting α) (m : Manner α) (outer : List (Context α)) (deep : Prop)
    (R : Canvas α → Canvas α → Prop)
    (G : ClipForest α → GraphicsState α → GraphicsState α → Prop) : Prop where
  agrees : ∀ {c c'}, R c c' → c.Agrees c'
  look : ∀ {c c'}, R c c' → c'.cancellation.isSeen = c.cancellation.isSeen ∧
    R c.looked c'.looked
  watch : ∀ {c c'}, R c c' → Matches R (pure ()) (m.watch outer) c c' fun _ _ _ => True
  -- Changes of the context
  adjust : ∀ {c c' n} (a : Adjustment α), a.Known s → R c c' →
    R (a.apply ⟨s, n⟩ c) (a.apply ⟨s, n⟩ c')
  save : ∀ {c c'}, R c c' → R c.save c'.save
  restore : ∀ {c c'}, R c c' → R c.restore c'.restore
  setSoftMask : ∀ {c c'} (mask : Option String), R c c' → R (c.setSoftMask mask) (c'.setSoftMask mask)
  -- Text
  text : ∀ {c c'}, R c c' →
    List.Forall₂ (Paragraph.DrawnAlike s.options) c.context.layout.recent c'.context.layout.recent
  clearText : ∀ {c c'}, R c c' → R c.clearText c'.clearText
  outlines : ∀ {c c'} (outlines : List Node), R c c' →
    R (c.mapContext fun k => { k with outlines }) (c'.mapContext fun k => { k with outlines })
  addGlyphs : ∀ {c c'} (nodes : List Node), R c c' →
    R (c.mapContext fun k => { k with layout := k.layout.addGlyphs nodes })
      (c'.mapContext fun k => { k with layout := k.layout.addGlyphs nodes })
  showPiece : ∀ {c c' n n'}, Painting s n n' deep R → (Environment.mk s n).Isolates →
    ∀ font piece spaces, R c c' →
    Matches R (PageSvg.showPiece ⟨s, n⟩ font piece spaces) (m.showPiece ⟨s, n'⟩ font piece spaces)
      c c' fun _ _ _ => True
  -- Marks
  push : ∀ {c c'} (node : Node), c.context.layout.isEmpty = true → R c c' →
    R (c.push node) (m.push c' node)
  append : ∀ {c c'} (node : Node) (bounds : Option (Rectangle α)),
    c.context.layout.isEmpty = true → R c c' →
    R (c.append s.options node bounds) (m.append s.options c' node bounds)
  -- Definitions
  classes : ∀ {c c'} (classes : Keyed String),
    (c.definitions.Named → { c.definitions with classes }.Named) → R c c' →
    R { c with definitions := { c.definitions with classes } }
      { c' with definitions := { c'.definitions with classes } }
  insert : ∀ {c c' kind}, kind ∈ paintKinds → ∀ (key : String) (node : Node), R c c' →
    R { c with definitions := c.definitions.insertNew (stableId kind key) node }
      { c' with definitions := c'.definitions.insertNew (stableId kind key) node }
  insertCell : deep → ∀ {c c'} (key : String) (node : Node), R c c' →
    R { c with definitions := c.definitions.insertNew (stableId "pat" key) node }
      { c' with definitions := c'.definitions.insertNew (stableId "pat" key) node }
  -- Clip regions
  /-- The path is one that was under construction. -/
  clipTo : ∀ {b b' c c'} (evenOdd : Bool), R b b' → R c c' →
    R (c.clipTo (Path.transform c.graphics.ctm b.context.path) evenOdd)
      (c'.clipTo (Path.transform c.graphics.ctm b.context.path) evenOdd)
  clipToText : ∀ {c c'} (nodes : List Node), R c c' → R (c.clipToText nodes) (c'.clipToText nodes)
  formRegion : ∀ {c c'} (parent : Option Nat) (box : Option (Rectangle α)) (placement : Matrix α),
    parent = none ∨ parent = c.graphics.clip → R c c' →
    R (c.formRegion s.viewport parent box placement).2
      (c'.formRegion s.viewport parent box placement).2
  activeForms : ∀ {c c'} (forms : List String), (c.activeForms.Nodup → forms.Nodup) → R c c' →
    R { c with activeForms := forms } { c' with activeForms := forms }
  -- Graphics states in which nested content begins
  startCell : ∀ {c c'} (t : Tiling α) (paint : Paint α), s.HasPattern (.tiling t) → R c c' →
    G c.clips (t.cellState paint) (t.cellState paint)
  startGlyph : ∀ {c c'} (ctm : Matrix α), R c c' →
    G c.clips { c.graphics with ctm := ctm, text := .standard }
      { c'.graphics with ctm := ctm, text := .standard }
  startForm : ∀ {c c'} (box : Option (Rectangle α)) (ctm : Matrix α), R c c' →
    G (c.formRegion s.viewport c.graphics.clip box ctm).2.clips
      { c.graphics with
        ctm := ctm
        blendMode := none
        softMask := none
        clip := (c.formRegion s.viewport c.graphics.clip box ctm).1 }
      { c'.graphics with
        ctm := ctm
        blendMode := none
        softMask := none
        clip := (c.formRegion s.viewport c.graphics.clip box ctm).1 }
  startPage : ∀ {c c'} (parent : Option Nat) (box : Option (Rectangle α)) (ctm : Matrix α),
    parent = none ∨ parent = c.graphics.clip → R c c' →
    G (c.formRegion s.viewport parent box ctm).2.clips
      { GraphicsState.initial ctm with clip := (c.formRegion s.viewport parent box ctm).1 }
      { GraphicsState.initial ctm with clip := (c.formRegion s.viewport parent box ctm).1 }

/-- Where both ways of drawing keep the last style of text, a piece of a string is shown alike. -/
theorem Painting.showPiece {s : Setting α} {m : Manner α} {n n' : Nesting α} {deep : Prop}
    {R : Canvas α → Canvas α → Prop} {c c' : Canvas α} (h : Painting s n n' deep R)
    (hm : m.style = currentStyle)
    (hkept : ∀ {c c'}, R c c' → c'.context.textStyle = c.context.textStyle)
    (hstyle : ∀ {c c'} textStyle, R c c' → R (c.mapContext fun k => { k with textStyle })
      (c'.mapContext fun k => { k with textStyle }))
    (hlayout : ∀ {c c'} (layout : TextLayout α → TextLayout α), R c c' →
      R (c.mapContext fun k => { k with layout := layout k.layout })
        (c'.mapContext fun k => { k with layout := layout k.layout }))
    (hadvance : ∀ {c c'} (x : α), R c c' → R (c.advance x) (c'.advance x))
    (font : Font α) (piece : List UInt8) (spaces : Nat) (hR : R c c') :
    Matches R (PageSvg.showPiece ⟨s, n⟩ font piece spaces) (m.showPiece ⟨s, n'⟩ font piece spaces)
      c c' fun _ _ _ => True := by
  obtain ⟨fill, stroke, hg⟩ := (h.agrees hR).graphics
  unfold PageSvg.showPiece Manner.showPiece
  refine .getBind ?_
  rw [hm, hg]
  have hset := hlayout (·.position s.options c.graphics.textPosition) hR
  refine .setBind ?_
  refine .bind (matches_currentStyle h hset (hkept hset) hstyle _) fun style d d' hd _ => ?_
  have hadded := hlayout (·.addText s.options (font.decode piece).text
    (glyphAdvance c.graphics.text (font.decode piece) *
      c.graphics.textPosition.splitPlacement.scale) style) hd
  exact .modify (hadvance _ hadded) trivial

/-! ### Drawing the text that was shown -/

section Flushing

variable {s : Setting α} {m : Manner α} {outer : List (Context α)} {deep : Prop}
  {R : Canvas α → Canvas α → Prop}
  {G : ClipForest α → GraphicsState α → GraphicsState α → Prop} {c c' : Canvas α}

namespace Steps

variable (h : Steps s m outer deep R G)

include h

theorem pushAll (hR : R c c') (hempty : c.context.layout.isEmpty = true) (nodes : List Node) :
    R (c.pushAll nodes) (m.pushAll c' nodes) := by
  unfold Canvas.pushAll Manner.pushAll
  induction nodes generalizing c c' with
  | nil => exact hR
  | cons node rest ih => exact ih (h.push node hempty hR) hempty

/-- The elements of paragraphs add rules, and the same ones. -/
theorem paragraphNodes (hR : R c c') {p p' : Paragraph α} (hp : p.DrawnAlike s.options p')
    (part : TextPart) :
    (c'.paragraphNodes s.options p' part).1 = (c.paragraphNodes s.options p part).1 ∧
      R (c.paragraphNodes s.options p part).2 (c'.paragraphNodes s.options p' part).2 := by
  have hrules := Layout.onlyRules_nodes s.options p part c.definitions
  unfold Canvas.paragraphNodes
  rw [hp.nodes, (h.agrees hR).definitions]
  refine ⟨rfl, ?_⟩
  show R { c with definitions := ((Layout.nodes s.options p part).run c.definitions).2 }
    { c' with definitions := ((Layout.nodes s.options p part).run c.definitions).2 }
  have hclasses := h.classes ((Layout.nodes s.options p part).run c.definitions).2.classes
    (Layout.named_nodes s.options p part) hR
  rw [(h.agrees hR).definitions] at hclasses
  rw [hrules]
  exact hclasses

theorem drawPart (hR : R c c') (hempty : c.context.layout.isEmpty = true) {p p' : Paragraph α}
    (hp : p.DrawnAlike s.options p') (bounds : Option (Rectangle α)) (part : TextPart) :
    R (c.drawPart s.options p bounds part) (m.drawPart s.options p' bounds c' part) := by
  have happend (nodes : List Node) {c c' : Canvas α} (hR : R c c')
      (hempty : c.context.layout.isEmpty = true) :
      R (nodes.foldl (fun c node => c.append s.options node bounds) c)
        (nodes.foldl (fun c node => m.append s.options c node bounds) c') := by
    induction nodes generalizing c c' with
    | nil => exact hR
    | cons node rest ih =>
      exact ih (h.append node bounds hempty hR)
        ((c.layout_append s.options node bounds).symm ▸ hempty)
  obtain ⟨hnodes, hR⟩ := h.paragraphNodes hR hp part
  unfold Canvas.drawPart Manner.drawPart
  dsimp only
  rw [hnodes]
  exact happend _ hR hempty

theorem addOutlines (hR : R c c') (nodes : List Node) :
    R (c.mapContext fun k => { k with outlines := k.outlines ++ nodes })
      (c'.mapContext fun k => { k with outlines := k.outlines ++ nodes }) := by
  show R _ (c'.mapContext fun k => { k with outlines := c'.context.outlines ++ nodes })
  rw [(h.agrees hR).outlines]
  exact h.outlines _ hR

theorem drawParagraph (hR : R c c') (hempty : c.context.layout.isEmpty = true) {p p' : Paragraph α}
    (hp : p.DrawnAlike s.options p') :
    R (c.drawParagraph s.options p) (m.drawParagraph s.options c' p') := by
  have hparts (parts : List TextPart) {c c' : Canvas α} (hR : R c c')
      (hempty : c.context.layout.isEmpty = true) :
      R (parts.foldl (Canvas.drawPart s.options p (Canvas.paragraphBounds p)) c)
        (parts.foldl (m.drawPart s.options p' (Canvas.paragraphBounds p)) c') := by
    induction parts generalizing c c' with
    | nil => exact hR
    | cons part rest ih =>
      exact ih (h.drawPart hR hempty hp _ part)
        ((c.layout_drawPart s.options p _ part).symm ▸ hempty)
  unfold Canvas.drawParagraph Manner.drawParagraph
  rw [hp.bounds, hp.glyphs]
  cases p.glyphs? with
  | some nodes => exact h.pushAll hR hempty nodes
  | none =>
    obtain ⟨houtlines, hR⟩ := h.paragraphNodes
      (hparts (.visible :: if s.options.includeHiddenText then [.invisible] else []) hR hempty) hp
      .clip
    dsimp only
    rw [houtlines]
    exact h.addOutlines hR _

theorem flushText (hR : R c c') : R (c.flushText s.options) (m.flushText s.options c') := by
  have hparagraphs {paragraphs paragraphs' : List (Paragraph α)}
      (hp : List.Forall₂ (Paragraph.DrawnAlike s.options) paragraphs paragraphs')
      {c c' : Canvas α} (hR : R c c') (hempty : c.context.layout.isEmpty = true) :
      R (paragraphs.foldl (Canvas.drawParagraph s.options) c)
        (paragraphs'.foldl (m.drawParagraph s.options) c') := by
    induction hp generalizing c c' with
    | nil => exact hR
    | @cons p _ rest _ hp _ ih =>
      exact ih (h.drawParagraph hR hempty hp) ((c.layout_drawParagraph s.options p).symm ▸ hempty)
  have htext := h.text hR
  have hempty : c'.context.layout.isEmpty = c.context.layout.isEmpty := by
    unfold TextLayout.isEmpty
    rw [Bool.eq_iff_iff, List.isEmpty_iff_length_eq_zero, List.isEmpty_iff_length_eq_zero,
      htext.length_eq]
  unfold Canvas.flushText Manner.flushText
  rw [hempty]
  split
  · exact hR
  · -- The text is taken off the canvas before it is drawn.
    exact hparagraphs (List.rel_reverse htext) (h.clearText hR) rfl

theorem clipToOutlines (hR : R c c') : R c.clipToOutlines c'.clipToOutlines := by
  unfold Canvas.clipToOutlines
  rw [(h.agrees hR).outlines]
  exact h.clipToText _ (h.outlines [] hR)

end Steps

end Flushing

end PageSvg
