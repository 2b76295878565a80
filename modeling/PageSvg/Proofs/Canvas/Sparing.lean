import PageSvg.Proofs.Canvas.Adjustment

/-!
# What the steps of drawing spare

No step but the operators on saved states themselves touches the saved states of a canvas, and none
touches the watch for a request to stop. What is drawn goes into a few fields of the canvas; all
others stay as they are.
-/

namespace PageSvg

variable {α : Type}

namespace Canvas

/-- The saved states and the watch for a request to stop are the same. -/
structure Spares (c d : Canvas α) : Prop where
  saved : d.context.saved = c.context.saved
  cancellation : d.cancellation = c.cancellation

variable {c d e : Canvas α}

theorem Spares.refl (c : Canvas α) : c.Spares c := ⟨rfl, rfl⟩

theorem Spares.trans (h : c.Spares d) (h' : d.Spares e) : c.Spares e :=
  ⟨h'.saved.trans h.saved, h'.cancellation.trans h.cancellation⟩

section Context

variable (c : Canvas α)

theorem cancellation_mapUnless (same : Bool) (f : GraphicsState α → GraphicsState α) :
    (c.mapUnless same f).cancellation = c.cancellation := by
  unfold mapUnless
  split <;> rfl

theorem cancellation_findColorSpace [Scalar α] (env : Environment α) (name : String) :
    (c.findColorSpace env name).2.cancellation = c.cancellation := by
  unfold findColorSpace
  dsimp only
  split
  · rfl
  · split <;> rfl

theorem cancellation_findFont [Scalar α] (env : Environment α) (name : String) :
    (c.findFont env name).2.cancellation = c.cancellation := by
  unfold findFont
  dsimp only
  split <;> rfl

theorem cancellation_setLineCap (code : Int64) :
    (c.setLineCap code).cancellation = c.cancellation := by
  unfold setLineCap
  split <;> rfl

theorem cancellation_setLineJoin (code : Int64) :
    (c.setLineJoin code).cancellation = c.cancellation := by
  unfold setLineJoin
  split <;> rfl

theorem cancellation_setRenderMode (code : Int64) :
    (c.setRenderMode code).cancellation = c.cancellation := by
  unfold setRenderMode
  split
  · exact c.cancellation_mapUnless _ _
  · rfl

theorem cancellation_restore [Scalar α] : c.restore.cancellation = c.cancellation := by
  unfold restore
  split
  · rfl
  · dsimp only
    split <;> rfl

end Context

section Adjustments

variable [Scalar α] (c : Canvas α)

theorem cancellation_transform (m : Matrix α) :
    (c.transform m).cancellation = c.cancellation := by
  unfold transform
  split <;> rfl

theorem cancellation_setColorSpace (env : Environment α) (target : PaintTarget) (name : String) :
    (c.setColorSpace env target name).cancellation = c.cancellation := by
  unfold setColorSpace
  split
  · rfl
  · exact c.cancellation_findColorSpace env name

theorem cancellation_setComponents (target : PaintTarget) (components : List α) :
    (c.setComponents target components).cancellation = c.cancellation := by
  unfold setComponents
  split
  · rfl
  · dsimp only
    split
    · rfl
    · split <;> rfl

theorem cancellation_setPattern (target : PaintTarget) (name : String) (components : List α) :
    (c.setPattern target name components).cancellation = c.cancellation := by
  unfold setPattern
  split <;> rfl

theorem cancellation_setColorOrPattern (target : PaintTarget) (operands : List (Operand α)) :
    (c.setColorOrPattern target operands).cancellation = c.cancellation := by
  unfold setColorOrPattern
  dsimp only
  split
  · exact c.cancellation_setPattern target _ _
  · split
    · exact c.cancellation_setComponents target _
    · rfl

theorem cancellation_setDeviceColor (target : PaintTarget) (space : ColorSpace α)
    (components : List α) :
    (c.setDeviceColor target space components).cancellation = c.cancellation := by
  unfold setDeviceColor
  split
  · rfl
  · exact cancellation_setComponents _ target components

end Adjustments

end Canvas

/-- No adjustment touches the watch for a request to stop. -/
theorem Adjustment.cancellation_apply [Scalar α] (a : Adjustment α) (env : Environment α)
    (c : Canvas α) : (a.apply env c).cancellation = c.cancellation := by
  cases a with
  | transform m => exact c.cancellation_transform m
  | lineWidth width => exact c.cancellation_mapUnless _ _
  | lineCap code => exact c.cancellation_setLineCap code
  | lineJoin code => exact c.cancellation_setLineJoin code
  | fillAlpha alpha => exact c.cancellation_mapUnless _ _
  | strokeAlpha alpha => exact c.cancellation_mapUnless _ _
  | font f size => exact c.cancellation_mapUnless _ _
  | selectFont name size =>
    exact (Canvas.cancellation_mapUnless _ _ _).trans (c.cancellation_findFont env name)
  | colorSpace target name => exact c.cancellation_setColorSpace env target name
  | components target values => exact c.cancellation_setComponents target values
  | pattern target name values => exact c.cancellation_setPattern target name values
  | colorOrPattern target operands => exact c.cancellation_setColorOrPattern target operands
  | deviceColor target space values => exact c.cancellation_setDeviceColor target space values
  | charSpacing spacing => exact c.cancellation_mapUnless _ _
  | scaling percent => exact c.cancellation_mapUnless _ _
  | renderMode code => exact c.cancellation_setRenderMode code
  | _ => rfl

theorem Adjustment.spares [Scalar α] (a : Adjustment α) (env : Environment α) (c : Canvas α) :
    c.Spares (a.apply env c) := ⟨(a.adjusts env c).saved, a.cancellation_apply env c⟩

namespace Canvas

theorem spares_setting {β : Type} (value : Option β) {f : Canvas α → β → Canvas α}
    (h : ∀ (c : Canvas α) (x : β), c.Spares (f c x)) (c : Canvas α) :
    c.Spares (GraphicsParameters.setting value f c) := by
  unfold GraphicsParameters.setting
  split
  · exact h c _
  · exact .refl c

theorem spares_applyPlain [Scalar α] (env : Environment α) (p : GraphicsParameters α)
    (c : Canvas α) : c.Spares (p.applyPlain c) := by
  have hset {β : Type} (a : β → Adjustment α) (value : Option β) (c : Canvas α) :
      c.Spares (GraphicsParameters.setting value (fun c x => (a x).apply env c) c) :=
    spares_setting value (fun c x => (a x).spares env c) c
  unfold GraphicsParameters.applyPlain
  refine .trans ?_ (hset (fun f => .font f.1 f.2) p.font _)
  refine .trans ?_ (hset .blendMode p.blendMode _)
  refine .trans ?_ (hset .strokeAlpha p.strokeAlpha _)
  refine .trans ?_ (hset .fillAlpha p.fillAlpha _)
  refine .trans ?_ (hset (fun d => .dash d.1 d.2) p.dash _)
  refine .trans ?_ (hset .miterLimit p.miterLimit _)
  refine .trans ?_ (hset .lineJoin p.lineJoin _)
  refine .trans ?_ (hset .lineCap p.lineCap _)
  exact hset .lineWidth p.lineWidth c

end Canvas

/-! ### Drawing -/

namespace Canvas

section Drawing

/-- The canvas `d` is `c` with other output, other text still to be drawn, and other regions and
definitions. -/
def Redraws (c d : Canvas α) : Prop :=
  d = { c with
    context := { c.context with
      content := d.context.content
      openClip := d.context.openClip
      layout := d.context.layout
      outlines := d.context.outlines }
    clips := d.clips
    definitions := d.definitions }

variable {c d e : Canvas α}

theorem Redraws.refl (c : Canvas α) : c.Redraws c := rfl

theorem Redraws.trans (h : c.Redraws d) (h' : d.Redraws e) : c.Redraws e := by
  unfold Redraws at *
  rw [h', h]

theorem Redraws.spares (h : c.Redraws d) : c.Spares d := by
  unfold Redraws at h
  rw [h]
  exact ⟨rfl, rfl⟩

theorem redraws_foldl {β : Type} {f : Canvas α → β → Canvas α}
    (h : ∀ (c : Canvas α) (x : β), c.Redraws (f c x)) (items : List β) (c : Canvas α) :
    c.Redraws (items.foldl f c) := by
  induction items generalizing c with
  | nil => exact .refl c
  | cons x rest ih => exact (h c x).trans (ih _)

theorem redraws_pushAll (nodes : List Node) (c : Canvas α) : c.Redraws (c.pushAll nodes) :=
  redraws_foldl (f := push) (fun _ _ => rfl) nodes c

theorem redraws_place (f : Form α) (nodes : List Node) (c : Canvas α) :
    c.Redraws (f.place c nodes) := by
  unfold Form.place
  dsimp only
  split
  · rfl
  · split
    · exact redraws_pushAll nodes c
    · rfl

variable [Scalar α] (o : Options α)

theorem redraws_append (node : Node) (bounds : Option (Rectangle α)) (c : Canvas α) :
    c.Redraws (c.append o node bounds) := by
  unfold Redraws
  rw [append_eq]
  rfl

theorem redraws_drawPart (p : Paragraph α) (bounds : Option (Rectangle α)) (c : Canvas α)
    (part : TextPart) : c.Redraws (c.drawPart o p bounds part) := by
  have hrules : c.Redraws (c.paragraphNodes o p part).2 := rfl
  exact hrules.trans (redraws_foldl (fun c node => c.redraws_append o node bounds) _ _)

theorem redraws_drawParagraph (c : Canvas α) (p : Paragraph α) :
    c.Redraws (c.drawParagraph o p) := by
  unfold drawParagraph
  split
  · exact redraws_pushAll _ c
  · exact (redraws_foldl (redraws_drawPart o p _) _ c).trans rfl

theorem redraws_flushText (c : Canvas α) : c.Redraws (c.flushText o) := by
  unfold flushText
  split
  · rfl
  · have hcleared : c.Redraws (c.mapContext fun k => { k with layout := .empty }) := rfl
    exact hcleared.trans (redraws_foldl (redraws_drawParagraph o) _ _)

theorem redraws_clipToBox (viewport : Rectangle α) (parent : Option Nat) (box : Rectangle α)
    (m : Matrix α) (c : Canvas α) : c.Redraws (c.clipToBox viewport parent box m).2 := by
  unfold clipToBox
  dsimp only
  split <;> rfl

theorem redraws_formRegion (viewport : Rectangle α) (parent : Option Nat)
    (box : Option (Rectangle α)) (m : Matrix α) (c : Canvas α) :
    c.Redraws (c.formRegion viewport parent box m).2 := by
  unfold formRegion
  split
  · rfl
  · exact redraws_clipToBox viewport parent _ m c

theorem redraws_gradient (s : Shading α) (m : Matrix α) (c : Canvas α) :
    c.Redraws (c.gradient o s m).2 := by
  unfold gradient
  split <;> rfl

theorem redraws_paintShading (s : Setting α) (shading : Shading α) (c : Canvas α) :
    c.Redraws (c.paintShading s shading) :=
  ((redraws_flushText s.options c).trans (redraws_gradient s.options shading _ _)).trans
    (redraws_append s.options _ _ _)

theorem redraws_drawBroken (c : Canvas α) : c.Redraws (Image.drawBroken o c) :=
  redraws_append o _ _ c

theorem spares_clipTo (c : Canvas α) (device : Path α) (evenOdd : Bool) :
    c.Spares (c.clipTo device evenOdd) := ⟨rfl, rfl⟩

theorem spares_endText (c : Canvas α) : c.Spares (c.endText o) := by
  have hleft : c.Spares (c.mapContext fun k => { k with inText := false }) := ⟨rfl, rfl⟩
  have hflushed := hleft.trans (redraws_flushText o _).spares
  unfold endText
  dsimp only
  split
  · exact hflushed
  · exact hflushed.trans ⟨rfl, rfl⟩

end Drawing

end Canvas

end PageSvg
