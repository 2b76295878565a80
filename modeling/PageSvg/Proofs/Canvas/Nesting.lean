import PageSvg.Proofs.Canvas.Adjustment
import PageSvg.Proofs.Canvas.Safety

/-!
# Nested content keeps canvases sound

Forms, masks, glyphs and all other operators lead to sound canvases if nested content does. Content
in a context of its own gives resolved elements, and the context around it, which comes back, is as
sound as before among what has been added; so each level of nesting is sound, by induction.
-/

namespace PageSvg

open Draw

variable {α β : Type} [Scalar α]

section Operators

variable {env : Environment α} (h : env.Sound) {c : Canvas α} (hc : c.Sound)

include h hc

theorem safe_drawInlineImage (entries : Keyed (Operand α)) (data : List UInt8) :
    Safe (drawInlineImage env entries data) c fun _ _ => True := by
  have hd := hc.flushText env.options
  unfold drawInlineImage
  refine .modifyBind (c.frame_flushText _) (.getBind ?_)
  split
  · exact safe_drawImage h hd _
  · exact .modify (Canvas.frame_drawBroken _ _) (hd.drawBroken _)

theorem safe_paintPath (mode : PaintMode) : Safe (paintPath env mode) c fun _ _ => True := by
  have hclip {d : Canvas α} (hd : d.Sound) (pending : Option Bool) (path : Path α) :
      Safe (clipPending pending path) d fun _ _ => True := by
    cases pending with
    | none => exact .pure hd trivial
    | some evenOdd => exact .modify (d.frame_clipTo _ _) (hd.clipTo _ _)
  have hrest {d : Canvas α} (hd : d.Sound) : Safe (do
      let k := (← get).context
      modify (·.mapContext fun k => { k with path := [], pendingClip := none })
      if (mode.strokes || mode.fills) && !k.path.isEmpty then
        modify (·.flushText env.options)
        drawPath env k.path mode
      clipPending k.pendingClip k.path) d fun _ _ => True := by
    refine .getBind ?_
    have he : (d.mapContext fun k => { k with path := [], pendingClip := none }).Sound :=
      hd.mapContext { hd.context with }
    refine .modifyBind (d.frame_mapContext _) (.ite (fun _ => ?_) fun _ => hclip he _ _)
    refine .modifyBind (Canvas.frame_flushText _ _) ?_
    exact .bind (safe_drawPath h (he.flushText _) _ _) fun _ e he _ => hclip he.sound _ _
  unfold paintPath
  refine .ite (fun _ => ?_) fun _ => hrest hc
  exact .modifyBind (c.adjusts_mapPath _).frame (hrest (hc.adjusted (c.adjusts_mapPath _)))

/-! ### Forms and masks -/

theorem safe_drawForm (f : Form α) : Safe (f.draw env) c fun _ _ => True := by
  unfold Form.draw
  refine .getBind (.ite (fun _ => .pure hc trivial) fun _ => ?_)
  have hd := hc.flushText env.options
  refine .modifyBind (c.frame_flushText _) (.getBind ?_)
  have hclip : (c.flushText env.options).clips.Valid (c.flushText env.options).graphics.clip :=
    hd.context.graphics.clip
  have hcut := hd.formRegion env.viewport hclip f.bbox
    (f.matrix.multiply (c.flushText env.options).graphics.ctm)
  refine .modifyGetBind (Canvas.frame_formRegion _ _ _ _ _) (.getBind ?_)
  dsimp only
  revert hcut
  generalize (c.flushText env.options).formRegion env.viewport
    (c.flushText env.options).graphics.clip f.bbox
    (f.matrix.multiply (c.flushText env.options).graphics.ctm) = r
  obtain ⟨region, e⟩ := r
  rintro ⟨he, hregion⟩
  -- The form is taken off the list of those being drawn whatever becomes of its content.
  have hpop {b : Canvas α} (hb : Canvas.Leads { e with activeForms := f.id :: e.activeForms } b) :
      e.Leads { b with activeForms := b.activeForms.drop 1 } :=
    ⟨⟨hb.depth, by rw [hb.activeForms]; rfl, hb.clips, hb.definitions⟩, hb.sound.pool,
      hb.sound.context⟩
  have hinner := Safe.orSkip (h
    { (c.flushText env.options).graphics with
      ctm := f.matrix.multiply (c.flushText env.options).graphics.ctm
      blendMode := none
      softMask := none
      clip := region }
    (f.resources.getD e.context.resources) f.content e.context.colorLocked
    { e with activeForms := f.id :: e.activeForms } ⟨he.pool, he.context⟩
    (GraphicsState.sound_of_none hregion rfl))
  rw [Safe, ends_bind, ends_set, ends_bind, ends_tryFinally]
  refine Ends.mono hinner (fun nodes? b hb => ?_) fun fault b hb => hpop hb
  refine ⟨⟨(hpop hb.1).toFrame.trans (Canvas.frame_place _ f _), ?_⟩, trivial⟩
  refine (hpop hb.1).sound.place f ?_
  cases nodes? with
  | none => exact fun _ hn => absurd hn List.not_mem_nil
  | some nodes => exact hb.2 nodes rfl

theorem safe_defineMask (m : SoftMask α) :
    Safe (m.define env) c fun id? d => ∀ id, id? = some id → d.definitions.contains id = true := by
  unfold SoftMask.define
  refine .getBind (.ite (fun hid => ?_) fun _ => ?_)
  · exact .pure hc fun id e => Option.some.inj e ▸ hid
  · have hnone : c.clips.Valid none := fun _ e => nomatch e
    obtain ⟨hd, hregion⟩ := hc.formRegion env.viewport hnone m.group.bbox
      (m.group.matrix.multiply env.base)
    refine .modifyGetBind (c.frame_formRegion ..) (.getBind ?_)
    refine .bind (.orSkip (h _ _ _ _ _ hd (GraphicsState.sound_of_none hregion rfl)))
      fun nodes? e he hnodes => ?_
    exact safe_keepDefinition he.sound (isDefinitionId (by simp [definitionKinds]) _)
      fun nodes hsome => m.resolved_maskNode env.options env.viewport (hnodes nodes hsome)

theorem safe_applyParameters (name : String) :
    Safe (applyParameters env name) c fun _ _ => True := by
  unfold applyParameters
  refine .getBind ?_
  split
  · next p _ =>
    have hd := hc.adjusted (c.adjusts_applyPlain p)
    unfold GraphicsParameters.apply
    refine .modifyBind (c.adjusts_applyPlain p).frame ?_
    split
    · exact .pure hd trivial
    · exact .modify (Canvas.frame_mapGraphics _ _) (hd.setSoftMask fun _ e => nomatch e)
    · exact .bind (safe_defineMask h hd _) fun mask e he hmask =>
        .modify (e.frame_mapGraphics _) (he.sound.setSoftMask hmask)
  · exact .pure hc trivial

theorem safe_drawXObject (name : String) : Safe (drawXObject env name) c fun _ _ => True := by
  unfold drawXObject
  refine .getBind ?_
  split
  · next x _ =>
    cases x with
    | image i =>
      exact .modifyBind (c.frame_flushText _) (safe_drawImage h (hc.flushText _) i)
    | form f => exact safe_drawForm h hc f
  · exact .pure hc trivial

omit h in
theorem safe_drawShading (name : String) : Safe (drawShading env name) c fun _ _ => True := by
  unfold drawShading
  refine .getBind ?_
  split
  · exact .modify (c.frame_paintShading ..) (hc.paintShading ..)
  · exact .pure hc trivial

/-! ### Text -/

theorem safe_makeStyle (g : GraphicsState α) (scale : α) :
    Safe (makeStyle env g scale) c fun style d => style.Sound d.pool := by
  have hfill : Safe (textFill env g) c fun fill d =>
      ∀ id, fill.2 = some id → d.definitions.contains id = true := by
    unfold textFill
    refine .ite (fun _ => .pure hc fun _ e => nomatch e) fun _ => ?_
    split
    · exact .pure hc fun _ e => nomatch e
    · refine .bind (safe_patternPaint h hc ..) fun paint d hd hid => ?_
      cases paint with
      | definition id => exact .pure hd.sound fun id' e => Option.some.inj e ▸ hid id rfl
      | solid rgb => exact .pure hd.sound fun _ e => nomatch e
  exact .bind hfill fun _ _ hd hid => .pure hd.sound hid

theorem safe_currentStyle (scale : α) :
    Safe (currentStyle env scale) c fun style d => style.Sound d.pool := by
  have hmake : Safe (renewStyle env c.graphics scale) c fun style d => style.Sound d.pool :=
    .bind (safe_makeStyle h hc c.graphics scale) fun style d hd hstyle =>
      .modifyBind (d.frame_mapContext _)
        (.pure (hd.sound.mapContext { hd.sound.context with
          textStyle := fun _ e => Option.some.inj e ▸ hstyle }) hstyle)
  rw [currentStyle_eq]
  refine .getBind ?_
  split
  · next last style hlast =>
    exact .ite (fun _ => .pure hc (hc.context.textStyle _ hlast)) fun _ => hmake
  · exact hmake

theorem safe_showPiece (font : Font α) (piece : List UInt8) (spaces : Nat) :
    Safe (showPiece env font piece spaces) c fun _ _ => True := by
  have hposition := hc.mapContext
    (f := fun k => { k with layout := k.layout.position env.options c.graphics.textPosition })
    { hc.context with layout := hc.context.layout.position _ _ }
  unfold showPiece
  refine .getBind ?_
  dsimp only
  rw [Safe, ends_bind, ends_set]
  refine Safe.after (c.frame_mapContext _) (.bind (safe_currentStyle h hposition _)
    fun style d hd hstyle => ?_)
  refine .modify ((d.frame_mapContext _).trans (Canvas.adjusts_mapText _ _).frame) ?_
  refine Canvas.Sound.adjusted ?_ (Canvas.adjusts_mapText _ _)
  exact hd.sound.mapContext { hd.sound.context with
    layout := hd.sound.context.layout.addText _ _ _ hstyle }

theorem safe_drawGlyphs (font : Font α) (glyphs : GlyphProcedures α) (codes : List UInt8) :
    Safe (drawGlyphs env font glyphs codes) c fun nodes d => ∀ n ∈ nodes, d.pool.Resolves n := by
  have hglyph (code : UInt8) {c : Canvas α} (hc : c.Sound) :
      Safe (drawGlyph env glyphs code) c fun nodes d => ∀ n ∈ nodes, d.pool.Resolves n := by
    unfold drawGlyph
    refine .getBind ?_
    split
    · exact .pure hc fun _ hn => nomatch hn
    · refine .ite (fun _ => .pure hc fun _ hn => nomatch hn) fun _ => ?_
      refine .bind (.orSkip (h _ _ _ _ c hc ⟨hc.context.graphics.clip, hc.context.graphics.mask⟩))
        fun nodes? d hd hnodes => .pure hd.sound ?_
      cases nodes? with
      | none => exact fun _ hn => nomatch hn
      | some nodes => exact hnodes nodes rfl
  induction codes generalizing c with
  | nil => exact .pure hc fun _ hn => nomatch hn
  | cons code rest ih =>
    refine .bind (hglyph code hc) fun nodes d hd hnodes => .getBind ?_
    refine .modifyBind (d.adjusts_mapText _).frame ?_
    refine .bind (ih (hd.sound.adjusted (d.adjusts_mapText _))) fun more e he hmore => ?_
    refine .pure he.sound fun n hn => ?_
    rcases List.mem_append.1 hn with hn | hn
    · exact he.grows.resolves (hnodes n hn)
    · exact hmore n hn

theorem safe_showText (bytes : List UInt8) : Safe (showText env bytes) c fun _ _ => True := by
  unfold showText
  refine .getBind ?_
  dsimp only
  split
  · refine .bind (safe_drawGlyphs h hc ..) fun nodes d hd hnodes => ?_
    exact .modify (d.frame_mapContext _) (hd.sound.mapContext
      { hd.sound.context with layout := hd.sound.context.layout.addGlyphs hnodes })
  · refine .ite (fun _ => .forM hc fun piece d hd => ?_) fun _ => safe_showPiece h hc ..
    exact safe_showPiece h hd.sound ..

theorem safe_showAdjusted (items : List (Operand α)) :
    Safe (showAdjusted env items) c fun _ _ => True := by
  induction items generalizing c with
  | nil => exact .pure hc trivial
  | cons item rest ih =>
    unfold showAdjusted
    dsimp only
    split
    · exact .bind (safe_showText h hc _) fun _ d hd _ => ih hd.sound
    · split
      · exact .modifyBind (c.adjusts_mapText _).frame (ih (hc.adjusted (c.adjusts_mapText _)))
      · exact ih hc

/-! ### Operators -/

theorem safe_perform (args : Arguments α) (op : Operator) :
    Safe (op.perform env args) c fun _ _ => True := by
  -- Most operators only adjust the context; the others draw or add definitions.
  cases hadjusts : op.adjustment? args with
  | some a =>
    rw [Operator.perform_of_adjustment? hadjusts]
    exact .adjust hc (a.adjusts env c)
  | none =>
    cases op with
    | save => exact .modify (c.frame_mapContext _) hc.save
    | restore => exact .modify c.frame_restore hc.restore
    | parameters => exact safe_applyParameters h hc _
    | paint mode => exact safe_paintPath h hc mode
    | endText => exact .modify (c.frame_endText _) (hc.endText _)
    | showText => exact safe_showText h hc _
    | showAdjusted => exact safe_showAdjusted h hc _
    | showOnNextLine =>
      exact .modifyBind c.adjusts_nextLine.frame (safe_showText h (hc.adjusted c.adjusts_nextLine) _)
    | showSpacedOnNextLine =>
      have hspaced := ((c.adjusts_mapText fun t => { t with wordSpacing := args.number 0 }).trans
        (Canvas.adjusts_setCharSpacing _ (args.number 1))).trans (Canvas.adjusts_nextLine _)
      exact .modifyBind hspaced.frame (safe_showText h (hc.adjusted hspaced) _)
    | glyphWidth => exact .pure hc trivial
    | xobject => exact safe_drawXObject h hc _
    | shading => exact safe_drawShading hc _
    | inlineImage =>
      unfold Operator.perform
      dsimp only
      split
      · exact safe_drawInlineImage h hc _ _
      · exact .pure hc trivial
    | markPoint => exact .pure hc trivial
    | compatibility => exact .pure hc trivial
    | _ => cases hadjusts

/-! ### Content -/

theorem safe_executeAll (content : ContentStream α) :
    Safe (executeAll env content) c fun _ _ => True := by
  have hexecute (op : Operation α) {c : Canvas α} (hc : c.Sound) :
      Safe (execute env op) c fun _ _ => True := by
    unfold execute OperatorTable.dispatch
    split
    · exact .pure hc trivial
    · exact .bind (safe_perform h hc _ _) fun _ d hd _ => .pure hd.sound trivial
  induction content generalizing c with
  | nil => exact .pure hc trivial
  | cons op rest ih =>
    exact .bind (.checkCancelled hc) fun _ d hd _ => .bind (hexecute op hd.sound)
      fun _ e he _ => ih he.sound

theorem safe_drawContent (content : ContentStream α) :
    Safe (drawContent env content) c fun _ _ => True :=
  .bind (safe_executeAll h hc content) fun _ d hd _ =>
    .modify (d.frame_flushText _) (hd.sound.flushText _)

end Operators

/-! ### Levels -/

/-- A context in which nothing has been drawn. -/
theorem Context.sound_start {p : Pool α} {g : GraphicsState α} (hg : g.Sound p)
    (resources : SetId) : (Context.start g resources).Sound p :=
  ⟨hg, (fun _ hx => nomatch hx), (fun _ hx => nomatch hx), .empty, (fun _ hx => nomatch hx),
    fun _ hx => nomatch hx⟩

/-- The context around comes back among all that has been added. -/
theorem safe_inside {c : Canvas α} (hc : c.Sound) {inner : Context α} (hinner : inner.Sound c.pool)
    {x : Draw α β} {Q : β → Pool α → Prop}
    (hx : ∀ d : Canvas α, d.Sound → Safe x d fun b e => Q b e.pool) :
    Safe (inside inner x) c fun b d => Q b d.pool := by
  have houtside {d : Canvas α}
      (hd : Canvas.Leads { c with context := inner, depth := c.depth + 1 } d) :
      c.Leads { d with context := c.context, depth := c.depth } :=
    ⟨⟨rfl, hd.activeForms, hd.clips, hd.definitions⟩, hd.sound.pool,
      hc.context.mono ⟨hd.clips, hd.definitions⟩⟩
  rw [Safe, ends_inside]
  refine Ends.mono (hx _ ⟨hc.pool, hinner⟩) (fun b d hd => ⟨houtside hd.1, hd.2⟩) fun _ d hd => ?_
  exact houtside hd

/-- A level of nesting keeps canvases sound if the level below does. -/
theorem Setting.nested_sound (s : Setting α) (level : Nat) :
    ({ toSetting := s, nested := s.nested level } : Environment α).Sound := by
  intro graphics resources content locked c hc hgraphics
  show Safe (s.nested level graphics resources content locked) c _
  induction level generalizing graphics resources content locked c with
  | zero =>
    rw [Setting.nested]
    exact .bind (.checkCancelled hc) fun _ d hd _ => ⟨.refl d, hd.sound⟩
  | succ level ih =>
    have hlevel : ({ toSetting := s, nested := s.nested level } : Environment α).Sound := ih
    -- The content is drawn in a context of its own, and what it nests is one level lower.
    rw [Setting.nested]
    refine .bind (.checkCancelled hc) fun _ d hd _ => ?_
    have hinner : Context.Sound d.pool
        { Context.start graphics resources with colorLocked := locked } :=
      { Context.sound_start (hgraphics.mono hd.grows) resources with }
    refine safe_inside (Q := fun nodes p => ∀ n ∈ nodes, p.Resolves n) hd.sound hinner
      fun e he => ?_
    exact .bind (safe_drawContent hlevel he content) fun _ b hb _ => .getBind
      (.pure hb.sound hb.sound.content)

end PageSvg
