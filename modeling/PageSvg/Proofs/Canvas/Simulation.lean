import PageSvg.Proofs.Canvas.Steps

/-!
# Simulation of a manner by the interpreter

A relation between canvases that the single steps of drawing keep is kept by whole pages: drawn by
the interpreter and in another manner, they come to the same end on related canvases. What an
operator does follows from the steps it is made of, and nested content is taken one level at a time.

The relation may depend on the level, that is how many levels of nesting are left, and on the
contexts around.
-/

namespace PageSvg

open Draw

variable {α β : Type} [Scalar α]

section Operators

variable {s : Setting α} {m : Manner α} {outer : List (Context α)} {deep : Prop}
  {R : Canvas α → Canvas α → Prop} {G : ClipForest α → GraphicsState α → GraphicsState α → Prop}
  {n n' : Nesting α} {c c' : Canvas α}

/-- Nested content matches wherever it may begin; where it may not be nested, it is refused. -/
structure NestsAlike (n n' : Nesting α) (deep : Prop) (R : Canvas α → Canvas α → Prop)
    (G : ClipForest α → GraphicsState α → GraphicsState α → Prop) : Prop where
  alike : deep → ∀ ⦃c c'⦄ graphics graphics' resources content locked, R c c' →
    G c.clips graphics graphics' →
    Matches R (n graphics resources content locked) (n' graphics' resources content locked) c c'
      fun _ _ _ => True
  refused : ¬deep → ∃ limit, ∀ graphics resources content locked,
    n graphics resources content locked = refuse limit ∧
      n' graphics resources content locked = refuse limit

/-- Drawing goes on alike without nested content that is refused. -/
theorem Steps.skip (h : Steps s m outer deep R G) (hn : NestsAlike n n' deep R G)
    (graphics graphics' : GraphicsState α) (resources : SetId) (content : ContentStream α)
    (locked : Bool) (hR : R c c') (hG : G c.clips graphics graphics') :
    Matches R (orSkip (n graphics resources content locked))
      (orSkip (n' graphics' resources content locked)) c c' (Canvas.Skipped deep c c') := by
  by_cases hdeep : deep
  · refine (hn.alike hdeep graphics graphics' resources content locked hR hG).orSkip.mono
      (fun _ _ hd => hd) fun nodes? _ _ _ hnodes => ⟨fun _ => ?_, fun hnot => absurd hdeep hnot⟩
    obtain ⟨nodes, rfl, _⟩ := hnodes
    rfl
  · obtain ⟨limit, hrefused⟩ := hn.refused hdeep
    obtain ⟨hseen, hlook⟩ := h.look hR
    rw [(hrefused graphics resources content locked).1,
      (hrefused graphics' resources content locked).2]
    exact (Matches.orSkip_refuse hseen hlook).mono (fun _ _ hd => hd)
      fun _ _ _ _ hrefused => ⟨fun hdeep' => absurd hdeep' hdeep, fun _ => hrefused⟩

theorem Steps.painting (h : Steps s m outer deep R G) (hn : NestsAlike n n' deep R G) :
    Painting s n n' deep R where
  agrees := h.agrees
  insert := h.insert
  insertCell := h.insertCell
  cell t paint _ ht hR := h.skip hn _ _ _ _ _ hR (h.startCell t paint ht hR)

variable (h : Steps s m outer deep R G) (hn : NestsAlike n n' deep R G)
  (hi : (Environment.mk s n).Isolates)

include h

/-! ### Shapes and images -/

theorem matches_append {x : Canvas α} (hempty : x.context.layout.isEmpty = true) (node : Node)
    (bounds : Option (Rectangle α)) (hR : R c c') (hc : c.context = x.context) :
    Matches R (modify fun c => c.append s.options node bounds)
      (modify fun c => m.append s.options c node bounds) c c' fun _ _ _ => True :=
  .modify (h.append node bounds (hc ▸ hempty) hR) trivial

include hn hi

theorem matches_fillNode_keeping (hR : R c c') (node : Node) (evenOdd : Bool)
    (transform : Option (Matrix α)) :
    Matches R (fillNode ⟨s, n⟩ node evenOdd transform) (fillNode ⟨s, n'⟩ node evenOdd transform)
      c c' fun _ d _ => d.context = c.context :=
  (matches_fillNode ((h.painting hn).keeping hi c.context) ⟨hR, rfl⟩ ..).mono (fun _ _ hd => hd.1)
    fun _ _ _ hd _ => hd.2

theorem matches_strokeNode_keeping (hR : R c c') (node : Node) (transform : Option (Matrix α)) :
    Matches R (strokeNode ⟨s, n⟩ node transform) (strokeNode ⟨s, n'⟩ node transform) c c'
      fun _ d _ => d.context = c.context :=
  (matches_strokeNode ((h.painting hn).keeping hi c.context) ⟨hR, rfl⟩ ..).mono
    (fun _ _ hd => hd.1) fun _ _ _ hd _ => hd.2

theorem matches_drawPath (hR : R c c') (hempty : c.context.layout.isEmpty = true) (path : Path α)
    (mode : PaintMode) :
    Matches R (PageSvg.drawPath ⟨s, n⟩ path mode) (m.drawPath ⟨s, n'⟩ path mode) c c'
      fun _ _ _ => True := by
  obtain ⟨fill, stroke, hg⟩ := (h.agrees hR).graphics
  have hrectangle : c'.clipRectangle? = c.clipRectangle? := (h.agrees hR).clipRectangle?_eq
  unfold PageSvg.drawPath Manner.drawPath
  refine .getBind ?_
  rw [hg, hrectangle]
  dsimp only [GraphicsState.inSpaces]
  cases Rectangle.bounds? (Path.transform c.graphics.ctm path) with
  | none => exact .pure hR trivial
  | some bounds =>
    dsimp only
    generalize (if mode.strokes then some (Path.transform c.graphics.ctm path, bounds)
      else cutToClip s.options c.clipRectangle? (Path.transform c.graphics.ctm path) bounds) = visible
    cases visible with
    | none => exact .pure hR trivial
    | some visible =>
      have hrest (transform : Option (Matrix α)) (wide narrow : Option (Rectangle α)) (node : Node)
          (d d' : Canvas α) (hd : R d d') (hcontext : d.context = c.context) :
          Matches R
            (if mode.strokes then do
              let node ← strokeNode ⟨s, n⟩ node transform
              modify fun c => c.append s.options node wide
            else modify fun c => c.append s.options node narrow)
            (if mode.strokes then do
              let node ← strokeNode ⟨s, n'⟩ node transform
              modify fun c => m.append s.options c node wide
            else modify fun c => m.append s.options c node narrow) d d' fun _ _ _ => True := by
        refine .ite (fun _ => .bind (matches_strokeNode_keeping h hn hi hd _ _)
          fun node e e' he hkept => ?_) fun _ => ?_
        · exact matches_append h hempty _ _ he (hkept.trans hcontext)
        · exact matches_append h hempty _ _ hd hcontext
      refine .ite (fun _ => .bind (matches_fillNode_keeping h hn hi hR _ _ _)
        fun node d d' hd hkept => hrest _ _ _ node d d' hd hkept) fun _ => ?_
      exact .bind (P := fun _ d _ => d.context = c.context) (.pure hR rfl)
        fun node d d' hd hkept => hrest _ _ _ node d d' hd hkept

omit hn hi in
theorem matches_drawBroken (hR : R c c') (hempty : c.context.layout.isEmpty = true) :
    Matches R (modify (Image.drawBroken s.options)) (modify (m.drawBroken s.options)) c c'
      fun _ _ _ => True := by
  refine .modify ?_ trivial
  unfold Image.drawBroken Manner.drawBroken Image.placement
  rw [(h.agrees hR).ctm_eq]
  exact h.append _ _ hempty hR

theorem matches_drawImage (hR : R c c') (hempty : c.context.layout.isEmpty = true) (i : Image α) :
    Matches R (i.draw ⟨s, n⟩) (m.drawImage ⟨s, n'⟩ i) c c' fun _ _ _ => True := by
  have hplacement : Image.placement c'.graphics = Image.placement c.graphics :=
    congrArg Image.flip.multiply (h.agrees hR).ctm_eq
  unfold Image.draw Manner.drawImage
  refine .getBind ?_
  dsimp only
  rw [hplacement]
  cases i.url with
  | error _ => exact matches_drawBroken h hR hempty
  | ok url =>
    have hkinds : "img" ∈ paintKinds ∧ "mask" ∈ paintKinds := by simp [paintKinds]
    have himage := h.insert hkinds.1
      (i.key ++ "|" ++ if i.interpolate then "true" else "false") (i.definition url) hR
    refine .modifyBind (.ite (fun _ => .modifyBind ?_) fun _ => ?_)
    · have hstencil := h.insert hkinds.2 i.definitionId
        (Image.stencil i.definitionId) himage
      exact .bind (matches_fillNode_keeping h hn hi hstencil _ _ _) fun node d d' hd hkept =>
        matches_append h hempty _ _ hd hkept
    · exact .bind (P := fun _ d _ => d.context = c.context) (.pure himage rfl)
        fun node d d' hd hkept => matches_append h hempty _ _ hd hkept

theorem matches_drawInlineImage (hR : R c c') (entries : Keyed (Operand α)) (data : List UInt8) :
    Matches R (PageSvg.drawInlineImage ⟨s, n⟩ entries data)
      (m.drawInlineImage ⟨s, n'⟩ entries data) c c' fun _ _ _ => True := by
  have hflushed := h.flushText hR
  have hempty := c.isEmpty_flushText s.options
  unfold PageSvg.drawInlineImage Manner.drawInlineImage
  refine .modifyBind (.getBind ?_)
  rw [(h.agrees hflushed).environment (n := n)]
  cases ((Environment.mk s n).resources (c.flushText s.options)).inlineImage entries data with
  | some i => exact matches_drawImage h hn hi hflushed hempty i
  | none => exact matches_drawBroken h hflushed hempty

theorem matches_paintPath (hR : R c c') (mode : PaintMode) :
    Matches R (PageSvg.paintPath ⟨s, n⟩ mode) (m.paintPath ⟨s, n'⟩ mode) c c'
      fun _ _ _ => True := by
  have hclip {b b' : Canvas α} (hb : R b b') (pending : Option Bool) (d d' : Canvas α)
      (hd : R d d') : Matches R (clipPending pending b.context.path)
        (clipPending pending b.context.path) d d' fun _ _ _ => True := by
    cases pending with
    | none => exact .pure hd trivial
    | some evenOdd =>
      refine .modify ?_ trivial
      rw [(h.agrees hd).ctm_eq]
      exact h.clipTo evenOdd hb hd
  have hrest (d d' : Canvas α) (hd : R d d') : Matches R (do
      let k := (← get).context
      modify (·.mapContext fun k => { k with path := [], pendingClip := none })
      if (mode.strokes || mode.fills) && !k.path.isEmpty then
        modify (·.flushText s.options)
        PageSvg.drawPath ⟨s, n⟩ k.path mode
      clipPending k.pendingClip k.path)
      (do
      let k := (← get).context
      modify (·.mapContext fun k => { k with path := [], pendingClip := none })
      if (mode.strokes || mode.fills) && !k.path.isEmpty then
        modify (m.flushText s.options)
        m.drawPath ⟨s, n'⟩ k.path mode
      clipPending k.pendingClip k.path) d d' fun _ _ _ => True := by
    refine .getBind ?_
    dsimp only
    rw [(h.agrees hd).path, (h.agrees hd).pendingClip]
    have he := h.adjust (n := n) .takePath trivial hd
    refine .modifyBind (.ite (fun _ => .modifyBind ?_) fun _ => hclip hd _ _ _ he)
    exact .bind (matches_drawPath h hn hi (h.flushText he) (Canvas.isEmpty_flushText _ _) _ _)
      fun _ e e' he _ => hclip hd _ _ _ he
  unfold PageSvg.paintPath Manner.paintPath
  refine .ite (fun _ => .modifyBind (hrest _ _ ?_)) fun _ => hrest _ _ hR
  exact h.adjust (n := n) (.path fun path => if path.isEmpty then path else path ++ [.close])
    (fun _ hpath => hpath.close) hR

/-! ### Forms and masks -/

omit h hn hi in
theorem Canvas.context_gradient (c : Canvas α) (o : Options α) (shading : Shading α)
    (placement : Matrix α) : (c.gradient o shading placement).2.context = c.context := by
  unfold Canvas.gradient
  split
  · rfl
  · rfl

omit hn hi in
theorem place_related (hR : R c c') (hempty : c.context.layout.isEmpty = true) (f : Form α)
    (nodes : List Node) : R (f.place c nodes) (m.place f c' nodes) := by
  obtain ⟨fill, stroke, hg⟩ := (h.agrees hR).graphics
  unfold Form.place Manner.place
  rw [hg]
  dsimp only [GraphicsState.inSpaces]
  split
  · exact hR
  · split
    · exact h.pushAll hR hempty nodes
    · exact h.push _ hempty hR

omit hn hi h in
theorem Canvas.Agrees.formRegion (h : c.Agrees c') (viewport : Rectangle α) (parent : Option Nat)
    (box : Option (Rectangle α)) (placement : Matrix α) :
    (c'.formRegion viewport parent box placement).1 =
      (c.formRegion viewport parent box placement).1 := by
  unfold Canvas.formRegion Canvas.clipToBox
  rw [h.clips]
  split
  · rfl
  · dsimp only
    split
    · rfl
    · rfl

omit hn hi h in
/-- The region of a form is all that is new on the canvas. -/
theorem Canvas.snd_formRegion (viewport : Rectangle α) (parent : Option Nat)
    (box : Option (Rectangle α)) (placement : Matrix α) :
    (c.formRegion viewport parent box placement).2 =
      { c with clips := (c.formRegion viewport parent box placement).2.clips } := by
  unfold Canvas.formRegion Canvas.clipToBox
  split
  · rfl
  · dsimp only
    split
    · rfl
    · rfl

omit hn hi h in
theorem Canvas.context_formRegion (viewport : Rectangle α) (parent : Option Nat)
    (box : Option (Rectangle α)) (placement : Matrix α) :
    (c.formRegion viewport parent box placement).2.context = c.context := by
  rw [c.snd_formRegion]

theorem matches_drawForm (hR : R c c') (f : Form α) :
    Matches R (f.draw ⟨s, n⟩) (m.drawForm ⟨s, n'⟩ f) c c' fun _ _ _ => True := by
  unfold Form.draw Manner.drawForm
  refine .getBind ?_
  rw [(h.agrees hR).activeForms]
  refine .ite (fun _ => .pure hR trivial) fun hidle => .modifyBind (.getBind ?_)
  have hflushed := h.flushText hR
  have hempty := c.isEmpty_flushText s.options
  have hfresh : f.id ∉ (c.flushText s.options).activeForms := by
    rw [(c.frame_flushText s.options).activeForms]
    exact fun hmem => hidle (List.contains_iff_mem.2 hmem)
  dsimp only
  rw [(h.agrees hflushed).clip_eq, (h.agrees hflushed).ctm_eq]
  generalize c.flushText s.options = d at *
  generalize m.flushText s.options c' = d' at *
  refine .modifyGetBind ?_
  have hcut := h.formRegion d.graphics.clip f.bbox (f.matrix.multiply d.graphics.ctm) (.inr rfl)
    hflushed
  have hstart := h.startForm f.bbox (f.matrix.multiply d.graphics.ctm) hflushed
  have hcontext := d.context_formRegion s.viewport d.graphics.clip f.bbox
    (f.matrix.multiply d.graphics.ctm)
  rw [← (d.frame_formRegion s.viewport d.graphics.clip f.bbox
    (f.matrix.multiply d.graphics.ctm)).activeForms] at hfresh
  rw [(h.agrees hflushed).formRegion]
  generalize d.formRegion s.viewport d.graphics.clip f.bbox (f.matrix.multiply d.graphics.ctm) = r
    at *
  generalize d'.formRegion s.viewport d.graphics.clip f.bbox (f.matrix.multiply d.graphics.ctm) = r'
    at *
  refine .getBind (.setBind ?_)
  rw [(h.agrees hcut).activeForms, (h.agrees hcut).resources, (h.agrees hcut).colorLocked]
  -- While the form is being drawn, the context around it stays as it is.
  have hpushed := h.activeForms (f.id :: r.2.activeForms) (List.nodup_cons.2 ⟨hfresh, ·⟩) hcut
  have hnested := (h.skip hn _ _ (f.resources.getD r.2.context.resources) f.content
    r.2.context.colorLocked hpushed hstart).inter
      (S := fun e => e.context = r.2.context) (hi.context_orSkip ..)
  have hpop (e e' : Canvas α) (he : R e e' ∧ e.context = r.2.context) :
      R { e with activeForms := e.activeForms.drop 1 }
        { e' with activeForms := e'.activeForms.drop 1 } ∧ e.context = r.2.context := by
    rw [(h.agrees he.1).activeForms]
    exact ⟨h.activeForms _ (List.Nodup.sublist (List.drop_sublist ..)) he.1, he.2⟩
  have hfinally := Matches.tryFinally
    (R := fun e e' => R e e' ∧ e.context = r.2.context)
    (hnested.mono (fun _ _ he => he) fun _ _ _ _ _ => trivial) hpop fun _ he => he
  refine .bind (hfinally.mono (fun _ _ he => he.1) fun _ _ _ he _ => he.2) fun nodes? e e' he hkept =>
    .modify (place_related h he ?_ f _) trivial
  rw [hkept, hcontext]
  exact hempty

omit hi in
theorem matches_defineMask (hR : R c c') (mask : SoftMask α) :
    Matches R (mask.define ⟨s, n⟩) (mask.define ⟨s, n'⟩) c c' fun _ _ _ => True := by
  unfold SoftMask.define
  refine .getBind ?_
  rw [(h.agrees hR).definitions]
  refine .ite (fun _ => .pure hR trivial) fun _ => .modifyGetBind ?_
  dsimp only
  have hcut := h.formRegion none mask.group.bbox (mask.group.matrix.multiply s.base) (.inl rfl) hR
  have hstart := h.startPage none mask.group.bbox (mask.group.matrix.multiply s.base) (.inl rfl) hR
  rw [(h.agrees hR).formRegion]
  refine .getBind ?_
  rw [(h.agrees hcut).resources]
  refine .bind (h.skip hn _ _ _ _ _ hcut hstart) fun nodes? d d' hd _ => ?_
  cases nodes? with
  | none => exact .pure hd trivial
  | some nodes =>
    have hkind : "smask" ∈ paintKinds := by simp [paintKinds]
    exact .modifyBind (.pure (h.insert hkind _ _ hd) trivial)

omit [Scalar α] h hn hi in
theorem setting_related {γ : Type} {value : Option γ} {f : Canvas α → γ → Canvas α}
    (hf : ∀ x, value = some x → ∀ {c c'}, R c c' → R (f c x) (f c' x)) (hR : R c c') :
    R (GraphicsParameters.setting value f c) (GraphicsParameters.setting value f c') := by
  unfold GraphicsParameters.setting
  split
  · exact hf _ rfl hR
  · exact hR

omit h hn hi in
/-- What adjustments keep is kept by all parameters but the mask. -/
theorem applyPlain_related (n : Nesting α)
    (h : ∀ {c c'} (a : Adjustment α), a.Known s → R c c' → R (a.apply ⟨s, n⟩ c) (a.apply ⟨s, n⟩ c'))
    (hR : R c c') (p : GraphicsParameters α)
    (hp : ∃ set ∈ s.library, ∃ entry ∈ set.parameters, entry.2 = p) :
    R (p.applyPlain c) (p.applyPlain c') := by
  obtain ⟨set, hset, entry, hentry, rfl⟩ := hp
  have hadjust {γ : Type} {value : Option γ} (a : γ → Adjustment α)
      (ha : ∀ x, value = some x → (a x).Known s) {c c' : Canvas α} (hR : R c c') :
      R (GraphicsParameters.setting value (fun c x => (a x).apply ⟨s, n⟩ c) c)
        (GraphicsParameters.setting value (fun c x => (a x).apply ⟨s, n⟩ c) c') :=
    setting_related (fun x hx _ _ hR => h (a x) (ha x hx) hR) hR
  unfold GraphicsParameters.applyPlain
  refine hadjust (fun f : Font α × α => .font f.1 f.2)
    (fun f hf => ⟨set, hset, entry, hentry, f.2, hf⟩) ?_
  refine hadjust .blendMode (fun _ _ => trivial) ?_
  refine hadjust .strokeAlpha (fun _ _ => trivial) ?_
  refine hadjust .fillAlpha (fun _ _ => trivial) ?_
  refine hadjust (fun d : List α × α => .dash d.1 d.2) (fun _ _ => trivial) ?_
  refine hadjust .miterLimit (fun _ _ => trivial) ?_
  refine hadjust .lineJoin (fun _ _ => trivial) ?_
  refine hadjust .lineCap (fun _ _ => trivial) ?_
  exact hadjust .lineWidth (fun _ _ => trivial) hR

omit hi in
theorem matches_applyParameters (hR : R c c') (name : String) :
    Matches R (PageSvg.applyParameters ⟨s, n⟩ name) (PageSvg.applyParameters ⟨s, n'⟩ name) c c'
      fun _ _ _ => True := by
  unfold PageSvg.applyParameters
  refine .getBind ?_
  rw [(h.agrees hR).environment (n := n)]
  split
  · next p hp =>
    have hset (mask : Option String) (d d' : Canvas α) (hd : R d d') :
        Matches R (modify fun c => c.setSoftMask mask) (modify fun c => c.setSoftMask mask) d d'
          fun _ _ _ => True := .modify (h.setSoftMask mask hd) trivial
    have hplain := applyPlain_related n h.adjust hR p (s.library.mem_of_get? (·.parameters) rfl hp)
    unfold GraphicsParameters.apply
    refine .modifyBind ?_
    split
    · exact .pure hplain trivial
    · exact hset none _ _ hplain
    · exact .bind (matches_defineMask h hn hplain _) fun mask d d' hd _ => hset mask d d' hd
  · exact .pure hR trivial

theorem matches_drawXObject (hR : R c c') (name : String) :
    Matches R (PageSvg.drawXObject ⟨s, n⟩ name) (m.drawXObject ⟨s, n'⟩ name) c c'
      fun _ _ _ => True := by
  unfold PageSvg.drawXObject Manner.drawXObject
  refine .getBind ?_
  rw [(h.agrees hR).environment (n := n)]
  cases ((Environment.mk s n).resources c).xobjects.get? name with
  | none => exact .pure hR trivial
  | some x =>
    cases x with
    | image i =>
      exact .modifyBind (matches_drawImage h hn hi (h.flushText hR) (c.isEmpty_flushText _) i)
    | form f => exact matches_drawForm h hn hi hR f

omit hi in
theorem matches_drawShading (hR : R c c') (name : String) :
    Matches R (PageSvg.drawShading ⟨s, n⟩ name) (m.drawShading ⟨s, n'⟩ name) c c'
      fun _ _ _ => True := by
  unfold PageSvg.drawShading Manner.drawShading
  refine .getBind ?_
  rw [(h.agrees hR).environment (n := n)]
  cases ((Environment.mk s n).resources c).shadings.get? name with
  | none => exact .pure hR trivial
  | some shading =>
    refine .modify ?_ trivial
    have hflushed := h.flushText hR
    have hempty := c.isEmpty_flushText s.options
    have harea : shadingArea s.viewport (m.flushText s.options c') shading =
        shadingArea s.viewport (c.flushText s.options) shading := by
      rw [shadingArea, shadingArea, (h.agrees hflushed).clipRectangle?_eq,
        (h.agrees hflushed).ctm_eq]
    obtain ⟨hid, hgradient⟩ := gradient_related (h.painting hn) hflushed shading
      (c.flushText s.options).graphics.ctm
    have hcontext := (c.flushText s.options).context_gradient s.options shading
      (c.flushText s.options).graphics.ctm
    unfold Canvas.paintShading Manner.paintShading
    dsimp only
    rw [harea, (h.agrees hflushed).ctm_eq, hid]
    refine h.append _ _ ?_ hgradient
    rw [hcontext]
    exact hempty

/-! ### Text -/

omit hi in
theorem matches_drawGlyph (hR : R c c') (glyphs : GlyphProcedures α) (code : UInt8) :
    Matches R (drawGlyph ⟨s, n⟩ glyphs code) (drawGlyph ⟨s, n'⟩ glyphs code) c c'
      fun _ _ _ => True := by
  have hmatrix : c'.graphics.glyphMatrix glyphs.matrix = c.graphics.glyphMatrix glyphs.matrix := by
    rw [GraphicsState.glyphMatrix, GraphicsState.glyphMatrix, (h.agrees hR).text_eq,
      (h.agrees hR).ctm_eq]
  unfold drawGlyph
  refine .getBind ?_
  dsimp only
  rw [hmatrix, (h.agrees hR).text_eq, (h.agrees hR).resources]
  cases glyphs.content code with
  | none => exact .pure hR trivial
  | some content =>
    refine .ite (fun _ => .pure hR trivial) fun _ => ?_
    exact .bind (h.skip hn _ _ _ _ _ hR (h.startGlyph _ hR)) fun _ _ _ hd _ => .pure hd trivial

omit hi in
theorem matches_drawGlyphs (hR : R c c') (font : Font α) (glyphs : GlyphProcedures α)
    (codes : List UInt8) :
    Matches R (drawGlyphs ⟨s, n⟩ font glyphs codes) (drawGlyphs ⟨s, n'⟩ font glyphs codes) c c'
      fun _ _ _ => True := by
  induction codes generalizing c c' with
  | nil => exact .pure hR trivial
  | cons code rest ih =>
    refine .bind (matches_drawGlyph h hn hR glyphs code) fun nodes d d' hd _ => .getBind ?_
    rw [(h.agrees hd).text_eq]
    refine .modifyBind (.bind (ih ?_) fun _ _ _ he _ => .pure he trivial)
    exact h.adjust (n := n) (.advance _) trivial hd

theorem matches_showText (hR : R c c') (bytes : List UInt8) :
    Matches R (PageSvg.showText ⟨s, n⟩ bytes) (m.showText ⟨s, n'⟩ bytes) c c'
      fun _ _ _ => True := by
  have hpiece (piece : List UInt8) (spaces : Nat) (d d' : Canvas α) (hd : R d d') :=
    h.showPiece (h.painting hn) hi c.graphics.currentFont piece spaces hd
  have hfont : c'.graphics.currentFont = c.graphics.currentFont :=
    congrArg (·.font.getD .standIn) (h.agrees hR).text_eq
  unfold PageSvg.showText Manner.showText
  refine .getBind ?_
  dsimp only
  rw [hfont, (h.agrees hR).text_eq]
  cases c.graphics.currentFont.procedures with
  | some glyphs =>
    exact .bind (matches_drawGlyphs h hn hR _ glyphs bytes) fun nodes d d' hd _ =>
      .modify (h.addGlyphs nodes hd) trivial
  | none =>
    exact .ite (fun _ => .forM _ hR fun piece d d' hd => hpiece _ _ d d' hd)
      fun _ => hpiece _ _ c c' hR

theorem matches_showAdjusted (hR : R c c') (items : List (Operand α)) :
    Matches R (PageSvg.showAdjusted ⟨s, n⟩ items) (m.showAdjusted ⟨s, n'⟩ items) c c'
      fun _ _ _ => True := by
  induction items generalizing c c' with
  | nil => exact .pure hR trivial
  | cons item rest ih =>
    have hnumber : Matches R
        (item.number?.elim (PageSvg.showAdjusted ⟨s, n⟩ rest) fun x => do
          modify fun c =>
            let t := c.graphics.text
            c.advance (-x / 1000 * t.fontSize * t.scaling / 100)
          PageSvg.showAdjusted ⟨s, n⟩ rest)
        (item.number?.elim (m.showAdjusted ⟨s, n'⟩ rest) fun x => do
          modify fun c =>
            let t := c.graphics.text
            c.advance (-x / 1000 * t.fontSize * t.scaling / 100)
          m.showAdjusted ⟨s, n'⟩ rest) c c' fun _ _ _ => True := by
      cases item.number? with
      | some x => exact .modifyBind (ih (h.adjust (n := n) (.kern x) trivial hR))
      | none => exact ih hR
    cases item with
    | string bytes => exact .bind (matches_showText h hn hi hR bytes) fun _ _ _ hd _ => ih hd
    | _ => exact hnumber

omit hn hi in
theorem endText_related (n : Nesting α) (hR : R c c') :
    R (c.endText s.options) (m.endText s.options c') := by
  have hflushed := h.flushText (h.adjust (n := n) .leaveText trivial hR)
  have houtlines := (h.agrees hflushed).outlines
  have hclipped := h.clipToOutlines hflushed
  generalize hd : (Adjustment.apply ⟨s, n⟩ c .leaveText).flushText s.options = d at *
  generalize hd' : m.flushText s.options (Adjustment.apply ⟨s, n⟩ c' .leaveText) = d' at *
  have hend : c.endText s.options =
      if d.context.outlines.isEmpty then d else d.clipToOutlines := by rw [← hd]; rfl
  have hend' : m.endText s.options c' =
      if d'.context.outlines.isEmpty then d' else d'.clipToOutlines := by rw [← hd']; rfl
  rw [hend, hend', houtlines]
  split
  · exact hflushed
  · exact hclipped

/-! ### Operators -/

omit h hn hi in
theorem Manner.perform_of_adjustment? (m : Manner α) {op : Operator} {args : Arguments α}
    {a : Adjustment α} (h : op.adjustment? args = some a) (env : Environment α) :
    m.perform env args op = modify (a.apply env ·) := by
  cases op <;> cases h <;> rfl

omit h hn hi in
theorem Adjustment.known_of_operator {op : Operator} {args : Arguments α} (a : Adjustment α)
    (h : op.adjustment? args = some a) (s : Setting α) : a.Known s := by
  cases op with
  | moveTo =>
    cases h
    exact fun _ hpath => hpath.append fun _ => Path.anchored_move _ _
  | lineTo =>
    cases h
    exact fun _ hpath => hpath.line _
  | curveTo | curveIntoEnd =>
    cases h
    exact fun _ hpath => hpath.curve _ _ _
  | curveFromCurrent =>
    cases h
    exact fun _ hpath => hpath.curveFromCurrent _ _
  | closePath =>
    cases h
    exact fun _ hpath => hpath.close
  | rectangle =>
    cases h
    exact fun _ hpath => hpath.append fun _ => Path.anchored_rectangle _ _ _ _
  | _ => cases h <;> trivial

theorem matches_perform (hR : R c c') (args : Arguments α) (op : Operator) :
    Matches R (op.perform ⟨s, n⟩ args) (m.perform ⟨s, n'⟩ args op) c c' fun _ _ _ => True := by
  cases hadjusts : op.adjustment? args with
  | some a =>
    rw [Operator.perform_of_adjustment? hadjusts, Manner.perform_of_adjustment? m hadjusts]
    exact .modify (h.adjust (n := n) a (a.known_of_operator hadjusts s) hR) trivial
  | none =>
    cases op with
    | save => exact .modify (h.save hR) trivial
    | restore => exact .modify (h.restore hR) trivial
    | parameters => exact matches_applyParameters h hn hR _
    | paint mode => exact matches_paintPath h hn hi hR mode
    | endText => exact .modify (endText_related h n hR) trivial
    | showText => exact matches_showText h hn hi hR _
    | showAdjusted => exact matches_showAdjusted h hn hi hR _
    | showOnNextLine =>
      exact .modifyBind (matches_showText h hn hi (h.adjust (n := n) .nextLine trivial hR) _)
    | showSpacedOnNextLine =>
      have hword := h.adjust (n := n) (.wordSpacing (args.number 0)) trivial hR
      have hchar := h.adjust (n := n) (.charSpacing (args.number 1)) trivial hword
      exact .modifyBind (matches_showText h hn hi (h.adjust (n := n) .nextLine trivial hchar) _)
    | glyphWidth => exact .pure hR trivial
    | xobject => exact matches_drawXObject h hn hi hR _
    | shading => exact matches_drawShading h hn hR _
    | inlineImage =>
      unfold Operator.perform Manner.perform
      dsimp only
      cases (args.operand? 0).bind Operand.entries? with
      | some entries => exact matches_drawInlineImage h hn hi hR entries _
      | none => exact .pure hR trivial
    | markPoint => exact .pure hR trivial
    | compatibility => exact .pure hR trivial
    | _ => cases hadjusts

/-! ### Content -/

theorem matches_execute (hR : R c c') (op : Operation α) :
    Matches R (PageSvg.execute ⟨s, n⟩ op) (m.execute ⟨s, n'⟩ op) c c' fun _ _ _ => True := by
  unfold PageSvg.execute Manner.execute OperatorTable.dispatch
  cases Operator.table.resolve op.operator op.operands with
  | none => exact .pure hR trivial
  | some resolved =>
    exact .bind (matches_perform h hn hi hR _ _) fun _ _ _ hd _ => .pure hd trivial

omit hn hi in
/-- Where the interpreter goes on at once, the manner does what it does between operations. -/
theorem matches_watch (hR : R c c') {x x' : Draw α β}
    (hx : ∀ d d', R d d' → Matches R x x' d d' fun _ _ _ => True) :
    Matches R x (do m.watch outer; x') c c' fun _ _ _ => True :=
  .bind (x := pure ()) (h.watch hR) fun _ d d' hd _ => hx d d' hd

theorem matches_executeAll (hR : R c c') (content : ContentStream α) :
    Matches R (PageSvg.executeAll ⟨s, n⟩ content) (m.executeAll ⟨s, n'⟩ outer content) c c'
      fun _ _ _ => True := by
  induction content generalizing c c' with
  | nil => exact h.watch hR
  | cons op rest ih =>
    refine matches_watch h hR fun d d' hd => ?_
    refine .bind (P := fun _ _ _ => True)
      (.checkCancelled (h.look hd).1 (h.look hd).2 trivial) fun _ e e' he _ => ?_
    exact .bind (matches_execute h hn hi he op) fun _ _ _ hb _ => ih hb

theorem matches_drawContent (hR : R c c') (content : ContentStream α) :
    Matches R (PageSvg.drawContent ⟨s, n⟩ content) (m.drawContent ⟨s, n'⟩ outer content) c c'
      fun _ _ _ => True := by
  unfold PageSvg.drawContent Manner.drawContent
  refine .bind (matches_executeAll h hn hi hR content) fun _ d d' hd _ => ?_
  have hwatch : Matches R (do modify (·.flushText s.options); pure ())
      (do modify (m.flushText s.options); m.watch outer) d d' fun _ _ _ => True :=
    .modifyBind (h.watch (h.flushText hd))
  rwa [bind_pure_unit] at hwatch

theorem matches_drawOverlay (hR : R c c') (a : Overlay α) :
    Matches R (a.draw ⟨s, n⟩) (m.drawOverlay ⟨s, n'⟩ a) c c' fun _ _ _ => True := by
  unfold Overlay.draw Manner.drawOverlay
  refine .ite (fun _ => .pure hR trivial) fun _ => ?_
  cases a.appearance.bbox with
  | none => exact .pure hR trivial
  | some box =>
    dsimp only
    cases a.placement? s.base box with
    | none => exact .pure hR trivial
    | some ctm =>
      have hflushed := h.flushText hR
      have hempty := c.isEmpty_flushText s.options
      refine .modifyBind ?_
      generalize c.flushText s.options = d at *
      generalize m.flushText s.options c' = d' at *
      refine .modifyGetBind ?_
      have hcut := h.formRegion d.graphics.clip (some box) ctm (.inr rfl) hflushed
      have hstart := h.startPage d.graphics.clip (some box) ctm (.inr rfl) hflushed
      have hcontext := d.context_formRegion s.viewport d.graphics.clip (some box) ctm
      rw [(h.agrees hflushed).clip_eq, (h.agrees hflushed).formRegion]
      refine .getBind ?_
      rw [(h.agrees hcut).resources]
      have hnested := (h.skip hn _ _ (a.appearance.resources.getD (d.formRegion s.viewport
        d.graphics.clip (some box) ctm).2.context.resources) a.appearance.content false hcut
          hstart).inter
          (S := fun e => e.context = (d.formRegion s.viewport d.graphics.clip
            (some box) ctm).2.context) (hi.context_orSkip ..)
      refine .bind (hnested.mono (fun _ _ he => he.1) fun _ _ _ he _ => he.2)
        fun nodes? e e' he hkept => .modify (h.pushAll he ?_ _) trivial
      rw [hkept, hcontext]
      exact hempty

end Operators

/-! ### Levels -/

namespace Draw.Matches

variable {R : Canvas α → Canvas α → Prop} {c c' : Canvas α}

omit [Scalar α] in
theorem inside {S : Canvas α → Canvas α → Prop} {inner inner' : Context α} {x x' : Draw α β}
    (hx : Matches S x x' { c with context := inner, depth := c.depth + 1 }
      { c' with context := inner', depth := c'.depth + 1 } fun _ _ _ => True)
    (hS : ∀ d d', S d d' → R { d with context := c.context, depth := c.depth }
      { d' with context := c'.context, depth := c'.depth }) :
    Matches R (Draw.inside inner x) (Draw.inside inner' x') c c' fun _ _ _ => True := by
  unfold Matches at hx ⊢
  unfold Draw.inside
  dsimp only
  split at hx
  · next hok hok' =>
    rw [hok, hok']
    exact ⟨hx.1, hS _ _ hx.2.1, trivial⟩
  · next herror herror' =>
    rw [herror, herror']
    exact ⟨hx.1, hS _ _ hx.2.1, hx.2.2⟩
  · exact hx.elim

end Draw.Matches

/-- The canvas with a context for nested content. -/
def Canvas.entered (c : Canvas α) (graphics : GraphicsState α) (resources : SetId)
    (locked : Bool) : Canvas α :=
  { c with
    context := { Context.start graphics resources with colorLocked := locked }
    depth := c.depth + 1 }

/-- The canvas `d` with the context of `c` back. -/
def Canvas.left (c d : Canvas α) : Canvas α := { d with context := c.context, depth := c.depth }

/-- The relation `R` is kept on every level, and taken down to nested content and back. -/
structure Simulation (s : Setting α) (m : Manner α)
    (R : Nat → List (Context α) → Canvas α → Canvas α → Prop)
    (G : ClipForest α → GraphicsState α → GraphicsState α → Prop) : Prop where
  steps : ∀ level outer, Steps s m outer (level ≠ 0) (R level outer) G
  content : ∀ {level outer c c'}, R level outer c c' → c.content = m.content c'
  enter : ∀ {level outer c c'} graphics graphics' resources locked, R (level + 1) outer c c' →
    G c.clips graphics graphics' →
    R level (c'.context :: outer) (c.entered graphics resources locked)
      (c'.entered graphics' resources locked)
  leave : ∀ {level outer c c' graphics resources locked d d'}, R (level + 1) outer c c' →
    (c.entered graphics resources locked).Frame d → R level (c'.context :: outer) d d' →
    R (level + 1) outer (c.left d) (c'.left d')

namespace Simulation

variable {s : Setting α} {m : Manner α}
  {R : Nat → List (Context α) → Canvas α → Canvas α → Prop}
  {G : ClipForest α → GraphicsState α → GraphicsState α → Prop} {c c' : Canvas α}

/-- Nested content matches, by induction on the levels that are left. -/
theorem nested (h : Simulation s m R G) (level : Nat) (outer : List (Context α)) :
    NestsAlike (s.nested level) (m.nested s level outer) (level ≠ 0) (R level outer) G := by
  induction level generalizing outer with
  | zero => exact ⟨fun hdeep => absurd rfl hdeep, fun _ => ⟨_, fun _ _ _ _ => ⟨rfl, rfl⟩⟩⟩
  | succ level ih =>
    refine ⟨fun _ c c' graphics graphics' resources content locked hR hG => ?_,
      fun hdeep => absurd level.succ_ne_zero hdeep⟩
    obtain ⟨hseen, hlook⟩ := (h.steps (level + 1) outer).look hR
    refine .bind (P := fun _ d _ => d.clips = c.clips) (.checkCancelled hseen hlook rfl)
      fun _ d d' hd hclips => .getRight ?_
    rw [← hclips] at hG
    have hlevel := s.nested_isolates level
    have henter := h.enter graphics graphics' resources locked hd hG
    -- What is drawn inside keeps the frame of the canvas on which it begins.
    have hcontent := (matches_drawContent (h.steps level _) (ih (d'.context :: outer)) hlevel henter
      content).inter (((framed_drawContent hlevel content).ends _).mono (fun _ _ he => he)
        fun _ _ he => he.2)
    refine Matches.inside (.bind hcontent fun _ e e' he _ => .getBind ?_)
      fun e e' he => h.leave hd he.2 he.1
    exact ⟨h.content he.1, he, trivial⟩

/-- Content matches on every level. -/
theorem drawContent (h : Simulation s m R G) {level : Nat} {outer : List (Context α)}
    (hR : R level outer c c') (content : ContentStream α) :
    Matches (R level outer) (PageSvg.drawContent ⟨s, s.nested level⟩ content)
      (m.drawContent (m.environment s level outer) outer content) c c' fun _ _ _ => True :=
  matches_drawContent (h.steps level outer) (h.nested level outer) (s.nested_isolates level) hR
    content

/-- **Pages match.** Drawn by the interpreter and in the other manner, a page comes to the same end
on related canvases. -/
theorem drawPage (h : Simulation s m R G) (p : Page α)
    (hR : R s.options.maxNestingDepth [] c c') :
    Matches (R s.options.maxNestingDepth []) (p.draw s) (m.drawPage s p) c c' fun _ _ _ => True := by
  have hsteps := h.steps s.options.maxNestingDepth []
  have hnested := h.nested s.options.maxNestingDepth []
  have hisolates := s.nested_isolates s.options.maxNestingDepth
  refine .bind (h.drawContent hR p.content) fun _ d d' hd _ => ?_
  refine .forM _ hd fun a e e' he => ?_
  have hoverlay : Matches (R s.options.maxNestingDepth []) (do a.draw s.environment; pure ())
      (do
        m.drawOverlay (m.environment s s.options.maxNestingDepth []) a
        m.watch []) e e' fun _ _ _ => True :=
    .bind (matches_drawOverlay hsteps hnested hisolates he a) fun _ _ _ hb _ => hsteps.watch hb
  rwa [bind_pure_unit] at hoverlay

end Simulation

end PageSvg
