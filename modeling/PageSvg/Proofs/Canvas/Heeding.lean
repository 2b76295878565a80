import PageSvg.Proofs.Canvas.Simulation
import PageSvg.Proofs.Canvas.Sparing

/-!
# How operators heed a request to stop

An operator looks for the request to stop through the content that it draws. When that content sees
the request, the operator stops as well and puts no element on the canvas; the text that was shown
before may have been drawn by then. The one exception is the cell of a tiling, which is left out
when it cannot be drawn, for whatever reason. As long as nothing stops it, an operator leaves the
saved states alone, unless it is one of the two that are there for them.
-/

namespace PageSvg

open Draw

variable {α β γ : Type}

/-- A look has seen the request to stop. -/
def Cancellation.wasSeen (c : Cancellation) : Bool := c.onset.any fun n => n < c.looks

/-- Some name stands for a tiling. -/
def Library.HasTiling (library : Library α) : Prop :=
  ∃ (id : SetId) (name : String) (t : Tiling α),
    (library.set id).patterns.get? name = some (.tiling t)

namespace Canvas

theorem wasSeen_looked (c : Canvas α) :
    c.looked.cancellation.wasSeen = c.cancellation.isSeen := by
  unfold Cancellation.wasSeen Cancellation.isSeen looked
  dsimp only
  simp only [Nat.lt_succ_iff]

theorem isSeen_of_wasSeen {c : Canvas α} (h : c.cancellation.wasSeen = true) :
    c.cancellation.isSeen = true := by
  unfold Cancellation.wasSeen at h
  unfold Cancellation.isSeen
  rw [Option.any_eq_true] at h ⊢
  obtain ⟨n, honset, hn⟩ := h
  refine ⟨n, honset, ?_⟩
  simp only [decide_eq_true_eq] at hn ⊢
  omega

/-- What drawing leaves of a canvas when nothing stops it: the saved states, what has been drawn
unless it `marks` the canvas, and that no look has seen the request to stop unless that can be
`hidden`. -/
structure Passed (hidden marks : Prop) (c d : Canvas α) : Prop where
  saved : d.context.saved = c.context.saved
  drawn : ¬marks → d.context.drawn = c.context.drawn
  unseen : ¬hidden → c.cancellation.wasSeen = false → d.cancellation.wasSeen = false

namespace Passed

variable {hidden marks : Prop} {c d e : Canvas α}

theorem trans (h : c.Passed hidden marks d) (h' : d.Passed hidden marks e) :
    c.Passed hidden marks e :=
  ⟨h'.saved.trans h.saved, fun hmarks => (h'.drawn hmarks).trans (h.drawn hmarks),
    fun hseen hc => h'.unseen hseen (h.unseen hseen hc)⟩

theorem of_spares (h : c.Spares d) (hdrawn : ¬marks → d.context.drawn = c.context.drawn) :
    c.Passed hidden marks d :=
  ⟨h.saved, hdrawn, fun _ hc => h.cancellation ▸ hc⟩

theorem marked (h : c.Passed hidden marks d) : c.Passed hidden True d :=
  ⟨h.saved, fun hmarks => absurd trivial hmarks, h.unseen⟩

end Passed

/-- What is left of a canvas when an operator is stopped: it has put nothing on the canvas, except
perhaps for the text that was still to be drawn. -/
structure Interrupted [Scalar α] (o : Options α) (c d : Canvas α) : Prop where
  seen : d.cancellation.wasSeen = true
  drawn : d.context.drawn = c.context.drawn ∨ d.context.drawn = (c.flushText o).context.drawn

end Canvas

namespace Draw

/-- Drawing is stopped only by a request that is seen, and never if it `marks` the canvas. -/
structure Heeds (hidden marks : Prop) (x : Draw α β) : Prop where
  ends : ∀ c : Canvas α, Ends x c (fun _ d => c.Passed hidden marks d) fun fault d =>
    ¬marks ∧ fault = .cancelled ∧ d.cancellation.wasSeen = true ∧
      d.context.drawn = c.context.drawn

namespace Heeds

variable {hidden marks : Prop}

theorem pure (b : β) : Heeds hidden marks (pure b : Draw α β) :=
  ⟨fun _ => .of_spares (.refl _) fun _ => rfl⟩

theorem get : Heeds hidden marks (get : Draw α (Canvas α)) :=
  ⟨fun _ => .of_spares (.refl _) fun _ => rfl⟩

/-- A change that may put elements on the canvas. -/
theorem mark {f : Canvas α → Canvas α} (h : ∀ c : Canvas α, c.Spares (f c)) :
    Heeds hidden True (modify f : Draw α PUnit) :=
  ⟨fun c => .of_spares (h c) fun hmarks => absurd trivial hmarks⟩

theorem modify {f : Canvas α → Canvas α} (h : ∀ c : Canvas α, c.Spares (f c))
    (hdrawn : ∀ c : Canvas α, (f c).context.drawn = c.context.drawn) :
    Heeds hidden marks (modify f : Draw α PUnit) :=
  ⟨fun c => .of_spares (h c) fun _ => hdrawn c⟩

theorem bind {x : Draw α γ} {f : γ → Draw α β} (hx : Heeds hidden marks x)
    (hf : ∀ a, Heeds hidden marks (f a)) : Heeds hidden marks (x >>= f) := by
  refine ⟨fun c => ?_⟩
  rw [ends_bind]
  refine (hx.ends c).mono (fun a d hd => ?_) fun _ _ h => h
  refine ((hf a).ends d).mono (fun _ e he => hd.trans he) fun fault e he => ?_
  obtain ⟨hmarks, hfault, hseen, hdrawn⟩ := he
  exact ⟨hmarks, hfault, hseen, hdrawn.trans (hd.drawn hmarks)⟩

theorem ite {p : Prop} [Decidable p] {x y : Draw α β} (hx : Heeds hidden marks x)
    (hy : Heeds hidden marks y) : Heeds hidden marks (if p then x else y) := by
  split
  · exact hx
  · exact hy

theorem forM (items : List γ) {f : γ → Draw α PUnit} (hf : ∀ a, Heeds hidden marks (f a)) :
    Heeds hidden marks (items.forM f) := by
  induction items with
  | nil => exact .pure _
  | cons a rest ih => exact .bind (hf a) fun _ => ih

/-- What an operator does that consists of such drawing. -/
theorem outcome [Scalar α] {x : Draw α β} (h : Heeds hidden marks x) (o : Options α)
    (c : Canvas α) : Ends x c (fun _ d => c.Passed hidden True d) fun fault d =>
      fault = .cancelled ∧ c.Interrupted o d :=
  (h.ends c).mono (fun _ _ hd => hd.marked) fun _ _ hd => ⟨hd.2.1, hd.2.2.1, .inl hd.2.2.2⟩

end Heeds

end Draw

/-- Nested content is stopped by a request that is seen, or refused, and leaves the
context around it alone. -/
def Environment.Heeds (env : Environment α) : Prop :=
  ∀ graphics resources content locked (c : Canvas α),
    Ends (env.nested graphics resources content locked) c
      (fun _ d => d.context = c.context ∧ c.Passed env.library.HasTiling False d)
      fun fault d => d.context = c.context ∧
        (fault = .cancelled ∧ d.cancellation.wasSeen = true ∨
          (∃ limit, fault = .nestingTooDeep limit) ∧ c.Passed env.library.HasTiling False d)

section Operators

variable {env : Environment α} (h : env.Heeds)

include h

/-- Content that is refused is skipped, so that only a request to stop gets any further. -/
theorem ends_orSkip_nested (graphics : GraphicsState α) (resources : SetId)
    (content : ContentStream α) (locked : Bool) (c : Canvas α) :
    Ends (orSkip (env.nested graphics resources content locked)) c
      (fun _ d => d.context = c.context ∧ c.Passed env.library.HasTiling False d)
      fun fault d => d.context = c.context ∧ fault = .cancelled ∧
        d.cancellation.wasSeen = true := by
  rw [orSkip, ends_tryCatch, ends_map]
  refine (h graphics resources content locked c).mono (fun _ _ hd => hd) fun fault d hd => ?_
  obtain ⟨hcontext, ⟨rfl, hseen⟩ | ⟨⟨limit, rfl⟩, hpassed⟩⟩ := hd
  · exact ⟨hcontext, rfl, hseen⟩
  · exact ⟨hcontext, hpassed⟩

theorem heeds_orSkip_nested (graphics : GraphicsState α) (resources : SetId)
    (content : ContentStream α) (locked : Bool) :
    Heeds env.library.HasTiling False (orSkip (env.nested graphics resources content locked)) :=
  ⟨fun c => (ends_orSkip_nested h graphics resources content locked c).mono (fun _ _ hd => hd.2)
    fun _ _ hd => ⟨id, hd.2.1, hd.2.2, congrArg (·.drawn) hd.1⟩⟩

variable [Scalar α] {marks : Prop}

/-! ### Paint -/

omit h [Scalar α] in
theorem heeds_keepDefinition {hidden : Prop} (id : String) (node : List Node → Node)
    (nodes? : Option (List Node)) : Heeds hidden marks (keepDefinition (α := α) id node nodes?) := by
  cases nodes? with
  | none => exact .pure none
  | some nodes => exact .bind (.modify (fun _ => ⟨rfl, rfl⟩) fun _ => rfl) fun _ => .pure _

/-- The cell of a tiling is left out when it cannot be drawn: the request to stop is hidden. -/
theorem heeds_defineTiling (htiling : env.library.HasTiling) (t : Tiling α) (placement : Matrix α)
    (paint : Paint α) : Heeds env.library.HasTiling marks (t.define env placement paint) := by
  unfold Tiling.define
  refine .ite (.pure none) (.bind .get fun c => .ite (.pure _) ?_)
  refine .bind ⟨fun c => (ends_orNothing _).2 ?_⟩ (heeds_keepDefinition _ _)
  refine (ends_orSkip_nested h _ _ _ _ c).mono (fun _ d hd => ?_) fun _ d hd => ?_
  · exact ⟨hd.2.saved, fun _ => congrArg (·.drawn) hd.1, hd.2.unseen⟩
  · exact ⟨congrArg (·.saved) hd.1, fun _ => congrArg (·.drawn) hd.1,
      fun hseen => absurd htiling hseen⟩

theorem heeds_patternPaint (name : String) (paint : Paint α) (transform : Option (Matrix α)) :
    Heeds env.library.HasTiling marks (patternPaint env name paint transform) := by
  unfold patternPaint
  refine .bind .get fun c => ?_
  split
  · exact .pure _
  · next pattern hpattern =>
    have hdefine (placement : Matrix α) :
        Heeds env.library.HasTiling marks (pattern.define env placement paint) := by
      cases pattern with
      | tiling t => exact heeds_defineTiling h ⟨_, _, t, hpattern⟩ t placement paint
      | shading s m =>
        exact ⟨fun c => .of_spares (Canvas.redraws_gradient env.options s placement c).spares
          fun _ => congrArg (·.drawn) (c.context_gradient env.options s placement)⟩
    dsimp only
    split
    · exact .pure _
    · refine .bind (hdefine _) fun id? => ?_
      cases id? with
      | none => exact .pure _
      | some id => exact .pure _

theorem heeds_paintValue (paint : Paint α) (transform : Option (Matrix α)) :
    Heeds env.library.HasTiling marks (paintValue env paint transform) := by
  unfold paintValue
  split
  · exact .pure _
  · exact .bind (heeds_patternPaint h ..) fun _ => .pure _

/-! ### Shapes and images -/

theorem heeds_fillNode (node : Node) (evenOdd : Bool) (transform : Option (Matrix α)) :
    Heeds env.library.HasTiling marks (fillNode env node evenOdd transform) :=
  .bind .get fun _ => .bind (heeds_paintValue h ..) fun _ => .pure _

theorem heeds_strokeNode (node : Node) (transform : Option (Matrix α)) :
    Heeds env.library.HasTiling marks (strokeNode env node transform) :=
  .bind .get fun _ => .bind (heeds_paintValue h ..) fun _ => .pure _

omit h in
theorem heeds_append (node : Node) (bounds : Option (Rectangle α)) :
    Heeds env.library.HasTiling True (modify fun c => c.append env.options node bounds) :=
  .mark fun c => (Canvas.redraws_append env.options node bounds c).spares

omit h in
theorem heeds_flushText :
    Heeds env.library.HasTiling True (modify fun c => c.flushText env.options) :=
  .mark fun c => (Canvas.redraws_flushText env.options c).spares

omit h in
theorem heeds_drawBroken :
    Heeds env.library.HasTiling True (modify (Image.drawBroken env.options)) :=
  .mark fun c => (Canvas.redraws_drawBroken env.options c).spares

theorem heeds_drawPath (path : Path α) (mode : PaintMode) :
    Heeds env.library.HasTiling True (drawPath env path mode) := by
  unfold drawPath
  refine .bind .get fun c => ?_
  dsimp only
  split
  · exact .pure _
  · split
    · exact .pure _
    · have hrest (transform : Option (Matrix α)) (wide narrow : Option (Rectangle α))
          (node : Node) :
          Heeds env.library.HasTiling True (if mode.strokes then do
            let node ← strokeNode env node transform
            modify fun c => c.append env.options node wide
          else modify fun c => c.append env.options node narrow) :=
        .ite (.bind (heeds_strokeNode h ..) fun _ => heeds_append ..) (heeds_append ..)
      exact .ite (.bind (heeds_fillNode h ..) (hrest _ _ _)) (.bind (.pure _) (hrest _ _ _))

theorem heeds_drawImage (i : Image α) : Heeds env.library.HasTiling True (i.draw env) := by
  unfold Image.draw
  refine .bind .get fun c => ?_
  dsimp only
  split
  · exact heeds_drawBroken
  · refine .bind (.mark fun _ => ⟨rfl, rfl⟩) fun _ => ?_
    refine .ite (.bind (.mark fun _ => ⟨rfl, rfl⟩) fun _ => ?_)
      (.bind (.pure _) fun _ => heeds_append ..)
    exact .bind (heeds_fillNode h ..) fun _ => heeds_append ..

theorem heeds_drawInlineImage (entries : Keyed (Operand α)) (data : List UInt8) :
    Heeds env.library.HasTiling True (drawInlineImage env entries data) := by
  unfold drawInlineImage
  refine .bind heeds_flushText fun _ => .bind .get fun c => ?_
  split
  · exact heeds_drawImage h _
  · exact heeds_drawBroken

theorem heeds_paintPath (mode : PaintMode) :
    Heeds env.library.HasTiling True (paintPath env mode) := by
  have hclip (pending : Option Bool) (path : Path α) :
      Heeds env.library.HasTiling True (clipPending pending path) := by
    cases pending with
    | none => exact .pure _
    | some evenOdd => exact .mark fun c => c.spares_clipTo _ _
  unfold paintPath
  dsimp only
  have hlook : Heeds env.library.HasTiling True (get : Draw α (Canvas α)) := .get
  have hrest := Heeds.bind hlook fun c =>
    Heeds.bind (.mark (f := fun d => d.mapContext fun k => { k with path := [], pendingClip := none })
        fun _ => ⟨rfl, rfl⟩)
      fun _ => Heeds.ite (p := ((mode.strokes || mode.fills) && !c.context.path.isEmpty) = true)
        (.bind heeds_flushText fun _ =>
          .bind (heeds_drawPath h c.context.path mode) fun _ =>
            hclip c.context.pendingClip c.context.path)
        (hclip c.context.pendingClip c.context.path)
  exact .ite (.bind (.mark fun _ => ⟨rfl, rfl⟩) fun _ => hrest) hrest

/-! ### Forms and masks -/

/-- The text that was still to be drawn is drawn before a form, and the elements of the form are put
on the canvas when all of it has been drawn. -/
theorem ends_drawForm (f : Form α) (c : Canvas α) :
    Ends (f.draw env) c (fun _ d => c.Passed env.library.HasTiling True d) fun fault d =>
      fault = .cancelled ∧ c.Interrupted env.options d := by
  unfold Form.draw
  rw [ends_bind, ends_get, ends_ite]
  refine ⟨fun _ => .of_spares (.refl c) fun _ => rfl, fun _ => ?_⟩
  rw [ends_bind, ends_modify, ends_bind, ends_get, ends_bind, ends_modifyGet]
  dsimp only
  have hflushed := (Canvas.redraws_flushText env.options c).spares
  generalize hd : c.flushText env.options = d at *
  generalize f.matrix.multiply d.graphics.ctm = ctm
  have hcut := (Canvas.redraws_formRegion env.viewport d.graphics.clip f.bbox ctm d).spares
  have hcontext := d.context_formRegion env.viewport d.graphics.clip f.bbox ctm
  generalize (d.formRegion env.viewport d.graphics.clip f.bbox ctm).1 = region
  generalize (d.formRegion env.viewport d.graphics.clip f.bbox ctm).2 = e at *
  have hpushed : c.Spares { e with activeForms := f.id :: e.activeForms } :=
    (hflushed.trans hcut).trans ⟨rfl, rfl⟩
  rw [ends_bind, ends_get, ends_bind, ends_set, ends_bind, ends_tryFinally]
  refine (ends_orSkip_nested h _ _ _ _ _).mono (fun nodes? b hb => ?_) fun fault b hb => ?_
  · have hplaced := (Canvas.redraws_place f (nodes?.getD [])
      { b with activeForms := b.activeForms.drop 1 }).spares
    refine .trans (.of_spares hpushed fun hmarks => absurd trivial hmarks)
      (.trans (d := b) hb.2.marked (.of_spares ?_ fun hmarks => absurd trivial hmarks))
    exact (⟨rfl, rfl⟩ : b.Spares { b with activeForms := b.activeForms.drop 1 }).trans hplaced
  · obtain ⟨hkept, hfault, hseen⟩ := hb
    refine ⟨hfault, hseen, .inr ?_⟩
    show b.context.drawn = _
    rw [hkept, hd]
    exact congrArg (·.drawn) hcontext

theorem heeds_defineMask (m : SoftMask α) :
    Heeds env.library.HasTiling False (m.define env) := by
  unfold SoftMask.define
  refine .bind .get fun c => .ite (.pure _) ?_
  refine .bind ⟨fun c => .of_spares (Canvas.redraws_formRegion _ _ _ _ c).spares fun _ =>
    congrArg (·.drawn) (c.context_formRegion ..)⟩ fun region => .bind .get fun c => ?_
  exact .bind (heeds_orSkip_nested h _ _ _ _) (heeds_keepDefinition _ _)

theorem heeds_applyParameters (name : String) :
    Heeds env.library.HasTiling False (applyParameters env name) := by
  have hset (mask : Option String) :
      Heeds env.library.HasTiling False (modify fun c : Canvas α => c.setSoftMask mask) :=
    .modify (fun _ => ⟨rfl, rfl⟩) fun _ => rfl
  unfold applyParameters
  refine .bind .get fun c => ?_
  split
  · next p _ =>
    unfold GraphicsParameters.apply
    refine .bind (.modify (Canvas.spares_applyPlain env p) fun c => (c.adjusts_applyPlain p).drawn)
      fun _ => ?_
    split
    · exact .pure _
    · exact hset none
    · exact .bind (heeds_defineMask h _) hset
  · exact .pure _

theorem ends_drawXObject (name : String) (c : Canvas α) :
    Ends (drawXObject env name) c (fun _ d => c.Passed env.library.HasTiling True d) fun fault d =>
      fault = .cancelled ∧ c.Interrupted env.options d := by
  unfold drawXObject
  rw [ends_bind, ends_get]
  split
  · next x _ =>
    cases x with
    | image i =>
      have himage : Heeds env.library.HasTiling True ((XObject.image i).draw env) :=
        .bind heeds_flushText fun _ => heeds_drawImage h i
      exact himage.outcome env.options c
    | form f => exact ends_drawForm h f c
  · exact .of_spares (.refl c) fun _ => rfl

omit h in
theorem heeds_drawShading (name : String) :
    Heeds env.library.HasTiling True (drawShading env name) := by
  unfold drawShading
  refine .bind .get fun c => ?_
  split
  · exact .mark fun c => (Canvas.redraws_paintShading _ _ c).spares
  · exact .pure _

/-! ### Text -/

theorem heeds_makeStyle (g : GraphicsState α) (scale : α) :
    Heeds env.library.HasTiling False (makeStyle env g scale) := by
  have hfill : Heeds env.library.HasTiling False (textFill env g) := by
    unfold textFill
    refine .ite (.pure _) ?_
    split
    · exact .pure _
    · refine .bind (heeds_patternPaint h ..) fun paint => ?_
      cases paint with
      | definition id => exact .pure _
      | solid rgb => exact .pure _
  exact .bind hfill fun _ => .pure _

theorem heeds_currentStyle (scale : α) :
    Heeds env.library.HasTiling False (currentStyle env scale) := by
  have hmake (c : Canvas α) : Heeds env.library.HasTiling False (renewStyle env c.graphics scale) :=
    .bind (heeds_makeStyle h c.graphics scale) fun style =>
      .bind (.modify (fun _ => ⟨rfl, rfl⟩) fun _ => rfl) fun _ => .pure style
  rw [currentStyle_eq]
  refine .bind .get fun c => ?_
  split
  · exact .ite (.pure _) (hmake c)
  · exact hmake c

theorem heeds_showPiece (font : Font α) (piece : List UInt8) (spaces : Nat) :
    Heeds env.library.HasTiling False (showPiece env font piece spaces) := by
  unfold showPiece
  refine ⟨fun c => ?_⟩
  dsimp only
  rw [ends_bind, ends_get, ends_bind, ends_set]
  have hshow (style : TextStyle α) (text : String) (width advance : α) :
      Heeds env.library.HasTiling False (modify fun c => (c.mapContext fun k =>
        { k with layout := k.layout.addText env.options text width style }).advance advance) :=
    .modify (fun _ => ⟨rfl, rfl⟩) fun _ => rfl
  refine ((Heeds.bind (heeds_currentStyle h _) fun style => hshow style _ _ _).ends _).mono ?_ ?_
  · exact fun _ d hd => ⟨hd.saved, hd.drawn, hd.unseen⟩
  · exact fun _ d hd => hd

theorem heeds_drawGlyph (glyphs : GlyphProcedures α) (code : UInt8) :
    Heeds env.library.HasTiling False (drawGlyph env glyphs code) := by
  unfold drawGlyph
  refine .bind .get fun c => ?_
  split
  · exact .pure _
  · exact .ite (.pure _) (.bind (heeds_orSkip_nested h _ _ _ _) fun _ => .pure _)

theorem heeds_drawGlyphs (font : Font α) (glyphs : GlyphProcedures α) (codes : List UInt8) :
    Heeds env.library.HasTiling False (drawGlyphs env font glyphs codes) := by
  induction codes with
  | nil => exact .pure _
  | cons code rest ih =>
    refine .bind (heeds_drawGlyph h glyphs code) fun _ => .bind .get fun c => ?_
    exact .bind (.modify (fun _ => ⟨rfl, rfl⟩) fun _ => rfl) fun _ => .bind ih fun _ => .pure _

theorem heeds_showText (bytes : List UInt8) :
    Heeds env.library.HasTiling False (showText env bytes) := by
  unfold showText
  refine .bind .get fun c => ?_
  dsimp only
  split
  · exact .bind (heeds_drawGlyphs h ..) fun _ => .modify (fun _ => ⟨rfl, rfl⟩) fun _ => rfl
  · exact .ite (.forM _ fun piece => heeds_showPiece h _ piece _) (heeds_showPiece h ..)

theorem heeds_showAdjusted (items : List (Operand α)) :
    Heeds env.library.HasTiling False (showAdjusted env items) := by
  induction items with
  | nil => exact .pure _
  | cons item rest ih =>
    unfold showAdjusted
    dsimp only
    split
    · exact .bind (heeds_showText h _) fun _ => ih
    · split
      · exact .bind (.modify (fun _ => ⟨rfl, rfl⟩) fun _ => rfl) fun _ => ih
      · exact ih

/-! ### Operators -/

omit h in
theorem heeds_adjust (env : Environment α) (a : Adjustment α) :
    Heeds env.library.HasTiling False (modify (a.apply env ·)) :=
  .modify (a.spares env) fun c => (a.adjusts env c).drawn

/-- What an operator does, unless it is one of the two on saved states. -/
theorem ends_perform (args : Arguments α) {op : Operator} (hsave : op ≠ .save)
    (hrestore : op ≠ .restore) (c : Canvas α) :
    Ends (op.perform env args) c (fun _ d => c.Passed env.library.HasTiling True d) fun fault d =>
      fault = .cancelled ∧ c.Interrupted env.options d := by
  have hpure : Heeds env.library.HasTiling False (pure () : Draw α Unit) := .pure ()
  have hnothing := hpure.outcome env.options c
  cases hadjusts : op.adjustment? args with
  | some a =>
    rw [Operator.perform_of_adjustment? hadjusts]
    exact (heeds_adjust env a).outcome env.options c
  | none =>
    cases op with
    | save => exact absurd rfl hsave
    | restore => exact absurd rfl hrestore
    | parameters => exact (heeds_applyParameters h _).outcome env.options c
    | paint mode => exact (heeds_paintPath h mode).outcome env.options c
    | endText =>
      have hend : Heeds env.library.HasTiling True (modify (·.endText env.options)) :=
        .mark fun c => Canvas.spares_endText env.options c
      exact hend.outcome env.options c
    | showText => exact (heeds_showText h _).outcome env.options c
    | showAdjusted => exact (heeds_showAdjusted h _).outcome env.options c
    | showOnNextLine =>
      exact ((heeds_adjust env .nextLine).bind fun _ => heeds_showText h _).outcome env.options c
    | showSpacedOnNextLine =>
      have hspacing : Heeds env.library.HasTiling False (modify fun c =>
          ((c.setWordSpacing (args.number 0)).setCharSpacing (args.number 1)).nextLine) := by
        refine .modify (fun c => ?_) fun c => ?_
        · exact (((Adjustment.wordSpacing _).spares env c).trans
            ((Adjustment.charSpacing _).spares env _)).trans (Adjustment.nextLine.spares env _)
        · exact ((((Adjustment.wordSpacing _).adjusts env c).trans
            ((Adjustment.charSpacing _).adjusts env _)).trans
            (Adjustment.nextLine.adjusts env _)).drawn
      exact (hspacing.bind fun _ => heeds_showText h _).outcome env.options c
    | glyphWidth => exact hnothing
    | xobject => exact ends_drawXObject h _ c
    | shading => exact (heeds_drawShading _).outcome env.options c
    | inlineImage =>
      unfold Operator.perform
      dsimp only
      split
      · exact (heeds_drawInlineImage h _ _).outcome env.options c
      · exact hnothing
    | markPoint => exact hnothing
    | compatibility => exact hnothing
    | _ => cases hadjusts

end Operators

end PageSvg
