import PageSvg.Proofs.Canvas.Adjustment
import PageSvg.Proofs.Canvas.Outcome

/-!
# Isolation of nested content

Every operator keeps the frame of the canvas, whatever becomes of it, as long as nested content
does; a level of nesting therefore keeps it if the level below does, and it hands the context of
the content around back as it was.
-/

namespace PageSvg

variable {α β γ : Type}

/-- The faults that end drawing: a request to stop, and content that is nested too deep. -/
def Fault.Stops (fault : Fault α) : Prop :=
  fault = .cancelled ∨ ∃ limit, fault = .nestingTooDeep limit

/-- What nested content leaves of the canvas around it. -/
structure Canvas.Isolated (c d : Canvas α) : Prop extends Canvas.Frame c d where
  context : d.context = c.context

theorem Canvas.Isolated.trans {c d e : Canvas α} (h : c.Isolated d) (h' : d.Isolated e) :
    c.Isolated e := ⟨h.toFrame.trans h'.toFrame, h'.context.trans h.context⟩

namespace Draw

/-- Drawing keeps the frame of every canvas, whatever becomes of it. -/
structure Framed (x : Draw α β) : Prop where
  ends : ∀ c : Canvas α, Ends x c (fun _ d => c.Frame d) fun fault d => fault.Stops ∧ c.Frame d

namespace Framed

theorem pure (b : β) : Framed (pure b : Draw α β) := ⟨fun c => .refl c⟩

theorem get : Framed (get : Draw α (Canvas α)) := ⟨fun c => .refl c⟩

theorem modify {f : Canvas α → Canvas α} (h : ∀ c : Canvas α, c.Frame (f c)) :
    Framed (modify f : Draw α PUnit) := ⟨h⟩

theorem modifyGet {f : Canvas α → β × Canvas α} (h : ∀ c : Canvas α, c.Frame (f c).2) :
    Framed (modifyGet f : Draw α β) := ⟨h⟩

theorem bind {x : Draw α γ} {f : γ → Draw α β} (hx : Framed x) (hf : ∀ a, Framed (f a)) :
    Framed (x >>= f) := by
  refine ⟨fun c => ?_⟩
  rw [ends_bind]
  refine (hx.ends c).mono (fun a d hd => ?_) fun _ _ h => h
  exact ((hf a).ends d).mono (fun _ e he => hd.trans he) fun _ e he => ⟨he.1, hd.trans he.2⟩

theorem ite {p : Prop} [Decidable p] {x y : Draw α β} (hx : Framed x) (hy : Framed y) :
    Framed (if p then x else y) := by
  split
  · exact hx
  · exact hy

theorem orSkip {x : Draw α β} (hx : Framed x) : Framed (orSkip x) :=
  ⟨fun c => ends_orSkip x ((hx.ends c).mono (fun _ _ h => h) fun _ _ h => ⟨fun _ _ => h.2, h⟩)⟩

theorem orNothing {x : Draw α (Option β)} (hx : Framed x) : Framed (orNothing x) :=
  ⟨fun c => (ends_orNothing x).2 ((hx.ends c).mono (fun _ _ h => h) fun _ _ h => h.2)⟩

theorem forM (items : List γ) {f : γ → Draw α PUnit} (hf : ∀ a, Framed (f a)) :
    Framed (items.forM f) := by
  induction items with
  | nil => exact .pure _
  | cons a rest ih => exact .bind (hf a) fun _ => ih

theorem checkCancelled : Framed (checkCancelled : Draw α Unit) :=
  ⟨fun _ => ends_checkCancelled.2
    ⟨fun _ => ⟨.inl rfl, rfl, rfl, .refl _, .refl _⟩, fun _ => ⟨rfl, rfl, .refl _, .refl _⟩⟩⟩

end Framed

end Draw

open Draw

/-- Nested content leaves the canvas around it alone. -/
def Environment.Isolates (env : Environment α) : Prop :=
  ∀ graphics resources content locked (c : Canvas α),
    Ends (env.nested graphics resources content locked) c (fun _ d => c.Isolated d)
      fun fault d => fault.Stops ∧ c.Isolated d

section Operators

variable {env : Environment α} (h : env.Isolates)

include h

theorem framed_nested (graphics : GraphicsState α) (resources : SetId)
    (content : ContentStream α) (locked : Bool) :
    Framed (env.nested graphics resources content locked) :=
  ⟨fun c => (h graphics resources content locked c).mono (fun _ _ h => h.toFrame) fun _ _ h =>
    ⟨h.1, h.2.toFrame⟩⟩

variable [Scalar α]

/-! ### Paint -/

omit h [Scalar α] in
theorem framed_keepDefinition (id : String) (node : List Node → Node) (nodes? : Option (List Node)) :
    Framed (keepDefinition (α := α) id node nodes?) := by
  cases nodes? with
  | none => exact .pure none
  | some nodes => exact .bind (.modify fun c => c.frame_insertNew _ _) fun _ => .pure _

theorem framed_defineTiling (t : Tiling α) (placement : Matrix α) (paint : Paint α) :
    Framed (t.define env placement paint) := by
  unfold Tiling.define
  refine .ite (.pure none) (.bind .get fun c => .ite (.pure _) ?_)
  exact .bind (.orNothing (.orSkip (framed_nested h ..))) (framed_keepDefinition _ _)

theorem framed_definePattern (placement : Matrix α) (paint : Paint α) (pattern : Pattern α) :
    Framed (pattern.define env placement paint) := by
  cases pattern with
  | tiling t => exact framed_defineTiling h t placement paint
  | shading s m => exact .modifyGet fun c => c.frame_gradient _ s placement

theorem framed_patternPaint (name : String) (paint : Paint α) (transform : Option (Matrix α)) :
    Framed (patternPaint env name paint transform) := by
  unfold patternPaint
  refine .bind .get fun c => ?_
  split
  · exact .pure _
  · dsimp only
    split
    · exact .pure _
    · refine .bind (framed_definePattern h ..) fun id? => ?_
      cases id? with
      | none => exact .pure _
      | some id => exact .pure _

theorem framed_paintValue (paint : Paint α) (transform : Option (Matrix α)) :
    Framed (paintValue env paint transform) := by
  unfold paintValue
  split
  · exact .pure _
  · exact .bind (framed_patternPaint h ..) fun _ => .pure _

/-! ### Shapes and images -/

theorem framed_fillNode (node : Node) (evenOdd : Bool) (transform : Option (Matrix α)) :
    Framed (fillNode env node evenOdd transform) :=
  .bind .get fun _ => .bind (framed_paintValue h ..) fun _ => .pure _

theorem framed_strokeNode (node : Node) (transform : Option (Matrix α)) :
    Framed (strokeNode env node transform) :=
  .bind .get fun _ => .bind (framed_paintValue h ..) fun _ => .pure _

theorem framed_drawPath (path : Path α) (mode : PaintMode) :
    Framed (drawPath env path mode) := by
  unfold drawPath
  refine .bind .get fun c => ?_
  dsimp only
  split
  · exact .pure _
  · split
    · exact .pure _
    · have hrest (transform : Option (Matrix α)) (wide narrow : Option (Rectangle α))
          (node : Node) :
          Framed (if mode.strokes then do
            let node ← strokeNode env node transform
            modify fun c => c.append env.options node wide
          else modify fun c => c.append env.options node narrow) :=
        .ite (.bind (framed_strokeNode h ..) fun _ => .modify fun c => c.frame_append ..)
          (.modify fun c => c.frame_append ..)
      exact .ite (.bind (framed_fillNode h ..) (hrest _ _ _)) (.bind (.pure _) (hrest _ _ _))

theorem framed_drawImage (i : Image α) : Framed (i.draw env) := by
  unfold Image.draw
  refine .bind .get fun c => ?_
  dsimp only
  split
  · exact .modify fun c => c.frame_drawBroken _
  · refine .bind (.modify fun c => c.frame_insertNew _ _) fun _ => ?_
    have hrest (bounds : Option (Rectangle α)) (node : Node) :
        Framed (modify fun c => c.append env.options node bounds) :=
      .modify fun c => c.frame_append ..
    refine .ite (.bind (.modify fun c => c.frame_insertNew _ _) fun _ => ?_)
      (.bind (.pure _) (hrest _))
    exact .bind (framed_fillNode h ..) (hrest _)

theorem framed_drawInlineImage (entries : Keyed (Operand α)) (data : List UInt8) :
    Framed (drawInlineImage env entries data) := by
  unfold drawInlineImage
  refine .bind (.modify fun c => c.frame_flushText _) fun _ => .bind .get fun c => ?_
  split
  · exact framed_drawImage h _
  · exact .modify fun c => c.frame_drawBroken _

theorem framed_paintPath (mode : PaintMode) : Framed (paintPath env mode) := by
  have hclip (pending : Option Bool) (path : Path α) :
      Framed (clipPending pending path) := by
    cases pending with
    | none => exact .pure _
    | some evenOdd => exact .modify fun c => c.frame_clipTo _ _
  unfold paintPath
  dsimp only
  have hrest := Framed.bind (.get (α := α)) fun c =>
    Framed.bind
      (.modify fun d => d.frame_mapContext fun k => { k with path := [], pendingClip := none })
      fun _ => Framed.ite (p := ((mode.strokes || mode.fills) && !c.context.path.isEmpty) = true)
        (.bind (.modify fun d => d.frame_flushText env.options) fun _ =>
          .bind (framed_drawPath h c.context.path mode) fun _ =>
            hclip c.context.pendingClip c.context.path)
        (hclip c.context.pendingClip c.context.path)
  exact .ite (.bind (.modify fun c => (c.adjusts_mapPath _).frame) fun _ => hrest) hrest

/-! ### Forms and masks -/

/-- The end of drawing a form: its content begins in a graphics state. -/
def Form.drawFrom (env : Environment α) (f : Form α) (state : GraphicsState α) : Draw α Unit := do
  let c ← get
  let resources := f.resources.getD c.context.resources
  set { c with activeForms := f.id :: c.activeForms }
  let nodes? ←
    tryFinally (orSkip (env.nested state resources f.content c.context.colorLocked))
      (modify fun c => { c with activeForms := c.activeForms.drop 1 })
  modify (f.place · (nodes?.getD []))

omit [Scalar α] in
theorem framed_drawFrom (f : Form α) (state : GraphicsState α) : Framed (f.drawFrom env state) := by
  refine ⟨fun c => ?_⟩
  unfold Form.drawFrom
  rw [ends_bind, ends_get]
  dsimp only
  rw [ends_bind, ends_set, ends_bind, ends_tryFinally]
  have hpop {d : Canvas α} (hd : Canvas.Frame { c with activeForms := f.id :: c.activeForms } d) :
      c.Frame { d with activeForms := d.activeForms.drop 1 } :=
    ⟨hd.depth, by rw [hd.activeForms]; rfl, hd.clips, hd.definitions⟩
  refine ((Framed.orSkip (framed_nested h _ _ _ _)).ends _).mono ?_ ?_
  · exact fun nodes d hd => (hpop hd).trans (Canvas.frame_place _ f _)
  · exact fun fault d hd => ⟨hd.1, hpop hd.2⟩

theorem framed_drawForm (f : Form α) : Framed (f.draw env) := by
  unfold Form.draw
  refine .bind .get fun c => .ite (.pure _) ?_
  refine .bind (.modify fun c => c.frame_flushText _) fun _ => .bind .get fun c => ?_
  exact .bind (.modifyGet fun c => c.frame_formRegion ..) fun region => framed_drawFrom h f _

theorem framed_defineMask (m : SoftMask α) : Framed (m.define env) := by
  unfold SoftMask.define
  refine .bind .get fun c => .ite (.pure _) ?_
  refine .bind (.modifyGet fun c => c.frame_formRegion ..) fun region => .bind .get fun c => ?_
  exact .bind (.orSkip (framed_nested h _ _ _ _)) (framed_keepDefinition _ _)

theorem framed_applyParameters (name : String) : Framed (applyParameters env name) := by
  unfold applyParameters
  refine .bind .get fun c => ?_
  split
  · next p _ =>
    unfold GraphicsParameters.apply
    refine .bind (.modify fun c => (c.adjusts_applyPlain p).frame) fun _ => ?_
    have hset (mask : Option String) : Framed (modify fun c : Canvas α => c.setSoftMask mask) :=
      .modify fun c => c.frame_mapGraphics _
    split
    · exact .pure _
    · exact hset none
    · exact .bind (framed_defineMask h _) hset
  · exact .pure _

theorem framed_drawXObject (name : String) : Framed (drawXObject env name) := by
  unfold drawXObject
  refine .bind .get fun c => ?_
  split
  · next x _ =>
    cases x with
    | image i => exact .bind (.modify fun c => c.frame_flushText _) fun _ => framed_drawImage h i
    | form f => exact framed_drawForm h f
  · exact .pure _

omit h in
theorem framed_drawShading (name : String) : Framed (drawShading env name) := by
  unfold drawShading
  refine .bind .get fun c => ?_
  split
  · exact .modify fun c => c.frame_paintShading ..
  · exact .pure _

/-! ### Text -/

theorem framed_makeStyle (g : GraphicsState α) (scale : α) : Framed (makeStyle env g scale) := by
  have hfill : Framed (textFill env g) := by
    unfold textFill
    refine .ite (.pure _) ?_
    split
    · exact .pure _
    · refine .bind (framed_patternPaint h ..) fun paint => ?_
      cases paint with
      | definition id => exact .pure _
      | solid rgb => exact .pure _
  exact .bind hfill fun _ => .pure _

theorem framed_currentStyle (scale : α) : Framed (currentStyle env scale) := by
  have hmake (c : Canvas α) : Framed (renewStyle env c.graphics scale) :=
    .bind (framed_makeStyle h c.graphics scale) fun style =>
      .bind (.modify fun c => c.frame_mapContext _) fun _ => .pure style
  rw [currentStyle_eq]
  refine .bind .get fun c => ?_
  split
  · exact .ite (.pure _) (hmake c)
  · exact hmake c

theorem framed_showPiece (font : Font α) (piece : List UInt8) (spaces : Nat) :
    Framed (showPiece env font piece spaces) := by
  unfold showPiece
  refine ⟨fun c => ?_⟩
  dsimp only
  rw [ends_bind, ends_get, ends_bind, ends_set]
  have hposition := c.frame_mapContext fun k =>
    { k with layout := k.layout.position env.options c.graphics.textPosition }
  have hshow (style : TextStyle α) (text : String) (width advance : α) :
      Framed (modify fun c => (c.mapContext fun k =>
        { k with layout := k.layout.addText env.options text width style }).advance advance) :=
    .modify fun c => (c.frame_mapContext _).trans (Canvas.adjusts_mapText _ _).frame
  refine ((Framed.bind (framed_currentStyle h _) fun style => hshow style _ _ _).ends _).mono ?_ ?_
  · exact fun _ d hd => hposition.trans hd
  · exact fun _ d hd => ⟨hd.1, hposition.trans hd.2⟩

theorem framed_drawGlyph (glyphs : GlyphProcedures α) (code : UInt8) :
    Framed (drawGlyph env glyphs code) := by
  unfold drawGlyph
  refine .bind .get fun c => ?_
  split
  · exact .pure _
  · exact .ite (.pure _) (.bind (.orSkip (framed_nested h _ _ _ _)) fun _ => .pure _)

theorem framed_drawGlyphs (font : Font α) (glyphs : GlyphProcedures α) (codes : List UInt8) :
    Framed (drawGlyphs env font glyphs codes) := by
  induction codes with
  | nil => exact .pure _
  | cons code rest ih =>
    refine .bind (framed_drawGlyph h glyphs code) fun _ => .bind .get fun c => ?_
    exact .bind (.modify fun c => (c.adjusts_mapText _).frame) fun _ => .bind ih fun _ => .pure _

theorem framed_showText (bytes : List UInt8) : Framed (showText env bytes) := by
  unfold showText
  refine .bind .get fun c => ?_
  dsimp only
  split
  · exact .bind (framed_drawGlyphs h ..) fun _ => .modify fun c => c.frame_mapContext _
  · exact .ite (.forM _ fun piece => framed_showPiece h _ piece _) (framed_showPiece h ..)

theorem framed_showAdjusted (items : List (Operand α)) : Framed (showAdjusted env items) := by
  induction items with
  | nil => exact .pure _
  | cons item rest ih =>
    unfold showAdjusted
    dsimp only
    split
    · exact .bind (framed_showText h _) fun _ => ih
    · split
      · exact .bind (.modify fun c => (c.adjusts_mapText _).frame) fun _ => ih
      · exact ih

/-! ### Operators -/

theorem framed_perform (args : Arguments α) (op : Operator) : Framed (op.perform env args) := by
  cases hadjusts : op.adjustment? args with
  | some a =>
    rw [Operator.perform_of_adjustment? hadjusts]
    exact .modify fun c => (a.adjusts env c).frame
  | none =>
    cases op with
    | save => exact .modify fun c => c.frame_mapContext _
    | restore => exact .modify fun c => c.frame_restore
    | parameters => exact framed_applyParameters h _
    | paint mode => exact framed_paintPath h mode
    | endText => exact .modify fun c => c.frame_endText _
    | showText => exact framed_showText h _
    | showAdjusted => exact framed_showAdjusted h _
    | showOnNextLine =>
      exact .bind (.modify fun c => c.adjusts_nextLine.frame) fun _ => framed_showText h _
    | showSpacedOnNextLine =>
      refine .bind (.modify fun c => ?_) fun _ => framed_showText h _
      exact (((c.adjusts_mapText _).trans (Canvas.adjusts_setCharSpacing _ _)).trans
        (Canvas.adjusts_nextLine _)).frame
    | glyphWidth => exact .pure _
    | xobject => exact framed_drawXObject h _
    | shading => exact framed_drawShading _
    | inlineImage =>
      unfold Operator.perform
      dsimp only
      split
      · exact framed_drawInlineImage h _ _
      · exact .pure _
    | markPoint => exact .pure _
    | compatibility => exact .pure _
    | _ => cases hadjusts

/-! ### Content -/

theorem framed_execute (op : Operation α) : Framed (execute env op) := by
  unfold execute OperatorTable.dispatch
  split
  · exact .pure _
  · exact .bind (framed_perform h _ _) fun _ => .pure _

theorem framed_executeAll (content : ContentStream α) : Framed (executeAll env content) := by
  induction content with
  | nil => exact .pure _
  | cons op rest ih =>
    exact .bind .checkCancelled fun _ => .bind (framed_execute h op) fun _ => ih

theorem framed_drawContent (content : ContentStream α) : Framed (drawContent env content) :=
  .bind (framed_executeAll h content) fun _ => .modify fun c => c.frame_flushText _

end Operators

/-! ### Levels -/

/-- Content in a context of its own leaves nothing of it behind. -/
theorem isolated_inside {x : Draw α β} (hx : Framed x) (inner : Context α) (c : Canvas α) :
    Ends (inside inner x) c (fun _ d => c.Isolated d)
      fun fault d => fault.Stops ∧ c.Isolated d := by
  have houtside {d : Canvas α}
      (hd : Canvas.Frame { c with context := inner, depth := c.depth + 1 } d) :
      c.Isolated { d with context := c.context, depth := c.depth } :=
    ⟨⟨rfl, hd.activeForms, hd.clips, hd.definitions⟩, rfl⟩
  rw [ends_inside]
  exact (hx.ends _).mono (fun _ _ hd => houtside hd) fun _ _ hd => ⟨hd.1, houtside hd.2⟩

/-- A level of nesting isolates its content if the level below does. -/
theorem Setting.nested_isolates [Scalar α] (s : Setting α) (level : Nat) :
    ({ toSetting := s, nested := s.nested level } : Environment α).Isolates := by
  intro graphics resources content locked c
  have hself (c : Canvas α) :
      c.Isolated { c with cancellation.looks := c.cancellation.looks + 1 } :=
    ⟨⟨rfl, rfl, .refl _, .refl _⟩, rfl⟩
  show Ends (s.nested level graphics resources content locked) c _ _
  -- A level either fails when it is entered or leads to content whose own levels are below it.
  induction level generalizing graphics resources content locked c with
  | zero =>
    rw [Setting.nested, ends_bind, ends_checkCancelled]
    exact ⟨fun _ => ⟨.inl rfl, hself c⟩, fun _ => ⟨.inr ⟨_, rfl⟩, hself c⟩⟩
  | succ level ih =>
    have hlevel : ({ toSetting := s, nested := s.nested level } : Environment α).Isolates := ih
    have hcontent : Framed (do
        drawContent { toSetting := s, nested := s.nested level } content
        return (← get).content) :=
      .bind (framed_drawContent hlevel content) fun _ => .bind .get fun _ => .pure _
    have hinside := isolated_inside hcontent
      { Context.start graphics resources with colorLocked := locked }
      { c with cancellation.looks := c.cancellation.looks + 1 }
    rw [Setting.nested, ends_bind, ends_checkCancelled]
    exact ⟨fun _ => ⟨.inl rfl, hself c⟩, fun _ => hinside.mono
      (fun _ _ hd => (hself c).trans hd) fun _ _ hd => ⟨hd.1, (hself c).trans hd.2⟩⟩

/-- **Nested content is isolated on every outcome.** Whether it gives its elements, is cancelled or
is nested too deep, the context around it, the depth and the forms being drawn are what they were;
every region keeps its place, name, parent, shape and rule, and definitions and rules stay. -/
theorem nested_isolated [Scalar α] (s : Setting α) (level : Nat) (graphics : GraphicsState α)
    (resources : SetId) (content : ContentStream α) (locked : Bool) (c : Canvas α) :
    Ends (s.nested level graphics resources content locked) c (fun _ d => c.Isolated d)
      fun fault d => fault.Stops ∧ c.Isolated d :=
  s.nested_isolates level graphics resources content locked c

end PageSvg
