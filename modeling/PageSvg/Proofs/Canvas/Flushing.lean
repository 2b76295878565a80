import Mathlib.Order.Defs.Unbundled
import PageSvg.Proofs.Canvas.PendingText
import PageSvg.Proofs.Canvas.Quiet

/-!
# Operators that neither show text nor end its object

Such an operator leaves the waiting text and the elements alone, or it draws; then it does what it
does once the waiting text has been drawn, and its own elements come after that text.
-/

namespace PageSvg

open Draw

variable {α β γ : Type}

/-! ### What drawing keeps -/

/-- From every canvas drawing leads to one in relation `R` to it, whatever becomes of it. -/
structure Draw.Leads (R : Canvas α → Canvas α → Prop) (x : Draw α β) : Prop where
  ends : ∀ c : Canvas α, Ends x c (fun _ d => R c d) fun _ d => R c d

namespace Draw.Leads

variable {R S : Canvas α → Canvas α → Prop}

theorem mono {x : Draw α β} (h : Leads R x) (hRS : ∀ c d, R c d → S c d) : Leads S x :=
  ⟨fun c => (h.ends c).mono (fun _ d => hRS c d) fun _ d => hRS c d⟩

theorem modify {f : Canvas α → Canvas α} (h : ∀ c : Canvas α, R c (f c)) :
    Leads R (modify f : Draw α PUnit) := ⟨h⟩

theorem modifyGet {f : Canvas α → β × Canvas α} (h : ∀ c : Canvas α, R c (f c).2) :
    Leads R (modifyGet f : Draw α β) := ⟨h⟩

theorem ite {p : Prop} [Decidable p] {x y : Draw α β} (hx : Leads R x) (hy : Leads R y) :
    Leads R (if p then x else y) := by
  split
  · exact hx
  · exact hy

theorem orSkip {x : Draw α β} (hx : Leads R x) : Leads R (orSkip x) :=
  ⟨fun c => ends_orSkip x ((hx.ends c).mono (fun _ _ h => h) fun _ _ h => ⟨fun _ _ => h, h⟩)⟩

variable [IsPreorder (Canvas α) R]

theorem pure (b : β) : Leads R (pure b : Draw α β) := ⟨fun c => refl_of R c⟩

theorem get : Leads R (get : Draw α (Canvas α)) := ⟨fun c => refl_of R c⟩

theorem bind {x : Draw α γ} {f : γ → Draw α β} (hx : Leads R x) (hf : ∀ a, Leads R (f a)) :
    Leads R (x >>= f) := by
  refine ⟨fun c => ?_⟩
  rw [ends_bind]
  refine (hx.ends c).mono (fun a d hd => ?_) fun _ _ h => h
  exact ((hf a).ends d).mono (fun _ _ he => trans_of R hd he) fun _ _ he => trans_of R hd he

end Draw.Leads

namespace Canvas

/-- The contexts are the same. -/
def SameContext (c d : Canvas α) : Prop := d.context = c.context

instance : IsPreorder (Canvas α) SameContext where
  refl _ := rfl
  trans _ _ _ h h' := h'.trans h

/-- The waiting text, the outlines and what has been drawn are the same. -/
structure SparesText (c d : Canvas α) : Prop where
  layout : d.context.layout = c.context.layout
  outlines : d.context.outlines = c.context.outlines
  drawn : d.context.drawn = c.context.drawn

instance : IsPreorder (Canvas α) SparesText where
  refl _ := ⟨rfl, rfl, rfl⟩
  trans _ _ _ h h' :=
    ⟨h'.layout.trans h.layout, h'.outlines.trans h.outlines, h'.drawn.trans h.drawn⟩

/-- Where no text waits, none is added, the outlines are the same, and elements come after
those that are there. -/
def DrawsAfter (c d : Canvas α) : Prop :=
  c.context.layout.recent = [] →
    d.context.layout = c.context.layout ∧ d.context.outlines = c.context.outlines ∧
      ∃ elements, c.Adds elements d

instance : IsPreorder (Canvas α) DrawsAfter where
  refl _ _ := ⟨rfl, rfl, [], .of_eq rfl⟩
  trans _ _ _ h h' hempty := by
    obtain ⟨hlayout, houtlines, elements, hadds⟩ := h hempty
    obtain ⟨hlayout', houtlines', more, hadds'⟩ := h' (hlayout ▸ hempty)
    exact ⟨hlayout'.trans hlayout, houtlines'.trans houtlines, elements ++ more, hadds.trans hadds'⟩

variable {c d : Canvas α}

theorem SameContext.sparesText (h : c.SameContext d) : c.SparesText d :=
  ⟨congrArg _ h, congrArg _ h, congrArg _ h⟩

theorem Adjusts.sparesText (h : c.Adjusts d) : c.SparesText d := ⟨h.layout, h.outlines, h.drawn⟩

theorem SparesText.drawsAfter (h : c.SparesText d) : c.DrawsAfter d :=
  fun _ => ⟨h.layout, h.outlines, [], .of_eq h.drawn⟩

theorem SameContext.drawsAfter (h : c.SameContext d) : c.DrawsAfter d := h.sparesText.drawsAfter

theorem Draws.drawsAfter {calls : List Call} (h : Draws calls c d) : c.DrawsAfter d :=
  fun _ => ⟨congrArg (·.layout) h.context, congrArg (·.outlines) h.context, _, h.adds⟩

end Canvas

section Drawing

open Canvas

variable {env : Environment α} (h : env.Isolates)

include h

theorem sameContext_nested (graphics : GraphicsState α) (resources : SetId)
    (content : ContentStream α) (locked : Bool) :
    Leads SameContext (env.nested graphics resources content locked) :=
  ⟨fun c => (h graphics resources content locked c).mono (fun _ _ hd => hd.context)
    fun _ _ hd => hd.2.context⟩

variable [Scalar α]

/-! ### Paint -/

theorem sameContext_paintValue (paint : Paint α) (transform : Option (Matrix α)) :
    Leads SameContext (paintValue env paint transform) :=
  ⟨fun c => ((quiet_paintValue h ..).ends c).mono (fun _ _ hd => hd.context)
    fun _ _ hd => hd.elim⟩

theorem drawsAfter_fillNode (node : Node) (evenOdd : Bool) (transform : Option (Matrix α)) :
    Leads DrawsAfter (fillNode env node evenOdd transform) :=
  .bind .get fun _ => .bind ((sameContext_paintValue h ..).mono fun _ _ hd => hd.drawsAfter)
    fun _ => .pure _

theorem drawsAfter_strokeNode (node : Node) (transform : Option (Matrix α)) :
    Leads DrawsAfter (strokeNode env node transform) :=
  .bind .get fun _ => .bind ((sameContext_paintValue h ..).mono fun _ _ hd => hd.drawsAfter)
    fun _ => .pure _

/-! ### Shapes, images and forms -/

omit h in
theorem drawsAfter_append (node : Node) (bounds : Option (Rectangle α)) :
    Leads DrawsAfter (modify fun c : Canvas α => c.append env.options node bounds) :=
  .modify fun c => (c.draws_append _ node bounds).drawsAfter

theorem drawsAfter_drawPath (path : Path α) (mode : PaintMode) :
    Leads DrawsAfter (drawPath env path mode) := by
  unfold drawPath
  refine .bind .get fun c => ?_
  dsimp only
  split
  · exact .pure _
  · split
    · exact .pure _
    · have hrest (transform : Option (Matrix α)) (wide narrow : Option (Rectangle α))
          (node : Node) :
          Leads DrawsAfter (if mode.strokes then do
            let node ← strokeNode env node transform
            modify fun c => c.append env.options node wide
          else modify fun c => c.append env.options node narrow) :=
        .ite (.bind (drawsAfter_strokeNode h ..) fun _ => drawsAfter_append ..)
          (drawsAfter_append ..)
      exact .ite (.bind (drawsAfter_fillNode h ..) (hrest _ _ _)) (.bind (.pure _) (hrest _ _ _))

omit h [Scalar α] in
theorem drawsAfter_insertNew (id : String) (node : Node) :
    Leads DrawsAfter
      (modify fun c : Canvas α => { c with definitions := c.definitions.insertNew id node }) :=
  .modify fun _ => SameContext.drawsAfter rfl

theorem drawsAfter_drawImage (i : Image α) : Leads DrawsAfter (i.draw env) := by
  unfold Image.draw
  refine .bind .get fun c => ?_
  dsimp only
  split
  · exact .modify fun c => (c.draws_append ..).drawsAfter
  · refine .bind (drawsAfter_insertNew _ _) fun _ => ?_
    exact .ite (.bind (drawsAfter_insertNew _ _) fun _ => .bind (drawsAfter_fillNode h ..)
      fun _ => drawsAfter_append ..) (.bind (.pure _) fun _ => drawsAfter_append ..)

omit h in
/-- Where no text waits, there is none to draw. -/
theorem drawsAfter_flushText :
    Leads DrawsAfter (modify fun c : Canvas α => c.flushText env.options) := by
  refine .modify fun c hempty => ?_
  rw [show c.flushText env.options = c from if_pos (List.isEmpty_iff.2 hempty)]
  exact ⟨rfl, rfl, [], .of_eq rfl⟩

theorem drawsAfter_drawInlineImage (entries : Keyed (Operand α)) (data : List UInt8) :
    Leads DrawsAfter (drawInlineImage env entries data) := by
  unfold drawInlineImage
  refine .bind drawsAfter_flushText fun _ => .bind .get fun c => ?_
  split
  · exact drawsAfter_drawImage h _
  · exact .modify fun c => (c.draws_append ..).drawsAfter

omit h [Scalar α] in
theorem drawsAfter_place (f : Form α) (nodes : List Node) :
    Leads DrawsAfter (modify fun c : Canvas α => f.place c nodes) := by
  refine .modify fun c => ?_
  unfold Form.place
  dsimp only
  split
  · exact refl_of DrawsAfter c
  · split
    · exact (c.draws_pushAll nodes).drawsAfter
    · exact (c.draws_push _).drawsAfter

theorem drawsAfter_drawForm (f : Form α) : Leads DrawsAfter (f.draw env) := by
  have hcontent (state : GraphicsState α) : Leads DrawsAfter (f.drawFrom env state) := by
    refine ⟨fun c => ?_⟩
    unfold Form.drawFrom
    rw [ends_bind, ends_get]
    dsimp only
    rw [ends_bind, ends_set, ends_bind, ends_tryFinally]
    have hpop {d : Canvas α} (hd : d.context = c.context) :
        c.DrawsAfter { d with activeForms := d.activeForms.drop 1 } := SameContext.drawsAfter hd
    refine ((Leads.orSkip (sameContext_nested h _ _ _ _)).ends
      { c with activeForms := f.id :: c.activeForms }).mono (fun nodes d hd => ?_) fun _ _ hd =>
        hpop hd
    exact ((drawsAfter_place f _).ends { d with activeForms := d.activeForms.drop 1 }).mono
      (fun _ _ he => trans_of DrawsAfter (hpop hd) he) fun _ _ he =>
        trans_of DrawsAfter (hpop hd) he
  unfold Form.draw
  refine .bind .get fun c => .ite (.pure _) ?_
  refine .bind drawsAfter_flushText fun _ => .bind .get fun c => ?_
  exact .bind (.modifyGet fun c => SameContext.drawsAfter (c.context_formRegion ..))
    fun region => hcontent _

theorem sparesText_applyParameters (name : String) :
    Leads SparesText (applyParameters env name) := by
  have hmask (m : SoftMask α) : Leads SameContext (m.define env) := by
    unfold SoftMask.define
    refine .bind .get fun c => .ite (.pure _) ?_
    refine .bind (.modifyGet fun c => c.context_formRegion ..) fun region => .bind .get fun c => ?_
    refine .bind (.orSkip (sameContext_nested h _ _ _ _)) fun nodes? => ?_
    cases nodes? with
    | none => exact .pure none
    | some nodes => exact .bind (.modify fun _ => rfl) fun _ => .pure _
  have hset (mask : Option String) :
      Leads SparesText (modify fun c : Canvas α => c.setSoftMask mask) :=
    .modify fun _ => ⟨rfl, rfl, rfl⟩
  unfold applyParameters
  refine .bind .get fun c => ?_
  split
  · next p _ =>
    unfold GraphicsParameters.apply
    refine .bind (.modify fun c => (c.adjusts_applyPlain p).sparesText) fun _ => ?_
    split
    · exact .pure _
    · exact hset none
    · exact .bind ((hmask _).mono fun _ _ hd => hd.sparesText) hset
  · exact .pure _

end Drawing

/-! ### Drawing the text first -/

namespace Canvas

/-- The canvas with another path and another wish to clip. -/
def withPath (c : Canvas α) (path : Path α) (pendingClip : Option Bool) : Canvas α :=
  c.mapContext fun k => { k with path, pendingClip }

variable [Scalar α] (o : Options α) (c : Canvas α)

theorem flushText_of_isEmpty (h : c.context.layout.isEmpty = true) : c.flushText o = c := if_pos h

theorem flushText_flushText : (c.flushText o).flushText o = c.flushText o :=
  flushText_of_isEmpty o _ (c.isEmpty_flushText o)

variable (path : Path α) (pendingClip : Option Bool)

theorem append_withPath (node : Node) (bounds : Option (Rectangle α)) :
    (c.withPath path pendingClip).append o node bounds =
      (c.append o node bounds).withPath path pendingClip := by
  have hcall : (c.withPath path pendingClip).call o node bounds = c.call o node bounds := rfl
  rw [append_eq, append_eq, hcall]
  rfl

/-- The waiting text is drawn in the same way whatever the path is. -/
theorem flushText_withPath :
    (c.withPath path pendingClip).flushText o = (c.flushText o).withPath path pendingClip := by
  have happend (nodes : List Node) (bounds : Option (Rectangle α)) (c : Canvas α) :
      nodes.foldl (fun c node => c.append o node bounds) (c.withPath path pendingClip) =
        (nodes.foldl (fun c node => c.append o node bounds) c).withPath path pendingClip :=
    List.foldl_hom (withPath · path pendingClip) fun c node =>
      c.append_withPath o path pendingClip node bounds
  have hpart (p : Paragraph α) (bounds : Option (Rectangle α)) (c : Canvas α) (part : TextPart) :
      (c.withPath path pendingClip).drawPart o p bounds part =
        (c.drawPart o p bounds part).withPath path pendingClip :=
    happend _ bounds (c.paragraphNodes o p part).2
  have hpush (nodes : List Node) (c : Canvas α) :
      (c.withPath path pendingClip).pushAll nodes = (c.pushAll nodes).withPath path pendingClip :=
    List.foldl_hom (withPath · path pendingClip) fun _ _ => rfl
  have hparagraph (c : Canvas α) (p : Paragraph α) :
      (c.withPath path pendingClip).drawParagraph o p =
        (c.drawParagraph o p).withPath path pendingClip := by
    unfold drawParagraph
    split
    · exact hpush _ c
    · dsimp only
      rw [List.foldl_hom (withPath · path pendingClip) fun c part => hpart p _ c part]
      rfl
  have hall (ps : List (Paragraph α)) (c : Canvas α) :
      ps.foldl (drawParagraph o) (c.withPath path pendingClip) =
        (ps.foldl (drawParagraph o) c).withPath path pendingClip :=
    List.foldl_hom (withPath · path pendingClip) hparagraph
  unfold flushText
  show (if c.context.layout.isEmpty then _ else _) = _
  split
  · rfl
  · exact hall _ (c.mapContext fun k => { k with layout := .empty })

end Canvas

/-- Drawing leaves text alone, or it is as if the waiting text had been drawn before; other elements
come after that then. -/
def Draw.FlushesFirst [Scalar α] (o : Options α) (x : Draw α β) (c : Canvas α) : Prop :=
  Ends x c (fun _ d => c.SparesText d) (fun _ d => c.SparesText d) ∨
    x c = x (c.flushText o) ∧
      Ends x (c.flushText o) (fun _ d => (c.flushText o).DrawsAfter d)
        fun _ d => (c.flushText o).DrawsAfter d

namespace Draw.FlushesFirst

variable [Scalar α] {o : Options α} {x : Draw α β} {c : Canvas α}

theorem of_spares (h : Leads Canvas.SparesText x) : FlushesFirst o x c := .inl (h.ends c)

theorem of_eq (h : Leads Canvas.DrawsAfter x) (hflush : x c = x (c.flushText o)) :
    FlushesFirst o x c := .inr ⟨hflush, h.ends _⟩

/-- Drawing what is found, where the waiting text makes no difference to what that is. -/
theorem of_found {x : Draw α Unit} {find : Canvas α → Option β} {f : β → Draw α Unit}
    (hx : ∀ c, x c = (find c).elim (pure ()) f c) (hfind : find (c.flushText o) = find c)
    (hf : ∀ b, FlushesFirst o (f b) c) : FlushesFirst o x c := by
  have hdraw := hx c
  have hflushed := hx (c.flushText o)
  rw [hfind] at hflushed
  unfold FlushesFirst
  rw [ends_congr hdraw, ends_congr hflushed, hdraw, hflushed]
  cases find c with
  | none => exact .inl ⟨rfl, rfl, rfl⟩
  | some b => exact hf b

end Draw.FlushesFirst

/-! ### Painting paths -/

/-- The path that is painted. -/
def PaintMode.closed (mode : PaintMode) (path : Path α) : Path α :=
  if mode.closes then if path.isEmpty then path else path ++ [.close] else path

/-- Does painting leave marks? -/
def PaintMode.marks (mode : PaintMode) (path : Path α) : Bool :=
  (mode.strokes || mode.fills) && !(mode.closed path).isEmpty

section Paths

variable [Scalar α] (env : Environment α) (mode : PaintMode)

theorem paintPath_apply (c : Canvas α) :
    paintPath env mode c =
      (if mode.marks c.context.path then (do
        modify (·.flushText env.options)
        drawPath env (mode.closed c.context.path) mode
        clipPending c.context.pendingClip (mode.closed c.context.path))
      else clipPending c.context.pendingClip (mode.closed c.context.path) : Draw α Unit)
        (c.withPath [] none) := by
  obtain ⟨closes, strokes, fills, evenOdd⟩ := mode
  cases closes with
  | true => rfl
  | false => rfl

/-- The waiting text is drawn before the marks. -/
theorem paintPath_of_marks {c : Canvas α} (hmarks : mode.marks c.context.path = true) :
    paintPath env mode c =
      (do
        drawPath env (mode.closed c.context.path) mode
        clipPending c.context.pendingClip (mode.closed c.context.path) : Draw α Unit)
        ((c.flushText env.options).withPath [] none) := by
  rw [paintPath_apply, if_pos hmarks, ← Canvas.flushText_withPath]
  rfl

omit env mode in
theorem sparesText_clipPending (pending : Option Bool) (path : Path α) :
    Leads Canvas.SparesText (clipPending pending path) := by
  cases pending with
  | none => exact .pure _
  | some evenOdd => exact .modify fun _ => ⟨rfl, rfl, rfl⟩

theorem flushesFirst_paintPath (h : env.Isolates) (c : Canvas α) :
    FlushesFirst env.options (paintPath env mode) c := by
  have hclip := sparesText_clipPending c.context.pendingClip (mode.closed c.context.path)
  by_cases hmarks : mode.marks c.context.path = true
  · have hkept := c.redraws_flushText env.options
    have hpath : (c.flushText env.options).context.path = c.context.path := by rw [hkept]
    have hpending : (c.flushText env.options).context.pendingClip = c.context.pendingClip := by
      rw [hkept]
    have hflushed := paintPath_of_marks env mode (c := c.flushText env.options)
      (hpath.symm ▸ hmarks)
    rw [hpath, hpending, c.flushText_flushText] at hflushed
    refine .inr ⟨(paintPath_of_marks env mode hmarks).trans hflushed.symm, ?_⟩
    rw [ends_congr hflushed]
    -- The path makes no difference to what is kept.
    exact (Draw.Leads.bind (drawsAfter_drawPath h (mode.closed c.context.path) mode)
      fun _ => hclip.mono fun _ _ hd => hd.drawsAfter).ends
        ((c.flushText env.options).withPath [] none)
  · refine .inl ?_
    rw [ends_congr ((paintPath_apply env mode c).trans (by rw [if_neg hmarks]))]
    exact (hclip.ends (c.withPath [] none)).mono
      (fun _ _ hd => ⟨hd.layout, hd.outlines, hd.drawn⟩) fun _ _ hd =>
        ⟨hd.layout, hd.outlines, hd.drawn⟩

end Paths

/-! ### Operators -/

/-- Does the operator show strings? -/
def Operator.showsText : Operator → Bool
  | showText | showAdjusted | showOnNextLine | showSpacedOnNextLine => true
  | _ => false

section Operators

variable [Scalar α] {env : Environment α}

/-- What begins by drawing the waiting text does the same when that has been drawn. -/
theorem flushBind_apply (f : PUnit → Draw α β) (c : Canvas α) :
    (modify (·.flushText env.options) >>= f : Draw α β) c =
      (modify (·.flushText env.options) >>= f : Draw α β) (c.flushText env.options) := by
  show f ⟨⟩ (c.flushText env.options) = f ⟨⟩ ((c.flushText env.options).flushText env.options)
  rw [c.flushText_flushText]

theorem Environment.resources_flushText (c : Canvas α) :
    env.resources (c.flushText env.options) = env.resources c := by
  rw [Environment.resources, c.redraws_flushText env.options]
  rfl

theorem flushesFirst_drawShading (name : String) (c : Canvas α) :
    FlushesFirst env.options (drawShading env name) c := by
  have hfind := congrArg (·.shadings.get? name) (env.resources_flushText c)
  have happly (c : Canvas α) : drawShading env name c =
      (((env.resources c).shadings.get? name).elim (pure ())
        fun s => modify fun c => c.paintShading env.toSetting s : Draw α Unit) c := by
    unfold drawShading
    rw [getBind_apply]
    cases (env.resources c).shadings.get? name <;> rfl
  refine .of_found happly hfind fun s =>
    .of_eq (.modify fun c => ?_) (congrArg (EStateM.Result.ok ()) ?_)
  · have hflush : c.DrawsAfter (c.flushText env.options) := drawsAfter_flushText.ends c
    refine trans_of Canvas.DrawsAfter hflush (trans_of Canvas.DrawsAfter
      (Canvas.SameContext.drawsAfter ?_) (Canvas.draws_append ..).drawsAfter)
    exact Canvas.context_gradient ..
  · unfold Canvas.paintShading
    dsimp only
    rw [c.flushText_flushText]

variable (h : env.Isolates)

include h

theorem flushesFirst_drawForm (f : Form α) (c : Canvas α) :
    FlushesFirst env.options (f.draw env) c := by
  have hkept : (c.flushText env.options).activeForms = c.activeForms := by
    rw [c.redraws_flushText env.options]
  by_cases hactive : c.activeForms.contains f.id = true
  · refine .inl ?_
    have hskipped : f.draw env c = (pure () : Draw α Unit) c := by
      show (if c.activeForms.contains f.id then _ else _ : Draw α Unit) c = _
      rw [if_pos hactive]
    rw [ends_congr hskipped]
    exact ⟨rfl, rfl, rfl⟩
  · refine .of_eq (drawsAfter_drawForm h f) ?_
    show (if c.activeForms.contains f.id then _ else _ : Draw α Unit) c =
      (if (c.flushText env.options).activeForms.contains f.id then _ else _ : Draw α Unit)
        (c.flushText env.options)
    rw [hkept, if_neg hactive]
    exact flushBind_apply _ c

theorem flushesFirst_drawXObject (name : String) (c : Canvas α) :
    FlushesFirst env.options (drawXObject env name) c := by
  have hfind := congrArg (·.xobjects.get? name) (env.resources_flushText c)
  have happly (c : Canvas α) : drawXObject env name c =
      ((env.resources c).xobjects.get? name).elim (pure ()) (·.draw env) c := by
    unfold drawXObject
    rw [getBind_apply]
    cases (env.resources c).xobjects.get? name <;> rfl
  refine .of_found happly hfind fun x => ?_
  cases x with
  | form f => exact flushesFirst_drawForm h f c
  | image i =>
    exact .of_eq (.bind drawsAfter_flushText fun _ => drawsAfter_drawImage h i)
      (flushBind_apply _ c)

/-- **An operator that neither shows text nor ends its object leaves text alone, or draws after the
waiting text.** -/
theorem flushesFirst_perform (args : Arguments α) {op : Operator} (hshows : op.showsText = false)
    (hend : op ≠ .endText) (c : Canvas α) :
    FlushesFirst env.options (op.perform env args) c := by
  cases hadjusts : op.adjustment? args with
  | some a =>
    rw [Operator.perform_of_adjustment? hadjusts]
    exact .of_spares (.modify fun c => (a.adjusts env c).sparesText)
  | none =>
    cases op with
    | save => exact .of_spares (.modify fun _ => ⟨rfl, rfl, rfl⟩)
    | restore =>
      refine .of_spares (.modify fun c => ?_)
      unfold Canvas.restore
      split
      · exact refl_of Canvas.SparesText c
      · dsimp only
        split
        · exact ⟨rfl, rfl, rfl⟩
        · exact ⟨rfl, rfl, rfl⟩
    | parameters => exact .of_spares (sparesText_applyParameters h _)
    | paint mode => exact flushesFirst_paintPath env mode h c
    | endText => exact absurd rfl hend
    | showText => cases hshows
    | showAdjusted => cases hshows
    | showOnNextLine => cases hshows
    | showSpacedOnNextLine => cases hshows
    | xobject => exact flushesFirst_drawXObject h _ c
    | shading => exact flushesFirst_drawShading _ c
    | inlineImage =>
      unfold Operator.perform
      dsimp only
      cases (args.operand? 0).bind Operand.entries? with
      | none => exact .of_spares (.pure _)
      | some entries =>
        exact .of_eq (drawsAfter_drawInlineImage h entries _) (flushBind_apply _ c)
    | glyphWidth => exact .of_spares (.pure _)
    | markPoint => exact .of_spares (.pure _)
    | compatibility => exact .of_spares (.pure _)
    | _ => cases hadjusts

end Operators

end PageSvg
