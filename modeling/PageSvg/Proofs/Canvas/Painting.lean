import PageSvg.Proofs.Canvas.Adjustment
import PageSvg.Proofs.Canvas.Isolation
import PageSvg.Proofs.Canvas.Matching
import PageSvg.Proofs.Canvas.Recall

/-!
# Painting on related canvases

Colours, patterns and gradients on two canvases that are related: the same paint comes out of them
and they stay related, whatever becomes of the content of tilings. Afterwards the paint can be told
from the definitions that there are, unless there is a request to stop.
-/

namespace PageSvg

open Draw

variable {α β : Type}

/-- How nested content is drawn. -/
abbrev Nesting (α : Type) :=
  GraphicsState α → SetId → ContentStream α → Bool → Draw α (List Node)

/-- The state with paints in other colour spaces, and the same colours. -/
def GraphicsState.inSpaces (g : GraphicsState α) (fill stroke : ColorSpace α) : GraphicsState α :=
  { g with fill := { g.fill with space := fill }, stroke := { g.stroke with space := stroke } }

/-- The states differ in the spaces of their paints alone. -/
def GraphicsState.MarksAlike (g g' : GraphicsState α) : Prop :=
  ∃ fill stroke, g' = g.inSpaces fill stroke

theorem GraphicsState.MarksAlike.refl (g : GraphicsState α) : g.MarksAlike g :=
  ⟨g.fill.space, g.stroke.space, rfl⟩

/-- The canvases agree in all that marks depend on. -/
structure Canvas.Agrees (c d : Canvas α) : Prop where
  graphics : c.graphics.MarksAlike d.graphics
  path : d.context.path = c.context.path
  pendingClip : d.context.pendingClip = c.context.pendingClip
  resources : d.context.resources = c.context.resources
  outlines : d.context.outlines = c.context.outlines
  colorLocked : d.context.colorLocked = c.context.colorLocked
  clips : d.clips = c.clips
  definitions : d.definitions = c.definitions
  activeForms : d.activeForms = c.activeForms

namespace Canvas.Agrees

variable {c d : Canvas α}

theorem clip_eq (h : c.Agrees d) : d.graphics.clip = c.graphics.clip := by
  obtain ⟨_, _, hg⟩ := h.graphics
  rw [hg]
  rfl

theorem ctm_eq (h : c.Agrees d) : d.graphics.ctm = c.graphics.ctm := by
  obtain ⟨_, _, hg⟩ := h.graphics
  rw [hg]
  rfl

theorem text_eq (h : c.Agrees d) : d.graphics.text = c.graphics.text := by
  obtain ⟨_, _, hg⟩ := h.graphics
  rw [hg]
  rfl

theorem clipRectangle?_eq (h : c.Agrees d) : d.clipRectangle? = c.clipRectangle? := by
  rw [clipRectangle?, clipRectangle?, h.clip_eq, h.clips]

end Canvas.Agrees

theorem Canvas.agrees_revise (c : Canvas α) (drawn : List Node × Option Nat) (layout : TextLayout α)
    (style : Option (α × TextStyle α)) (looks : Nat) :
    c.Agrees (c.revise drawn layout style looks) :=
  ⟨.refl _, rfl, rfl, rfl, rfl, rfl, rfl, rfl, rfl⟩

/-- The kinds of definitions other than the cells of tilings. -/
def paintKinds : List String := ["grad", "img", "mask", "smask"]

variable [Scalar α]

/-! ### Spaces

What is painted is a colour, whatever space it was given in. -/

section Spaces

variable (env : Environment α) (g : GraphicsState α) (fill stroke : ColorSpace α)

theorem fillValue_inSpaces (transform : Option (Matrix α)) :
    paintValue env (g.inSpaces fill stroke).fill transform = paintValue env g.fill transform := rfl

theorem strokeValue_inSpaces (transform : Option (Matrix α)) :
    paintValue env (g.inSpaces fill stroke).stroke transform = paintValue env g.stroke transform :=
  rfl

theorem makeStyle_inSpaces (scale : α) :
    makeStyle env (g.inSpaces fill stroke) scale = makeStyle env g scale := rfl

theorem renewStyle_inSpaces (scale : α) :
    renewStyle env (g.inSpaces fill stroke) scale = renewStyle env g scale := rfl

end Spaces

/-! ### Paint -/

/-- What becomes of nested content where drawing goes on without it: where content may still be
nested there are elements, and elsewhere it is refused. -/
structure Canvas.Skipped (deep : Prop) (c c' : Canvas α) (nodes? : Option β) (d d' : Canvas α) :
    Prop where
  drawn : deep → nodes?.isSome = true
  refused : ¬deep → nodes? = none ∧ d = c.looked ∧ d' = c'.looked

/-- What painting asks of a relation between canvases, and of the ways in which nested content is
drawn. Only where content may still be nested do cells come about. -/
structure Painting (s : Setting α) (n n' : Nesting α) (deep : Prop)
    (R : Canvas α → Canvas α → Prop) : Prop where
  agrees : ∀ {c c'}, R c c' → c.Agrees c'
  insert : ∀ {c c' kind}, kind ∈ paintKinds → ∀ (key : String) (node : Node), R c c' →
    R { c with definitions := c.definitions.insertNew (stableId kind key) node }
      { c' with definitions := c'.definitions.insertNew (stableId kind key) node }
  insertCell : deep → ∀ {c c'} (key : String) (node : Node), R c c' →
    R { c with definitions := c.definitions.insertNew (stableId "pat" key) node }
      { c' with definitions := c'.definitions.insertNew (stableId "pat" key) node }
  cell : ∀ {c c'} (t : Tiling α) (paint : Paint α) (resources : SetId), s.HasPattern (.tiling t) →
    R c c' → Matches R (orSkip (n (t.cellState paint) resources t.content t.uncolored))
      (orSkip (n' (t.cellState paint) resources t.content t.uncolored)) c c'
      (Canvas.Skipped deep c c')

section Paint

variable {s : Setting α} {n n' : Nesting α} {deep : Prop} {R : Canvas α → Canvas α → Prop}
  {c c' : Canvas α}

omit [Scalar α] in
theorem Canvas.Agrees.environment (h : c.Agrees c') :
    (Environment.mk s n').resources c' = (Environment.mk s n).resources c :=
  congrArg s.library.set h.resources

section Painted

variable (h : Painting s n n' deep R) (hR : R c c')

include h hR

theorem matches_defineTiling {t : Tiling α} (ht : s.HasPattern (.tiling t)) (placement : Matrix α)
    (paint : Paint α) :
    Matches R (t.define ⟨s, n⟩ placement paint) (t.define ⟨s, n'⟩ placement paint) c c'
      fun id? d _ => d.IsStopped ∨
        d.definitions.Recalls deep (t.definitionId? s.options placement paint) id? := by
  unfold Tiling.define Tiling.definitionId?
  by_cases hsteps : (t.xStep == 0 || t.yStep == 0) = true
  · rw [if_pos hsteps, if_pos hsteps, if_pos hsteps]
    exact .pure hR (.inr (Definitions.recalls_none _ _))
  rw [if_neg hsteps, if_neg hsteps, if_neg hsteps]
  dsimp only
  refine .getBind ?_
  rw [(h.agrees hR).definitions, (h.agrees hR).resources]
  by_cases hthere : c.definitions.contains
      (stableId "pat" (t.id ++ "|" ++ placement.text s.options ++ "|" ++ t.color paint)) = true
  · rw [if_pos hthere, if_pos hthere]
    exact .pure hR (.inr (Definitions.recalls_some hthere))
  rw [if_neg hthere, if_neg hthere]
  refine .bind (.orNothing (h.cell t paint _ ht hR)) fun cell? d d' hd hcell => ?_
  cases cell? with
  | none =>
    refine .pure hd (hcell.symm.imp And.right fun hcell => ?_)
    -- The cell was refused, and there is no definition of it.
    have hdeep : ¬deep := fun hdeep => Bool.false_ne_true (hcell.drawn hdeep)
    obtain ⟨_, rfl, _⟩ := hcell.refused hdeep
    exact ⟨fun _ e => Option.some.inj e ▸ .inr ⟨hdeep, _, rfl⟩,
      (Option.filter_some_neg (Bool.not_eq_true _ ▸ hthere)).symm⟩
  | some cell =>
    rcases hcell with hcell | ⟨hnone, _⟩
    · have hdeep : deep := Classical.byContradiction fun hdeep =>
        nomatch (hcell.refused hdeep).1
      exact .modifyBind (.pure (h.insertCell hdeep _ _ hd) (.inr (Definitions.recalls_some
        ((d.definitions.contains_insertNew_iff _ _ _).2 (.inl rfl)))))
    · cases hnone

omit h hR in
theorem Canvas.recalls_gradient (c : Canvas α) (o : Options α) (shading : Shading α) (m : Matrix α)
    (deep : Prop) : (c.gradient o shading m).2.definitions.Recalls deep
      ((shading.gradient? o m).map fun node => stableId "grad" (shading.id ++ "|" ++ node.describe))
      (c.gradient o shading m).1 := by
  unfold Canvas.gradient
  cases shading.gradient? o m with
  | none => exact Definitions.recalls_none _ _
  | some node =>
    exact Definitions.recalls_some ((c.definitions.contains_insertNew_iff _ _ _).2 (.inl rfl))

theorem gradient_related (shading : Shading α) (m : Matrix α) :
    (c'.gradient s.options shading m).1 = (c.gradient s.options shading m).1 ∧
      R (c.gradient s.options shading m).2 (c'.gradient s.options shading m).2 := by
  unfold Canvas.gradient
  cases shading.gradient? s.options m with
  | none => exact ⟨rfl, hR⟩
  | some node => exact ⟨rfl, h.insert (by simp [paintKinds]) _ _ hR⟩

theorem matches_definePattern {pattern : Pattern α} (hpattern : s.HasPattern pattern)
    (placement : Matrix α) (paint : Paint α) :
    Matches R (pattern.define ⟨s, n⟩ placement paint) (pattern.define ⟨s, n'⟩ placement paint) c c'
      fun id? d _ => d.IsStopped ∨
        d.definitions.Recalls deep (pattern.definitionId? s.options placement paint) id? := by
  cases pattern with
  | tiling t => exact matches_defineTiling h hR hpattern placement paint
  | shading shading m =>
    obtain ⟨hid, hgradient⟩ := gradient_related h hR shading placement
    exact .modifyGet hid.symm hgradient (.inr (c.recalls_gradient s.options shading placement deep))

theorem matches_patternPaint (name : String) (paint : Paint α) (transform : Option (Matrix α)) :
    Matches R (patternPaint ⟨s, n⟩ name paint transform) (patternPaint ⟨s, n'⟩ name paint transform)
      c c' fun value d _ => d.IsStopped ∨
        s.PaintRecalled c.context.resources deep d.definitions name paint transform value := by
  unfold patternPaint
  refine .getBind ?_
  rw [(h.agrees hR).environment (n := n)]
  cases hname : (s.library.set c.context.resources).patterns.get? name with
  | none =>
    rw [show ((Environment.mk s n).resources c).patterns.get? name = none from hname]
    have hid : s.patternId? c.context.resources name paint transform = none := by
      rw [Setting.patternId?, hname]
      rfl
    have hcolor : s.patternColor c.context.resources name paint = paint.rgb := by
      rw [Setting.patternColor, hname]
      rfl
    have hrecalled := Setting.paintRecalled hid hcolor (c.definitions.recalls_none deep)
    exact .pure hR (.inr hrecalled)
  | some pattern =>
    rw [show ((Environment.mk s n).resources c).patterns.get? name = some pattern from hname]
    have hcolor : s.patternColor c.context.resources name paint = pattern.substitute paint := by
      rw [Setting.patternColor, hname]
      rfl
    have hid : s.patternId? c.context.resources name paint transform =
        (placement? s.environment pattern.matrix transform).bind fun placement =>
          pattern.definitionId? s.options placement paint := by
      rw [Setting.patternId?, hname]
      rfl
    have hplacement (n : Nesting α) : placement? ⟨s, n⟩ pattern.matrix transform =
      placement? s.environment pattern.matrix transform := rfl
    dsimp only
    rw [hplacement, hplacement]
    cases hplace : placement? s.environment pattern.matrix transform with
    | none =>
      rw [hplace] at hid
      have hrecalled := Setting.paintRecalled hid hcolor (c.definitions.recalls_none deep)
      exact .pure hR (.inr hrecalled)
    | some placement =>
      rw [hplace] at hid
      have hpattern := Setting.hasPattern_of_get? hname
      refine .bind (matches_definePattern h hR hpattern placement paint)
        fun id? d d' hd hrecalls => ?_
      have hrecalled := hrecalls.imp (fun hd => hd) (Setting.paintRecalled hid hcolor)
      cases id? with
      | none => exact .pure hd hrecalled
      | some id => exact .pure hd hrecalled

theorem matches_paintValue (paint : Paint α) (transform : Option (Matrix α)) :
    Matches R (paintValue ⟨s, n⟩ paint transform) (paintValue ⟨s, n'⟩ paint transform) c c'
      fun _ _ _ => True := by
  unfold paintValue
  split
  · exact .pure hR trivial
  · exact .bind (matches_patternPaint h hR ..) fun _ _ _ hd _ => .pure hd trivial

theorem matches_fillNode (node : Node) (evenOdd : Bool) (transform : Option (Matrix α)) :
    Matches R (fillNode ⟨s, n⟩ node evenOdd transform) (fillNode ⟨s, n'⟩ node evenOdd transform)
      c c' fun _ _ _ => True := by
  obtain ⟨fill, stroke, hg⟩ := (h.agrees hR).graphics
  unfold fillNode
  refine .getBind ?_
  rw [hg]
  dsimp only
  rw [fillValue_inSpaces]
  exact .bind (matches_paintValue h hR ..) fun _ _ _ hd _ => .pure hd trivial

theorem matches_strokeNode (node : Node) (transform : Option (Matrix α)) :
    Matches R (strokeNode ⟨s, n⟩ node transform) (strokeNode ⟨s, n'⟩ node transform)
      c c' fun _ _ _ => True := by
  obtain ⟨fill, stroke, hg⟩ := (h.agrees hR).graphics
  unfold strokeNode
  refine .getBind ?_
  rw [hg]
  dsimp only
  rw [strokeValue_inSpaces]
  exact .bind (matches_paintValue h hR ..) fun _ _ _ hd _ => .pure hd trivial

theorem matches_textFill (g : GraphicsState α) :
    Matches R (textFill ⟨s, n⟩ g) (textFill ⟨s, n'⟩ g) c c' fun fill d _ => d.IsStopped ∨
      (∀ id, s.fillId? c.context.resources g = some id → d.definitions.Settled deep id) ∧
      fill = s.fillOf c.context.resources d.definitions g := by
  unfold textFill Setting.fillId? Setting.fillOf
  cases g.text.mode.fills with
  | false => exact .pure hR (.inr ⟨fun _ e => (by cases e), rfl⟩)
  | true =>
    cases g.fill.pattern with
    | none => exact .pure hR (.inr ⟨fun _ e => (by cases e), rfl⟩)
    | some name =>
      refine .bind (matches_patternPaint h hR name g.fill none) fun value d d' hd hvalue => ?_
      have hrecalled := hvalue.imp (fun hd => hd) fun hvalue =>
        And.intro hvalue.settled hvalue.value
      cases value with
      | definition id =>
        refine .pure hd (hrecalled.imp (fun hd => hd) fun hvalue => ⟨hvalue.1, ?_⟩)
        simp only [← hvalue.2]
        rfl
      | solid rgb =>
        refine .pure hd (hrecalled.imp (fun hd => hd) fun hvalue => ⟨hvalue.1, ?_⟩)
        simp only [← hvalue.2]
        rfl

/-- The same style is made, and it can be told from the definitions afterwards. -/
theorem matches_makeStyle (g : GraphicsState α) (scale : α) :
    Matches R (makeStyle ⟨s, n⟩ g scale) (makeStyle ⟨s, n'⟩ g scale) c c' fun style d _ =>
      d.IsStopped ∨ s.StyleRecalled c.context.resources deep d.definitions g scale style := by
  refine .bind (matches_textFill h hR g) fun fill d d' hd hfill =>
    .pure hd (hfill.imp (fun hd => hd) fun hfill => ⟨hfill.1, ?_⟩)
  rw [Setting.styleOf, ← hfill.2]

/-- The last style is used again on both canvases or on neither. -/
theorem matches_currentStyle (hstyle : c'.context.textStyle = c.context.textStyle)
    (hkeep : ∀ {c c'} textStyle, R c c' → R (c.mapContext fun k => { k with textStyle })
      (c'.mapContext fun k => { k with textStyle })) (scale : α) :
    Matches R (currentStyle ⟨s, n⟩ scale) (currentStyle ⟨s, n'⟩ scale) c c' fun _ _ _ => True := by
  have hnew : Matches R (renewStyle ⟨s, n⟩ c.graphics scale)
      (renewStyle ⟨s, n'⟩ c.graphics scale) c c' fun _ _ _ => True :=
    .bind (matches_makeStyle h hR c.graphics scale) fun style _ _ hd _ =>
      .modifyBind (.pure (hkeep _ hd) trivial)
  obtain ⟨fill, stroke, hg⟩ := (h.agrees hR).graphics
  rw [currentStyle_eq, currentStyle_eq]
  refine .getBind ?_
  rw [hstyle, hg, renewStyle_inSpaces]
  cases c.context.textStyle with
  | none => exact hnew
  | some kept => exact .ite (fun _ => .pure hR trivial) fun _ => hnew

end Painted

omit [Scalar α] in
/-- Nested content leaves the context alone, skipped or not. -/
theorem Environment.Isolates.context_orSkip {n : Nesting α} (h : (Environment.mk s n).Isolates)
    (graphics : GraphicsState α) (resources : SetId) (content : ContentStream α) (locked : Bool)
    (c : Canvas α) :
    Ends (orSkip (n graphics resources content locked)) c (fun _ d => d.context = c.context)
      fun _ d => d.context = c.context :=
  ends_orSkip _ ((h graphics resources content locked c).mono (fun _ _ hd => hd.context)
    fun _ _ hd => ⟨fun _ _ => hd.2.context, hd.2.context⟩)

/-- Painting leaves the context alone if nested content does. -/
theorem Painting.keeping (h : Painting s n n' deep R) (hn : (Environment.mk s n).Isolates)
    (k : Context α) : Painting s n n' deep fun c c' => R c c' ∧ c.context = k where
  agrees hR := h.agrees hR.1
  insert hkind key node hR := ⟨h.insert hkind key node hR.1, hR.2⟩
  insertCell hdeep _ _ key node hR := ⟨h.insertCell hdeep key node hR.1, hR.2⟩
  cell t paint resources ht hR := by
    refine (h.cell t paint resources ht hR.1).inter (S := fun d => d.context = k) ?_
    exact (hn.context_orSkip _ _ _ _ _).mono (fun _ _ hd => hd.trans hR.2) fun _ _ hd =>
      hd.trans hR.2

end Paint

end PageSvg
