import PageSvg.Proofs.Canvas.Emission
import PageSvg.Proofs.Canvas.Outcome

/-!
# Drawing keeps canvases sound

Whatever becomes of an operator, the canvas it leaves is sound, as long as nested content leaves
sound canvases and gives resolved elements; a level of nesting therefore does so if the level below
does. What has become of nested content, and whether its elements are used, does not matter: what it
has added stays sound without them.
-/

namespace PageSvg

variable {α β γ : Type} [Scalar α]

/-- A sound canvas that comes after another one. -/
structure Canvas.Leads (c d : Canvas α) : Prop extends Canvas.Frame c d where
  sound : d.Sound

theorem Canvas.Leads.grows {c d : Canvas α} (h : c.Leads d) : c.pool.Grows d.pool := h.toFrame.grows

namespace Draw

variable {c : Canvas α} {Q : β → Canvas α → Prop}

/-- Drawing leads from the canvas `c` to a sound canvas, and as `Q` says if it ends with a value. -/
def Safe (x : Draw α β) (c : Canvas α) (Q : β → Canvas α → Prop) : Prop :=
  Ends x c (fun b d => c.Leads d ∧ Q b d) fun _ d => c.Leads d

namespace Safe

/-- The canvas has already come some way. -/
theorem after {x : Draw α β} {b : Canvas α} (hb : b.Frame c) (h : Safe x c Q) :
    Ends x c (fun r d => b.Leads d ∧ Q r d) fun _ d => b.Leads d :=
  Ends.mono h (fun _ _ hd => ⟨⟨hb.trans hd.1.toFrame, hd.1.sound⟩, hd.2⟩)
    fun _ _ hd => ⟨hb.trans hd.toFrame, hd.sound⟩

theorem pure {b : β} (h : c.Sound) (hQ : Q b c) : Safe (pure b : Draw α β) c Q :=
  ⟨⟨.refl c, h⟩, hQ⟩

theorem bind {x : Draw α γ} {f : γ → Draw α β} {R : γ → Canvas α → Prop} (hx : Safe x c R)
    (hf : ∀ a d, c.Leads d → R a d → Safe (f a) d Q) : Safe (x >>= f) c Q := by
  rw [Safe, ends_bind]
  exact Ends.mono hx (fun a d hd => (hf a d hd.1 hd.2).after hd.1.toFrame) fun _ _ hd => hd

theorem getBind {f : Canvas α → Draw α β} (h : Safe (f c) c Q) : Safe (get >>= f) c Q := by
  rw [Safe, ends_bind, ends_get]
  exact h

theorem modifyBind {f : Canvas α → Canvas α} {g : PUnit → Draw α β} (hf : c.Frame (f c))
    (hg : Safe (g ⟨⟩) (f c) Q) : Safe (modify f >>= g) c Q := by
  rw [Safe, ends_bind, ends_modify]
  exact hg.after hf

theorem modifyGetBind {f : Canvas α → γ × Canvas α} {g : γ → Draw α β} (hf : c.Frame (f c).2)
    (hg : Safe (g (f c).1) (f c).2 Q) : Safe (modifyGet f >>= g) c Q := by
  rw [Safe, ends_bind, ends_modifyGet]
  exact hg.after hf

/-- An operator that only changes how the next mark is made. -/
theorem adjust {f : Canvas α → Canvas α} (h : c.Sound) (hf : c.Adjusts (f c)) :
    Safe (modify f : Draw α PUnit) c fun _ _ => True := ⟨⟨hf.frame, h.adjusted hf⟩, trivial⟩

theorem modify {f : Canvas α → Canvas α} (hf : c.Frame (f c)) (h : (f c).Sound) :
    Safe (modify f : Draw α PUnit) c fun _ _ => True := ⟨⟨hf, h⟩, trivial⟩

theorem modifyGet {f : Canvas α → β × Canvas α} (hf : c.Frame (f c).2) (h : (f c).2.Sound)
    (hQ : Q (f c).1 (f c).2) : Safe (modifyGet f : Draw α β) c Q := ⟨⟨hf, h⟩, hQ⟩

theorem ite {p : Prop} [Decidable p] {x y : Draw α β} (hx : p → Safe x c Q)
    (hy : ¬p → Safe y c Q) : Safe (if p then x else y) c Q := by
  split
  · next hp => exact hx hp
  · next hp => exact hy hp

theorem orSkip {x : Draw α β} (h : Safe x c Q) :
    Safe (orSkip x) c fun b? d => ∀ b, b? = some b → Q b d := by
  refine ends_orSkip x (Ends.mono h (fun b d hd => ⟨hd.1, fun b' e => ?_⟩) fun fault d hd => ?_)
  · exact Option.some.inj e ▸ hd.2
  · exact ⟨fun _ _ => ⟨hd, fun _ e => nomatch e⟩, hd⟩

theorem orNothing {x : Draw α (Option β)} (h : Safe x c fun b? d => ∀ b, b? = some b → Q b d) :
    Safe (orNothing x) c fun b? d => ∀ b, b? = some b → Q b d :=
  (ends_orNothing x).2 (Ends.mono h (fun _ _ hd => hd) fun _ _ hd => ⟨hd, fun _ e => nomatch e⟩)

theorem forM {items : List γ} {f : γ → Draw α PUnit} (h : c.Sound)
    (hf : ∀ a (d : Canvas α), c.Leads d → Safe (f a) d fun _ _ => True) :
    Safe (items.forM f) c fun _ _ => True := by
  induction items generalizing c with
  | nil => exact pure h trivial
  | cons a rest ih =>
    refine bind (hf a c ⟨.refl c, h⟩) fun _ d hd _ => ih hd.sound fun a e he => ?_
    exact hf a e ⟨hd.toFrame.trans he.toFrame, he.sound⟩

theorem checkCancelled (h : c.Sound) : Safe (checkCancelled : Draw α Unit) c fun _ _ => True := by
  have hlooked : c.Leads { c with cancellation.looks := c.cancellation.looks + 1 } :=
    ⟨⟨rfl, rfl, .refl _, .refl _⟩, ⟨h.pool, h.context⟩⟩
  exact ends_checkCancelled.2 ⟨fun _ => hlooked, fun _ => ⟨hlooked, trivial⟩⟩

end Safe

end Draw

open Draw

/-- Nested content leads to sound canvases and gives resolved elements. -/
def Environment.Sound (env : Environment α) : Prop :=
  ∀ graphics resources content locked (c : Canvas α), c.Sound → graphics.Sound c.pool →
    Safe (env.nested graphics resources content locked) c fun nodes d =>
      ∀ n ∈ nodes, d.pool.Resolves n

omit [Scalar α] in
/-- Nothing is in force at first. -/
theorem GraphicsState.sound_of_none {p : Pool α} {g : GraphicsState α}
    (hclip : p.clips.Valid g.clip) (hmask : g.softMask = none) : g.Sound p :=
  ⟨hclip, fun id hid => by rw [hmask] at hid; cases hid⟩

/-! ### Painted elements -/

section Painted

variable {ids names : String → Prop} {n : Node} (o : Options α) (g : GraphicsState α)

theorem resolved_withFill (hn : n.Resolved ids names) {paint : String}
    (hpaint : Attr.Answered ids paint) (evenOdd : Bool) :
    (g.withFill o evenOdd paint n).Resolved ids names := by
  unfold GraphicsState.withFill
  refine Node.Throughout.setIf (Node.Throughout.setIf (Node.Throughout.setIf hn _ ?_) _ ?_) _ ?_
  · exact Attr.inside_of_referring (by simp [Attr.referring]) hpaint
  · exact Attr.inside_of_inert (by simp [Attr.inert])
  · exact Attr.inside_of_inert (by simp [Attr.inert])

theorem resolved_withJoin (hn : n.Resolved ids names) : (g.withJoin o n).Resolved ids names := by
  unfold GraphicsState.withJoin
  split
  · exact Node.Throughout.setIf hn _ (Attr.inside_of_inert (by simp [Attr.inert]))
  · exact Node.Throughout.set hn (Attr.inside_of_inert (by simp [Attr.inert]))

theorem resolved_withDash (hn : n.Resolved ids names) (scale : α) :
    (g.withDash o scale n).Resolved ids names := by
  unfold GraphicsState.withDash
  split
  · exact hn
  · refine Node.Throughout.setIf (Node.Throughout.set hn ?_) _ ?_
    · exact Attr.inside_of_inert (by simp [Attr.inert])
    · exact Attr.inside_of_inert (by simp [Attr.inert])

theorem resolved_withStroke (hn : n.Resolved ids names) (userSpace : Bool) {paint : String}
    (hpaint : Attr.Answered ids paint) : (g.withStroke o userSpace paint n).Resolved ids names := by
  unfold GraphicsState.withStroke
  dsimp only
  refine resolved_withDash o g (resolved_withJoin o g ?_) _
  refine Node.Throughout.setIf (Node.Throughout.setIf (Node.Throughout.setIf
    (Node.Throughout.set hn ?_) _ ?_) _ ?_) _ ?_
  · exact Attr.inside_of_referring (by simp [Attr.referring]) hpaint
  · exact Attr.inside_of_inert (by simp [Attr.inert])
  · exact Attr.inside_of_inert (by simp [Attr.inert])
  · exact Attr.inside_of_inert (by simp [Attr.inert])

theorem Image.resolved_definition {α : Type} (i : Image α) (url : String) :
    (i.definition url).Resolved ids names := by
  refine Node.Throughout.setIf (Node.resolved_leaf fun attr hattr => ?_) _
    (Attr.inside_of_inert (by simp [Attr.inert]))
  simp only [List.mem_cons, List.not_mem_nil, or_false] at hattr
  rcases hattr with rfl | rfl | rfl | rfl
  · exact Attr.inside_of_inert (by simp [Attr.inert])
  · exact Attr.inside_of_inert (by simp [Attr.inert])
  · exact Attr.inside_of_inert (by simp [Attr.inert])
  · exact Attr.inside_href_of_ne (by simp)

theorem Image.resolved_stencil {id : String} (hid : ids id) :
    (stencil id).Resolved ids names := by
  refine Node.resolved_of_inert (by simp [Attr.inert]) fun n hn => ?_
  rw [List.mem_singleton.1 hn]
  refine Node.resolved_leaf fun attr hattr => ?_
  rw [List.mem_singleton.1 hattr]
  exact Attr.inside_href hid

theorem SoftMask.resolved_backdropNodes (m : SoftMask α) (viewport : Rectangle α) :
    ∀ n ∈ m.backdropNodes o viewport, n.Resolved ids names := by
  intro n hn
  unfold backdropNodes at hn
  split at hn
  · split at hn
    · cases hn
    · rw [List.mem_singleton.1 hn]
      refine Node.resolved_leaf fun attr hattr => ?_
      rcases List.mem_append.1 hattr with hattr | hattr
      · exact Attr.inside_of_inert (inert_rectangle _ _ attr hattr)
      · rw [List.mem_singleton.1 hattr]
        exact Attr.inside_of_referring (by simp [Attr.referring]) (Attr.answered_css _)
  · cases hn

theorem SoftMask.resolved_maskNode (m : SoftMask α) (viewport : Rectangle α)
    {nodes : List Node} (hnodes : ∀ n ∈ nodes, n.Resolved ids names) :
    (m.maskNode o viewport nodes).Resolved ids names := by
  refine Node.resolved_of_inert (fun attr hattr => ?_) fun n hn => ?_
  · rw [List.mem_append, List.mem_cons] at hattr
    rcases hattr with (rfl | hattr) | hattr
    · simp [Attr.inert]
    · exact inert_rectangle _ _ attr hattr
    · split at hattr
      · rw [List.mem_singleton.1 hattr]
        simp [Attr.inert]
      · cases hattr
  · rcases List.mem_append.1 hn with hn | hn
    · exact m.resolved_backdropNodes o viewport n hn
    · exact hnodes n hn

end Painted

theorem safe_append {c : Canvas α} (hc : c.Sound) (o : Options α) {node : Node}
    (hn : c.pool.Resolves node) (bounds : Option (Rectangle α)) :
    Safe (modify fun c => c.append o node bounds) c fun _ _ => True :=
  .modify (c.frame_append ..) (hc.append hn ..)

section Operators

variable {env : Environment α} (h : env.Sound) {c : Canvas α} (hc : c.Sound)

include h hc

/-! ### Paint -/

omit h in
/-- What is kept under a name can be found under it. -/
theorem safe_keepDefinition {id : String} (hid : IsDefinitionId id) {node : List Node → Node}
    {nodes? : Option (List Node)}
    (hnode : ∀ nodes, nodes? = some nodes → c.pool.Resolves (node nodes)) :
    Safe (keepDefinition id node nodes?) c fun id? d =>
      ∀ id, id? = some id → d.definitions.contains id = true := by
  cases nodes? with
  | none => exact .pure hc fun _ e => nomatch e
  | some nodes =>
    exact .modifyBind (c.frame_insertNew _ _) (.pure (hc.insertNew hid (hnode nodes rfl)) fun _ e =>
      Option.some.inj e ▸ Pool.contains_insertNew ..)

theorem safe_defineTiling (t : Tiling α) (placement : Matrix α) (paint : Paint α) :
    Safe (t.define env placement paint) c fun id? d =>
      ∀ id, id? = some id → d.definitions.contains id = true := by
  have hstate : (t.cellState paint).Sound c.pool := by
    unfold Tiling.cellState
    dsimp only
    split
    · exact GraphicsState.sound_of_none (fun _ e => nomatch e) rfl
    · exact GraphicsState.sound_of_none (fun _ e => nomatch e) rfl
  unfold Tiling.define
  refine .ite (fun _ => .pure hc fun _ e => nomatch e) fun _ => ?_
  refine .getBind (.ite (fun hid => ?_) fun _ => ?_)
  · exact .pure hc fun id e => Option.some.inj e ▸ hid
  · refine .bind (.orNothing (.orSkip (h _ _ _ _ c hc hstate))) fun cell? d hd hcell => ?_
    exact safe_keepDefinition hd.sound (isDefinitionId (by simp [definitionKinds]) _)
      fun cell hsome => Node.resolved_of_inert (by simp [Attr.inert]) (hcell cell hsome)

theorem safe_definePattern (placement : Matrix α) (paint : Paint α) (pattern : Pattern α) :
    Safe (pattern.define env placement paint) c fun id? d =>
      ∀ id, id? = some id → d.definitions.contains id = true := by
  cases pattern with
  | tiling t => exact safe_defineTiling h hc t placement paint
  | shading s m =>
    obtain ⟨hsound, hid⟩ := hc.gradient env.options s placement
    exact .modifyGet (c.frame_gradient _ s placement) hsound hid

theorem safe_patternPaint (name : String) (paint : Paint α) (transform : Option (Matrix α)) :
    Safe (patternPaint env name paint transform) c fun paint d =>
      ∀ id, paint = .definition id → d.definitions.contains id = true := by
  unfold patternPaint
  refine .getBind ?_
  split
  · exact .pure hc fun _ e => nomatch e
  · dsimp only
    split
    · exact .pure hc fun _ e => nomatch e
    · refine .bind (safe_definePattern h hc ..) fun id? d hd hid => ?_
      cases id? with
      | none => exact .pure hd.sound fun _ e => nomatch e
      | some id =>
        refine .pure hd.sound fun id' e => hid id' ?_
        cases e
        rfl

theorem safe_paintValue (paint : Paint α) (transform : Option (Matrix α)) :
    Safe (paintValue env paint transform) c fun css d => Attr.Answered d.pool.Available css := by
  unfold paintValue
  split
  · exact .pure hc (Attr.answered_css _)
  · refine .bind (safe_patternPaint h hc ..) fun paint d hd hid => .pure hd.sound ?_
    cases paint with
    | definition id => exact Attr.answered_reference (.inr (hid id rfl))
    | solid rgb => exact Attr.answered_css rgb

/-! ### Shapes and images -/

theorem safe_fillNode {node : Node} (hn : c.pool.Resolves node) (evenOdd : Bool)
    (transform : Option (Matrix α)) :
    Safe (fillNode env node evenOdd transform) c fun node d => d.pool.Resolves node :=
  .getBind (.bind (safe_paintValue h hc ..) fun _ _ hd hpaint =>
    .pure hd.sound (resolved_withFill _ _ (hd.grows.resolves hn) hpaint _))

theorem safe_strokeNode {node : Node} (hn : c.pool.Resolves node) (transform : Option (Matrix α)) :
    Safe (strokeNode env node transform) c fun node d => d.pool.Resolves node :=
  .getBind (.bind (safe_paintValue h hc ..) fun _ _ hd hpaint =>
    .pure hd.sound (resolved_withStroke _ _ (hd.grows.resolves hn) _ hpaint))

/-- The element of a path, in user space if it is drawn under a transform. -/
def pathNode (o : Options α) (path device : Path α) (strokes : Bool) :
    Option (Matrix α) → Node
  | some m =>
    { tag := "path", attrs := [("d", PathData.text o.precision path), ("transform", m.text o)] }
  | none => shapeNode o device strokes

theorem safe_drawPath (path : Path α) (mode : PaintMode) :
    Safe (drawPath env path mode) c fun _ _ => True := by
  unfold drawPath
  refine .getBind ?_
  dsimp only
  split
  · exact .pure hc trivial
  · split
    · exact .pure hc trivial
    · next device bounds _ =>
      have hnode (transform : Option (Matrix α)) :
          c.pool.Resolves (pathNode env.options path device mode.strokes transform) := by
        cases transform with
        | some m => exact Node.resolved_of_inert (by simp [Attr.inert]) (by simp)
        | none => exact resolved_shapeNode ..
      -- The fill and the stroke may each add definitions before the element is appended.
      have hrest (transform : Option (Matrix α)) (wide narrow : Option (Rectangle α)) (node : Node)
          (d : Canvas α) (hd : d.Sound) (hn : d.pool.Resolves node) :
          Safe (if mode.strokes then do
            let node ← strokeNode env node transform
            modify fun c => c.append env.options node wide
          else modify fun c => c.append env.options node narrow) d fun _ _ => True := by
        refine .ite (fun _ => .bind (safe_strokeNode h hd hn _) fun node e he hn => ?_) fun _ => ?_
        · exact safe_append he.sound _ hn _
        · exact safe_append hd _ hn _
      refine .ite (fun _ => .bind (safe_fillNode h hc (hnode _) ..) fun node d hd hn => ?_)
        fun _ => ?_
      · exact hrest _ _ _ node d hd.sound hn
      · refine .bind (R := fun node d => d.pool.Resolves node) (.pure hc ?_) fun node d hd hn => ?_
        · exact Node.Throughout.set (hnode _)
            (Attr.inside_of_referring (by simp [Attr.referring]) Attr.answered_none)
        · exact hrest _ _ _ node d hd.sound hn

theorem safe_drawImage (i : Image α) : Safe (i.draw env) c fun _ _ => True := by
  unfold Image.draw
  refine .getBind ?_
  dsimp only
  split
  · exact .modify (c.frame_drawBroken _) (hc.drawBroken _)
  · next url _ =>
    have himg : IsDefinitionId i.definitionId := isDefinitionId (by simp [definitionKinds]) _
    have hd := hc.insertNew himg (i.resolved_definition url)
    have hcontains : (c.definitions.insertNew i.definitionId (i.definition url)).contains
        i.definitionId = true := Pool.contains_insertNew ..
    refine .modifyBind (c.frame_insertNew _ _) ?_
    refine .ite (fun _ => .modifyBind (Canvas.frame_insertNew _ _ _) ?_) fun _ => ?_
    · have hmaskId : IsDefinitionId (stableId "mask" i.definitionId) :=
        isDefinitionId (by simp [definitionKinds]) _
      -- The stencil refers to the image, and the rectangle to the stencil.
      have hmask := hd.insertNew hmaskId (Image.resolved_stencil (.inr hcontains))
      refine .bind (safe_fillNode h hmask ?_ ..) fun node e he hn => safe_append he.sound _ hn _
      refine Node.resolved_leaf fun attr hattr => ?_
      simp only [List.mem_cons, List.not_mem_nil, or_false] at hattr
      rcases hattr with rfl | rfl | rfl | rfl
      · exact Attr.inside_of_inert (by simp [Attr.inert])
      · exact Attr.inside_of_inert (by simp [Attr.inert])
      · exact Attr.inside_of_referring (by simp [Attr.referring])
          (Attr.answered_reference (.inr (Pool.contains_insertNew ..)))
      · exact Attr.inside_of_inert (by simp [Attr.inert])
    · refine .bind (R := fun node d => d.pool.Resolves node) (.pure hd ?_) fun node e he hn =>
        safe_append he.sound _ hn _
      refine Node.resolved_leaf fun attr hattr => ?_
      simp only [List.mem_cons, List.not_mem_nil, or_false] at hattr
      rcases hattr with rfl | rfl
      · exact Attr.inside_href (.inr hcontains)
      · exact Attr.inside_of_inert (by simp [Attr.inert])

end Operators

end PageSvg
