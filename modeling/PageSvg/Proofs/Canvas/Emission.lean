import PageSvg.Proofs.Canvas.Soundness

/-!
# Putting elements on sound canvases

What is put on a canvas is resolved, and effects, clip regions and rules around it add references
only to what is there; so a sound canvas stays sound.
-/

namespace PageSvg

variable {α : Type}

/-! ### Elements -/

section Elements

variable {ids names : String → Prop} {n : Node}

theorem Node.resolved_wrapped (h : n.Resolved ids names) {name value : String}
    (hattr : Attr.Inside ids names "g" (name, value)) :
    (n.wrapped name value).Resolved ids names := by
  refine .mk (fun attr hmem => ?_) fun c hc => ?_
  · rw [List.mem_singleton.1 hmem]
    exact hattr
  · rw [List.mem_singleton.1 hc]
    exact h

theorem GraphicsState.Sound.withEffects {p : Pool α} {g : GraphicsState α} (hg : g.Sound p)
    (hn : p.Resolves n) : p.Resolves (g.withEffects n) := by
  have hstyle (value : String) (tag : String) :
      Attr.Inside p.Available p.HasRule tag ("style", value) :=
    Attr.inside_of_inert (by simp [Attr.inert])
  have hblended : p.Resolves (n.blended g.blendMode) := by
    unfold Node.blended
    split
    · exact hn
    · dsimp only
      split
      · exact Node.resolved_wrapped hn (hstyle _ _)
      · exact Node.Throughout.set hn (hstyle _ _)
  unfold GraphicsState.withEffects Node.masked
  split
  · exact hblended
  · next mask hmask =>
    exact Node.resolved_wrapped hblended (Attr.inside_of_referring (by simp [Attr.referring])
      (Attr.answered_reference (hg.mask mask hmask)))

variable [Scalar α]

theorem inert_rectangle (o : Options α) (r : Rectangle α) :
    ∀ attr ∈ r.attrs o, Attr.inert attr.1 = true := by
  simp [Rectangle.attrs, Attr.inert]

theorem resolved_shapeNode (o : Options α) (device : Path α) (stroked : Bool) :
    (shapeNode o device stroked).Resolved ids names := by
  unfold shapeNode
  split
  · exact Node.resolved_of_inert (inert_rectangle o _) (by simp)
  · exact Node.resolved_of_inert (by simp [Attr.inert]) (by simp)

theorem resolved_brokenNode (o : Options α) (m : Matrix α) :
    (Image.brokenNode o m).Resolved ids names := by
  refine Node.resolved_leaf fun attr hattr => ?_
  simp only [List.mem_cons, List.not_mem_nil, or_false] at hattr
  rcases hattr with rfl | rfl | rfl | rfl | rfl | rfl | rfl
  · exact Attr.inside_of_inert (by simp [Attr.inert])
  · exact Attr.inside_of_inert (by simp [Attr.inert])
  · exact Attr.inside_of_referring (by simp [Attr.referring]) (Attr.answered_css _)
  · exact Attr.inside_of_referring (by simp [Attr.referring]) (Attr.answered_css _)
  · exact Attr.inside_of_inert (by simp [Attr.inert])
  · exact Attr.inside_class_of_ne (by simp)
  · exact Attr.inside_of_inert (by simp [Attr.inert])

theorem resolved_gradient {o : Options α} {s : Shading α} {m : Matrix α}
    (h : s.gradient? o m = some n) : n.Resolved ids names := by
  unfold Shading.gradient? at h
  obtain ⟨⟨tag, attrs⟩, hgeometry, h⟩ := Option.bind_eq_some_iff.1 h
  have hattrs : ∀ attr ∈ attrs, Attr.inert attr.1 = true := by
    unfold Shading.geometry? at hgeometry
    split at hgeometry
    · cases hgeometry
      simp [Attr.inert]
    · cases hgeometry
      simp [Attr.inert]
    · cases hgeometry
  dsimp only at h
  split at h
  · cases h
  · cases h
    refine Node.resolved_of_inert (fun attr hattr => ?_) fun c hc => ?_
    · rw [List.mem_append, List.mem_append, List.mem_singleton] at hattr
      rcases hattr with (hattr | rfl) | hattr
      · exact hattrs attr hattr
      · simp [Attr.inert]
      · split at hattr
        · cases hattr
        · rw [List.mem_singleton.1 hattr]
          simp [Attr.inert]
    · obtain ⟨stop, _, rfl⟩ := List.mem_map.1 hc
      exact Node.resolved_of_inert (by simp [Attr.inert]) (by simp)

end Elements

namespace Canvas

variable [Scalar α] {c d : Canvas α} {n : Node} {nodes : List Node}

/-! ### Changes of the context -/

theorem Sound.mapContext (h : c.Sound) {f : Context α → Context α}
    (hf : (f c.context).Sound c.pool) : (c.mapContext f).Sound := ⟨h.pool, hf⟩

theorem Sound.adjusted (h : c.Sound) (ha : c.Adjusts d) : d.Sound := by
  have hpool : d.pool = c.pool := by
    rw [Canvas.pool, Canvas.pool, ha.clips, ha.definitions]
  refine ⟨hpool ▸ h.pool, ⟨⟨?_, fun id hid => ?_⟩, fun g hg => ?_, fun x hx => ?_, ?_,
    fun n hn => ?_, fun x hx => ?_⟩⟩
  · rw [hpool, ha.clip]
    exact h.context.graphics.clip
  · rw [hpool]
    exact h.context.graphics.mask id (ha.softMask ▸ hid)
  · rw [hpool]
    exact h.context.saved g (ha.saved ▸ hg)
  · rw [hpool]
    have hcontent : d.context.content = c.context.content := congrArg Prod.fst ha.drawn
    exact h.context.content x (hcontent ▸ hx)
  · rw [hpool, ha.layout]
    exact h.context.layout
  · rw [hpool]
    exact h.context.outlines n (ha.outlines ▸ hn)
  · rw [hpool]
    rcases ha.textStyle with e | e
    · exact h.context.textStyle x (e ▸ hx)
    · rw [e] at hx
      cases hx

theorem Sound.save (h : c.Sound) : c.save.Sound := by
  refine h.mapContext { h.context with saved := fun g hg => ?_ }
  rcases List.mem_cons.1 hg with rfl | hg
  · exact h.context.graphics
  · exact h.context.saved g hg

theorem Sound.restore (h : c.Sound) : c.restore.Sound := by
  have hback {c : Canvas α} (h : c.Sound) {g : GraphicsState α} {rest : List (GraphicsState α)}
      (hsaved : c.context.saved = g :: rest) :
      (c.mapContext fun k => { k with graphics := g, saved := rest }).Sound := by
    have hall := h.context.saved
    rw [hsaved, List.forall_mem_cons] at hall
    exact h.mapContext { h.context with graphics := hall.1, saved := hall.2 }
  unfold Canvas.restore
  split
  · exact h
  · next g rest hsaved =>
    dsimp only
    split
    · exact hback h hsaved
    · exact hback (h.adjusted c.adjusts_dropStyle) hsaved

theorem Sound.setSoftMask (h : c.Sound) {mask : Option String}
    (hmask : ∀ id, mask = some id → c.definitions.contains id = true) :
    (c.setSoftMask mask).Sound := by
  refine ⟨h.pool, { h.context with graphics := ⟨h.context.graphics.clip, fun id hid => ?_⟩ }⟩
  exact .inr (hmask id hid)

/-! ### Drawn elements -/

theorem Sound.push (h : c.Sound) (hn : c.pool.Resolves n) : (c.push n).Sound := by
  exact h.mapContext { h.context with content := List.forall_mem_cons.2 ⟨hn, h.context.content⟩ }

theorem Sound.pushAll (h : c.Sound) (hnodes : ∀ n ∈ nodes, c.pool.Resolves n) :
    (c.pushAll nodes).Sound := by
  unfold Canvas.pushAll
  induction nodes generalizing c with
  | nil => exact h
  | cons n rest ih =>
    exact ih (h.push (hnodes n List.mem_cons_self)) fun m hm =>
      hnodes m (List.mem_cons_of_mem _ hm)

/-- A region that is in use may get an element, in a group that is open or in a new one. -/
theorem Sound.pushClipped (h : c.Sound) {region : Nat}
    (hregion : ∃ r, c.clips.regions[region]? = some r ∧ r.referenced = true)
    (hn : c.pool.Resolves n) :
    (c.mapContext (·.pushClipped region (c.clips.id region) n)).Sound := by
  obtain ⟨r, hr, hreferenced⟩ := hregion
  have hgroup : c.pool.Resolves
      (Node.clipGroup (c.clips.id region) [n]) := by
    refine .mk (fun attr hattr => ?_) (List.forall_mem_singleton.2 hn)
    rw [List.mem_singleton.1 hattr]
    exact Attr.inside_of_referring (by simp [Attr.referring]) (Attr.answered_reference
      (.inl ⟨region, r, hr, hreferenced, (ClipForest.id_of_getElem? hr).symm⟩))
  have hcontent := h.context.content
  refine h.mapContext ?_
  rw [Context.pushClipped_eq]
  rcases Call.open_or_closed c.context.drawn region with ⟨group, rest, hopen, hgroups⟩ | hclosed
  · have hgroups' : c.context.content = group :: rest := hgroups
    rw [Call.addTo_of_open hopen hgroups]
    rw [hgroups', List.forall_mem_cons] at hcontent
    refine { h.context with content := List.forall_mem_cons.2 ⟨?_, hcontent.2⟩ }
    exact .mk hcontent.1.self (List.forall_mem_append.2
      ⟨hcontent.1.children, List.forall_mem_singleton.2 hn⟩)
  · rw [Call.addTo_of_closed hclosed]
    exact { h.context with content := List.forall_mem_cons.2 ⟨hgroup, hcontent⟩ }

theorem Sound.append (h : c.Sound) (hn : c.pool.Resolves n) (o : Options α)
    (bounds : Option (Rectangle α)) : (c.append o n bounds).Sound := by
  have heffects := h.context.graphics.withEffects hn
  unfold Canvas.append
  dsimp only
  split
  · exact h.push heffects
  · next region hclip =>
    split
    · exact h.push heffects
    · -- The region that is now used is marked with those around it.
      have hregion := h.context.graphics.clip region hclip
      have hgrows : c.pool.Grows { c.pool with clips := c.clips.mark region } :=
        ⟨c.clips.grows_mark region, .refl _⟩
      have hmarked : Canvas.Sound { c with clips := c.clips.mark region } :=
        ⟨h.pool.mark hregion, h.context.mono hgrows⟩
      exact hmarked.pushClipped (ClipForest.mark_referenced hregion) (hgrows.resolves heffects)

theorem Sound.drawBroken (h : c.Sound) (o : Options α) : (Image.drawBroken o c).Sound :=
  h.append (resolved_brokenNode o _) o _

/-- The elements drawn on a sound canvas are resolved. -/
theorem Sound.content (h : c.Sound) : ∀ n ∈ c.content, c.pool.Resolves n := by
  exact fun n hn => h.context.content n (List.mem_reverse.1 hn)

theorem Sound.place (h : c.Sound) (f : Form α) (hnodes : ∀ n ∈ nodes, c.pool.Resolves n) :
    (f.place c nodes).Sound := by
  unfold Form.place
  dsimp only
  split
  · exact h
  · split
    · exact h.pushAll hnodes
    · refine h.push (h.context.graphics.withEffects ?_)
      exact Node.Throughout.setIf (Node.resolved_of_inert (by simp) hnodes) _
        (Attr.inside_of_inert (by simp [Attr.inert]))

/-! ### Text -/

theorem Sound.paragraphNodes (h : c.Sound) (o : Options α) {p : Paragraph α}
    (hp : p.Sound c.pool) (part : TextPart) :
    (c.paragraphNodes o p part).2.Sound ∧
      ∀ n ∈ (c.paragraphNodes o p part).1, (c.paragraphNodes o p part).2.pool.Resolves n := by
  obtain ⟨hpool, hnodes⟩ := Layout.sound_nodes o part p h.pool hp
  exact ⟨⟨hpool, h.context.mono (c.frame_paragraphNodes o p part).grows⟩, hnodes⟩

theorem Sound.drawPart (h : c.Sound) (o : Options α) {p : Paragraph α}
    (hp : p.Sound c.pool) (bounds : Option (Rectangle α)) (part : TextPart) :
    (c.drawPart o p bounds part).Sound := by
  have happend {c : Canvas α} {nodes : List Node} (h : c.Sound)
      (hnodes : ∀ n ∈ nodes, c.pool.Resolves n) :
      (nodes.foldl (fun c node => c.append o node bounds) c).Sound := by
    induction nodes generalizing c with
    | nil => exact h
    | cons n rest ih =>
      rw [List.forall_mem_cons] at hnodes
      exact ih (h.append hnodes.1 o bounds) fun m hm =>
        (c.frame_append o n bounds).grows.resolves (hnodes.2 m hm)
  obtain ⟨hsound, hnodes⟩ := h.paragraphNodes o hp part
  exact happend hsound hnodes

theorem Sound.drawParagraph (h : c.Sound) (o : Options α) {p : Paragraph α}
    (hp : p.Sound c.pool) : (c.drawParagraph o p).Sound := by
  have hparts {c : Canvas α} (parts : List TextPart) (h : c.Sound) (hp : p.Sound c.pool) :
      let d := parts.foldl (Canvas.drawPart o p (paragraphBounds p)) c
      d.Sound ∧ p.Sound d.pool := by
    induction parts generalizing c with
    | nil => exact ⟨h, hp⟩
    | cons part rest ih =>
      exact ih (h.drawPart o hp _ part) (hp.mono (c.frame_drawPart o p _ part).grows)
  unfold Canvas.drawParagraph
  split
  · next nodes hglyphs => exact h.pushAll (hp.glyphs nodes hglyphs)
  · obtain ⟨hdrawn, hp⟩ := hparts (.visible :: if o.includeHiddenText then [.invisible] else [])
      h hp
    obtain ⟨hsound, hnodes⟩ := hdrawn.paragraphNodes o hp .clip
    refine hsound.mapContext { hsound.context with outlines := fun n hn => ?_ }
    rcases List.mem_append.1 hn with hn | hn
    · exact hsound.context.outlines n hn
    · exact hnodes n hn

theorem Sound.flushText (h : c.Sound) (o : Options α) : (c.flushText o).Sound := by
  have hparagraphs {c : Canvas α} {paragraphs : List (Paragraph α)} (h : c.Sound)
      (hp : ∀ p ∈ paragraphs, p.Sound c.pool) :
      (paragraphs.foldl (Canvas.drawParagraph o) c).Sound := by
    induction paragraphs generalizing c with
    | nil => exact h
    | cons p rest ih =>
      rw [List.forall_mem_cons] at hp
      exact ih (h.drawParagraph o hp.1) fun q hq =>
        (hp.2 q hq).mono (c.frame_drawParagraph o p).grows
  unfold Canvas.flushText
  split
  · exact h
  · refine hparagraphs (h.mapContext { h.context with layout := .empty }) fun p hp => ?_
    exact h.context.layout p (List.mem_reverse.1 hp)

/-! ### Clip regions -/

/-- Entering a region that is there after a change of the regions. -/
theorem Sound.enter (h : c.Sound) {clips : ClipForest α} {region : Nat}
    (hpool : Pool.Sound { c.pool with clips }) (hgrows : c.clips.Grows clips)
    (hregion : region < clips.regions.size) :
    ({ c with clips }.mapGraphics fun g => { g with clip := some region }).Sound := by
  have hgrows' : c.pool.Grows { c.pool with clips } := ⟨hgrows, .refl _⟩
  have hcontext := h.context.mono hgrows'
  refine ⟨hpool, { hcontext with graphics := ⟨?_, hcontext.graphics.mask⟩ }⟩
  rintro i e
  obtain rfl := Option.some.inj e
  exact hregion

theorem Sound.clipTo (h : c.Sound) (device : Path α) (evenOdd : Bool) :
    (c.clipTo device evenOdd).Sound := by
  obtain ⟨hpool, hregion⟩ := h.pool.insertPath h.context.graphics.clip device evenOdd
  exact h.enter hpool (c.clips.grows_insertPath ..) hregion

theorem Sound.clipToText (h : c.Sound) (hnodes : ∀ n ∈ nodes, c.pool.Resolves n) :
    (c.clipToText nodes).Sound := by
  have hshape : ∀ outlines, ClipShape.text (α := α) nodes = .text outlines →
      ∀ n ∈ outlines, c.pool.Resolves n := by
    rintro outlines ⟨⟩
    exact hnodes
  obtain ⟨hpool, hregion⟩ := h.pool.insert h.context.graphics.clip hshape false
  exact h.enter hpool (c.clips.grows_insertText ..) hregion

theorem Sound.endText (h : c.Sound) (o : Options α) : (c.endText o).Sound := by
  have hflushed := (h.mapContext (f := fun k => { k with inText := false })
    { h.context with }).flushText o
  unfold Canvas.endText
  dsimp only
  split
  · exact hflushed
  · have hempty := hflushed.mapContext (f := fun k => { k with outlines := [] })
      { hflushed.context with outlines := fun _ hn => nomatch hn }
    exact hempty.clipToText hflushed.context.outlines

theorem Sound.formRegion (h : c.Sound) (viewport : Rectangle α) {parent : Option Nat}
    (hparent : c.clips.Valid parent) (box : Option (Rectangle α)) (m : Matrix α) :
    (c.formRegion viewport parent box m).2.Sound ∧
      (c.formRegion viewport parent box m).2.clips.Valid
        (c.formRegion viewport parent box m).1 := by
  unfold Canvas.formRegion
  split
  · exact ⟨h, hparent⟩
  · unfold Canvas.clipToBox
    dsimp only
    split
    · exact ⟨h, hparent⟩
    · next box _ =>
      obtain ⟨hpool, hregion⟩ := h.pool.insertPath hparent (Path.transform m box.toPath) false
      have hframe := c.frame_withClips
        (c.clips.grows_insertPath parent (Path.transform m box.toPath) false)
      refine ⟨⟨hpool, h.context.mono hframe.grows⟩, fun i e => ?_⟩
      obtain rfl := Option.some.inj e
      exact hregion

/-! ### Definitions -/

theorem Sound.insertNew (h : c.Sound) {id : String} (hid : IsDefinitionId id)
    (hn : c.pool.Resolves n) :
    Canvas.Sound { c with definitions := c.definitions.insertNew id n } :=
  ⟨h.pool.insertNew hid hn, h.context.mono (c.frame_insertNew id n).grows⟩

theorem Sound.gradient (h : c.Sound) (o : Options α) (s : Shading α) (m : Matrix α) :
    (c.gradient o s m).2.Sound ∧ ∀ id, (c.gradient o s m).1 = some id →
      (c.gradient o s m).2.definitions.contains id = true := by
  unfold Canvas.gradient
  split
  · exact ⟨h, fun id e => nomatch e⟩
  · next node hnode =>
    refine ⟨h.insertNew (isDefinitionId (by simp [definitionKinds]) _) (resolved_gradient hnode),
      fun id e => ?_⟩
    obtain rfl := Option.some.inj e
    exact Pool.contains_insertNew ..

theorem Sound.paintShading (h : c.Sound) (s : Setting α) (shading : Shading α) :
    (c.paintShading s shading).Sound := by
  have hgradient := (h.flushText s.options).gradient s.options shading
    (c.flushText s.options).graphics.ctm
  unfold Canvas.paintShading
  dsimp only
  revert hgradient
  generalize (c.flushText s.options).gradient s.options shading
    (c.flushText s.options).graphics.ctm = r
  rintro ⟨hsound, hid⟩
  refine hsound.append (Node.Throughout.set (resolved_shapeNode _ _ _)
    (Attr.inside_of_referring (by simp [Attr.referring]) ?_)) _ _
  cases e : r.1 with
  | none => exact Attr.answered_css shading.average
  | some id => exact Attr.answered_reference (.inr (hid id e))

end Canvas

end PageSvg
