import PageSvg.Proofs.Canvas.Copying

/-!
# Drawing on copies

Content that is drawn on a canvas and on a copy of it comes to the same elements and leaves a copy,
as long as nested content does. A definition that the copy has already is not made again, but it is
on the other page, so that the two sides do not nest the same content; what is nested on one page
alone leaves the copy a copy.
-/

namespace PageSvg

open Draw

variable {α β : Type} [Scalar α]

section Operators

variable {s : Setting α} {name : String} {forms : List String} {n n' : Nesting α} {c d e : Canvas α}

/-- Nested content comes to the same on pages that host each other, however it begins. It may also
be drawn on the first page alone, and while one of the `forms` is being drawn on it, it leaves a
definition of the `name` there. -/
structure NestsFollow (s : Setting α) (name : String) (forms : List String) (n n' : Nesting α) :
    Prop where
  isolates : (Environment.mk s n).Isolates
  isolates' : (Environment.mk s n').Isolates
  follows : ∀ {c d} graphics graphics' resources content locked, c.Hosts s name forms d →
    GraphicsState.CutAlike c.clips d.clips graphics graphics' →
    Follows name (Canvas.Hosts s name forms) (orSkip (n graphics resources content locked))
      (orSkip (n' graphics' resources content locked)) c d
  alone : ∀ {c d} graphics resources content locked, c.Hosts s name forms d →
    ∃ nodes e, n graphics resources content locked c = .ok nodes e ∧
      (e.definitions.contains name = false → e.Hosts s name forms d)
  noted : ∀ {c} graphics resources content locked, (∃ id ∈ c.activeForms, id ∈ forms) →
    ((n graphics resources content locked).last c).definitions.contains name = true

omit [Scalar α] in
theorem isolated_orSkip {env : Environment α} (h : env.Isolates) (graphics : GraphicsState α)
    (resources : SetId) (content : ContentStream α) (locked : Bool) (c : Canvas α) :
    Ends (orSkip (env.nested graphics resources content locked)) c (fun _ d => c.Isolated d)
      fun _ d => c.Isolated d :=
  ends_orSkip _ ((h graphics resources content locked c).mono (fun _ _ hd => hd) fun _ _ hd =>
    ⟨fun _ _ => hd.2, hd.2⟩)

variable (hn : NestsFollow s name forms n n')

include hn

omit [Scalar α] in
theorem follows_skip (h : c.Copies s name forms d) {graphics graphics' : GraphicsState α}
    (hgraphics : graphics.CutAlike c.clips d.clips graphics') (resources : SetId)
    (content : ContentStream α) (locked : Bool) :
    Follows name (Canvas.Copies s name forms) (orSkip (n graphics resources content locked))
      (orSkip (n' graphics' resources content locked)) c d := by
  refine ⟨fun hgood => ?_⟩
  obtain ⟨nodes?, c', d', hrun, hrun', hosts⟩ :=
    hn.follows graphics graphics' resources content locked h.toHosts hgraphics |>.run hgood
  have hc := (ends_of_ok hrun).1 (isolated_orSkip hn.isolates graphics resources content locked c)
  have hd := (ends_of_ok hrun').1 (isolated_orSkip hn.isolates' graphics' resources content locked d)
  exact ⟨nodes?, c', d', hrun, hrun', h.of_hosts hosts hc.context hd.context hc.clips hd.clips⟩

/-! ### Paint -/

omit [Scalar α] hn in
/-- A definition that the copy has already is made on the other page alone. -/
theorem follows_known (h : c.Copies s name forms d) (node : Node) {id : String}
    {x : Draw α (Option String)} (hid : d.definitions.contains id = true) (hc : c.Isolated e)
    (hosts : e.definitions.contains name = false → e.Hosts s name forms d)
    (hx : x c = .ok (some id) { e with definitions := e.definitions.insertNew id node }) :
    Follows name (Canvas.Copies s name forms) x (pure (some id)) c d := by
  refine ⟨fun hgood => ?_⟩
  rw [last_of_ok hx] at hgood
  have hunnamed : e.definitions.contains name = false := Bool.eq_false_iff.2 fun hname =>
    Bool.eq_false_iff.1 hgood.unnamed ((Definitions.contains_insertNew_iff ..).2 (.inr hname))
  have hosts := hosts hunnamed
  refine ⟨some id, _, d, hx, rfl, h.of_hosts ⟨hosts.orderly.insertNew id node, hosts.orderly',
    fun other hother => ?_, fun hname => ?_, hosts.active⟩ hc.context rfl hc.clips (.refl _)⟩
  · rcases (Definitions.contains_insertNew_iff ..).1 hother with rfl | hother
    · exact hid
    · exact hosts.known other hother
  · exact (Definitions.contains_insertNew_iff ..).2 (.inr (hosts.named hname))

omit [Scalar α] hn in
/-- What is drawn alike is kept alike under a name. -/
theorem follows_keepDefinition (id : String) (node : List Node → Node)
    {x x' : Draw α (Option (List Node))}
    (hx : Follows name (Canvas.Copies s name forms) x x' c d) :
    Follows name (Canvas.Copies s name forms) (x >>= keepDefinition id node)
      (x' >>= keepDefinition id node) c d := by
  refine .bind hx (framed_keepDefinition id node) (framed_keepDefinition id node)
    fun nodes? _ _ h => ?_
  cases nodes? with
  | none => exact .pure h
  | some nodes => exact .modifyBind (.pure (h.insertNew _ _ _))

omit [Scalar α] hn in
/-- A definition is found on both pages, on the page of the copy alone, or on neither. -/
theorem follows_unlessKnown (h : c.Copies s name forms d) {id : String}
    {x x' : Draw α (Option String)}
    (hother : d.definitions.contains id = true →
      Follows name (Canvas.Copies s name forms) x (pure (some id)) c d)
    (hboth : Follows name (Canvas.Copies s name forms) x x' c d) :
    Follows name (Canvas.Copies s name forms)
      (if c.definitions.contains id = true then pure (some id) else x)
      (if d.definitions.contains id = true then pure (some id) else x') c d := by
  by_cases hthere : c.definitions.contains id = true
  · rw [if_pos hthere, if_pos (h.known id hthere)]
    exact .pure h
  rw [if_neg hthere]
  by_cases hthere' : d.definitions.contains id = true
  · rw [if_pos hthere']
    exact hother hthere'
  · rw [if_neg hthere']
    exact hboth

theorem follows_defineTiling (h : c.Copies s name forms d) (t : Tiling α) (placement : Matrix α)
    (paint : Paint α) : Follows name (Canvas.Copies s name forms) (t.define ⟨s, n⟩ placement paint)
      (t.define ⟨s, n'⟩ placement paint) c d := by
  unfold Tiling.define
  refine .ite (fun _ => .pure h) fun _ => ?_
  dsimp only
  refine .getBind ?_
  rw [h.resources_eq]
  generalize stableId "pat" (t.id ++ "|" ++ placement.text s.options ++ "|" ++ t.color paint) = id
  generalize t.resources.getD c.context.resources = resources
  have hskip := follows_skip hn h (t.cutAlike_cellState paint) resources t.content t.uncolored
  refine follows_unlessKnown h (fun hthere => ?_) (follows_keepDefinition id _ (.orNothing hskip))
  obtain ⟨nodes, e, hrun, hosts⟩ :=
    hn.alone (t.cellState paint) resources t.content t.uncolored h.toHosts
  have hc := (ends_of_ok hrun).1 (hn.isolates (t.cellState paint) resources t.content t.uncolored c)
  refine follows_known h (t.patternNode s.options (placement.text s.options) nodes) hthere hc
    hosts ?_
  rw [bind_apply, orNothing_apply, orSkip_apply, hrun]
  rfl

theorem follows_patternPaint (h : c.Copies s name forms d) (label : String) (paint : Paint α)
    (transform : Option (Matrix α)) :
    Follows name (Canvas.Copies s name forms) (patternPaint ⟨s, n⟩ label paint transform)
      (patternPaint ⟨s, n'⟩ label paint transform) c d := by
  unfold patternPaint
  refine .getBind ?_
  rw [h.environment n n']
  cases ((Environment.mk s n).resources c).patterns.get? label with
  | none => exact .pure h
  | some pattern =>
    have hplacement : placement? ⟨s, n'⟩ pattern.matrix transform =
      placement? ⟨s, n⟩ pattern.matrix transform := rfl
    dsimp only
    rw [hplacement]
    cases placement? ⟨s, n⟩ pattern.matrix transform with
    | none => exact .pure h
    | some placement =>
      have hdefine : Follows name (Canvas.Copies s name forms)
          (pattern.define ⟨s, n⟩ placement paint) (pattern.define ⟨s, n'⟩ placement paint) c d := by
        cases pattern with
        | tiling t => exact follows_defineTiling hn h t placement paint
        | shading shading m =>
          obtain ⟨hid, hcopy⟩ := h.gradient shading placement
          exact .modifyGet hid hcopy
      refine .bind hdefine (.option (.pure _) fun _ => .pure _) (.option (.pure _) fun _ => .pure _)
        fun id? c' d' hcopy => ?_
      cases id? with
      | none => exact .pure hcopy
      | some id => exact .pure hcopy

theorem follows_paintValue (h : c.Copies s name forms d) (paint : Paint α)
    (transform : Option (Matrix α)) :
    Follows name (Canvas.Copies s name forms) (paintValue ⟨s, n⟩ paint transform)
      (paintValue ⟨s, n'⟩ paint transform) c d := by
  unfold paintValue
  split
  · exact .pure h
  · exact .bindPure (follows_patternPaint hn h ..)

/-! ### Shapes and images -/

theorem follows_fillNode (h : c.Copies s name forms d) (node : Node) (evenOdd : Bool)
    (transform : Option (Matrix α)) :
    Follows name (Canvas.Copies s name forms) (fillNode ⟨s, n⟩ node evenOdd transform)
      (fillNode ⟨s, n'⟩ node evenOdd transform) c d := by
  unfold fillNode
  refine .getBind ?_
  rw [h.graphics_eq]
  exact .bindPure (follows_paintValue hn h ..)

theorem follows_strokeNode (h : c.Copies s name forms d) (node : Node)
    (transform : Option (Matrix α)) :
    Follows name (Canvas.Copies s name forms) (strokeNode ⟨s, n⟩ node transform)
      (strokeNode ⟨s, n'⟩ node transform) c d := by
  unfold strokeNode
  refine .getBind ?_
  rw [h.graphics_eq]
  exact .bindPure (follows_paintValue hn h ..)

omit hn in
theorem follows_append (h : c.Copies s name forms d) (node : Node)
    (bounds : Option (Rectangle α)) :
    Follows name (Canvas.Copies s name forms) (modify fun c => c.append s.options node bounds)
      (modify fun c => c.append s.options node bounds) c d :=
  .modify fun _ => h.append s.options node bounds

theorem follows_drawPath (h : c.Copies s name forms d) (path : Path α) (mode : PaintMode) :
    Follows name (Canvas.Copies s name forms) (drawPath ⟨s, n⟩ path mode)
      (drawPath ⟨s, n'⟩ path mode) c d := by
  unfold drawPath
  refine .getBind ?_
  rw [h.graphics_eq, h.clipRectangle?_eq]
  dsimp only
  cases Rectangle.bounds? (Path.transform c.graphics.ctm path) with
  | none => exact .pure h
  | some bounds =>
    dsimp only
    generalize (if mode.strokes then some (Path.transform c.graphics.ctm path, bounds)
      else cutToClip s.options c.clipRectangle? (Path.transform c.graphics.ctm path) bounds) = visible
    cases visible with
    | none => exact .pure h
    | some visible =>
      have happend (bounds : Option (Rectangle α)) (node : Node) :
          Framed (modify fun c : Canvas α => c.append s.options node bounds) :=
        .modify fun c => c.frame_append ..
      have hframed {n : Nesting α} (hi : (Environment.mk s n).Isolates)
          (transform : Option (Matrix α)) (wide narrow : Option (Rectangle α)) (node : Node) :
          Framed (if mode.strokes then do
              let node ← strokeNode ⟨s, n⟩ node transform
              modify fun c => c.append s.options node wide
            else modify fun c => c.append s.options node narrow) :=
        .ite (.bind (framed_strokeNode hi ..) (happend wide)) (happend narrow node)
      have hrest (transform : Option (Matrix α)) (wide narrow : Option (Rectangle α)) (node : Node)
          (c' d' : Canvas α) (h : c'.Copies s name forms d') :
          Follows name (Canvas.Copies s name forms)
            (if mode.strokes then do
              let node ← strokeNode ⟨s, n⟩ node transform
              modify fun c => c.append s.options node wide
            else modify fun c => c.append s.options node narrow)
            (if mode.strokes then do
              let node ← strokeNode ⟨s, n'⟩ node transform
              modify fun c => c.append s.options node wide
            else modify fun c => c.append s.options node narrow) c' d' :=
        .ite (fun _ => .bind (follows_strokeNode hn h ..) (happend wide) (happend wide)
          fun _ _ _ h => follows_append h ..) fun _ => follows_append h ..
      refine .ite (fun _ => .bind (follows_fillNode hn h ..) (hframed hn.isolates _ _ _)
        (hframed hn.isolates' _ _ _) (hrest _ _ _)) fun _ => ?_
      exact .bind (.pure h) (hframed hn.isolates _ _ _) (hframed hn.isolates' _ _ _) (hrest _ _ _)

theorem follows_drawImage (h : c.Copies s name forms d) (i : Image α) :
    Follows name (Canvas.Copies s name forms) (i.draw ⟨s, n⟩) (i.draw ⟨s, n'⟩) c d := by
  have hplacement : Image.placement d.graphics = Image.placement c.graphics := by
    rw [h.graphics_eq]
    rfl
  have happend (bounds : Option (Rectangle α)) (node : Node) :
      Framed (modify fun c : Canvas α => c.append s.options node bounds) :=
    .modify fun c => c.frame_append ..
  unfold Image.draw
  refine .getBind ?_
  dsimp only
  rw [hplacement]
  cases i.url with
  | error _ => exact .modify fun _ => h.drawBroken
  | ok url =>
    have himage := h.insertNew i.definitionId (i.definition url) (i.definition url)
    refine .modifyBind (.ite (fun _ => .modifyBind ?_) fun _ => ?_)
    · have hstencil := himage.insertNew (stableId "mask" i.definitionId)
        (Image.stencil i.definitionId) (Image.stencil i.definitionId)
      exact .bind (follows_fillNode hn hstencil ..) (happend _) (happend _)
        fun _ _ _ h => follows_append h ..
    · exact .bind (.pure himage) (happend _) (happend _) fun _ _ _ h => follows_append h ..

theorem follows_drawInlineImage (h : c.Copies s name forms d) (entries : Keyed (Operand α))
    (data : List UInt8) :
    Follows name (Canvas.Copies s name forms) (drawInlineImage ⟨s, n⟩ entries data)
      (drawInlineImage ⟨s, n'⟩ entries data) c d := by
  have hflushed := h.flushText
  unfold drawInlineImage
  refine .modifyBind (.getBind ?_)
  rw [hflushed.environment n n']
  cases ((Environment.mk s n).resources (c.flushText s.options)).inlineImage entries data with
  | some i => exact follows_drawImage hn hflushed i
  | none => exact .modify fun _ => hflushed.drawBroken

theorem follows_paintPath (h : c.Copies s name forms d) (mode : PaintMode) :
    Follows name (Canvas.Copies s name forms) (paintPath ⟨s, n⟩ mode) (paintPath ⟨s, n'⟩ mode)
      c d := by
  have hframed (pending : Option Bool) (path : Path α) : Framed (clipPending pending path) := by
    cases pending with
    | none => exact .pure _
    | some evenOdd => exact .modify fun c => c.frame_clipTo _ _
  have hclip (pending : Option Bool) (path : Path α) {c d : Canvas α} (h : c.Copies s name forms d) :
      Follows name (Canvas.Copies s name forms) (clipPending pending path) (clipPending pending path)
        c d := by
    cases pending with
    | none => exact .pure h
    | some evenOdd =>
      have hctm : d.graphics.ctm = c.graphics.ctm := by rw [h.graphics_eq]
      refine .modify ?_
      rw [hctm]
      exact h.clipTo _ evenOdd
  have hrest {c d : Canvas α} (h : c.Copies s name forms d) :
      Follows name (Canvas.Copies s name forms) (do
        let k := (← get).context
        modify (·.mapContext fun k => { k with path := [], pendingClip := none })
        if (mode.strokes || mode.fills) && !k.path.isEmpty then
          modify (·.flushText s.options)
          drawPath ⟨s, n⟩ k.path mode
        clipPending k.pendingClip k.path)
        (do
        let k := (← get).context
        modify (·.mapContext fun k => { k with path := [], pendingClip := none })
        if (mode.strokes || mode.fills) && !k.path.isEmpty then
          modify (·.flushText s.options)
          drawPath ⟨s, n'⟩ k.path mode
        clipPending k.pendingClip k.path) c d := by
    refine .getBind ?_
    dsimp only
    have hpath : d.context.path = c.context.path := congrArg (·.path) h.rest
    have hpending : d.context.pendingClip = c.context.pendingClip :=
      congrArg (·.pendingClip) h.rest
    rw [hpath, hpending]
    have htaken := h.map
      (f := Canvas.mapContext fun k => { k with path := [], pendingClip := none }) fun _ => rfl
    refine .modifyBind (.ite (fun _ => .modifyBind ?_) fun _ => hclip _ _ htaken)
    exact .bind (follows_drawPath hn htaken.flushText ..) (fun _ => hframed _ _)
      (fun _ => hframed _ _) fun _ _ _ h => hclip _ _ h
  unfold paintPath
  refine .ite (fun _ => .modifyBind (hrest ?_)) fun _ => hrest h
  exact h.map (f := Canvas.closePath) fun _ => rfl

/-! ### Forms and masks -/

omit [Scalar α] in
/-- The content of a form is drawn on a copy; meanwhile both canvases know the form to be drawn. -/
theorem follows_drawFrom (h : c.Copies s name forms d) (f : Form α) {state state' : GraphicsState α}
    (hstate : state.CutAlike c.clips d.clips state') :
    Follows name (Canvas.Copies s name forms) (f.drawFrom ⟨s, n⟩ state) (f.drawFrom ⟨s, n'⟩ state')
      c d := by
  obtain ⟨around, haround, hactive⟩ := h.active
  have hlocked : d.context.colorLocked = c.context.colorLocked := congrArg (·.colorLocked) h.rest
  have hreactive {c d : Canvas α} (h : c.Copies s name forms d) {active active' : List String}
      (hactive : ∃ around, (∀ id ∈ around, id ∈ forms) ∧ active' = active ++ around) :
      Canvas.Copies s name forms { c with activeForms := active } { d with activeForms := active' } :=
    h.of_hosts ⟨⟨h.orderly.precision, h.orderly.distinct, h.orderly.named, h.orderly.found,
      h.orderly.running⟩, ⟨h.orderly'.precision, h.orderly'.distinct, h.orderly'.named,
      h.orderly'.found, h.orderly'.running⟩, h.known, h.named, hactive⟩ rfl rfl (.refl _) (.refl _)
  have hpushed : Canvas.Copies s name forms { c with activeForms := f.id :: c.activeForms }
      { d with activeForms := f.id :: d.activeForms } :=
    hreactive h ⟨around, haround, by rw [hactive]; rfl⟩
  have hplace (nodes? : Option (List Node)) : Framed (modify (f.place · (nodes?.getD []))) :=
    .modify fun c => c.frame_place f _
  unfold Form.drawFrom
  refine .getBind ?_
  dsimp only
  rw [h.resources_eq, hlocked]
  refine .setBind ?_
  have hpop {c d : Canvas α} (h : c.Copies s name forms d) : Canvas.Copies s name forms
      { c with activeForms := c.activeForms.drop 1 }
      { d with activeForms := d.activeForms.drop 1 } := by
    obtain ⟨around, haround, hactive⟩ := h.active
    refine hreactive h ⟨around.drop (1 - c.activeForms.length), fun id hid => ?_, ?_⟩
    · exact haround id (List.mem_of_mem_drop hid)
    · rw [hactive, List.drop_append]
  refine .bind (.tryFinally (follows_skip hn hpushed hstate _ _ _)
    (fun _ _ hgood => ⟨hgood.unnamed, hgood.consistent⟩) fun _ _ h => hpop h) hplace hplace
    fun nodes? _ _ h => .modify fun _ => h.place f _

omit [Scalar α] in
/-- A form that is one of the `forms` around is noted when it is drawn. -/
theorem noted_drawFrom (f : Form α) (state : GraphicsState α) (hf : f.id ∈ forms) :
    ((f.drawFrom ⟨s, n⟩ state).last c).definitions.contains name = true := by
  have hplace (nodes? : Option (List Node)) : Framed (modify (f.place · (nodes?.getD []))) :=
    .modify fun c => c.frame_place f _
  unfold Form.drawFrom
  rw [last_getBind]
  dsimp only
  rw [last_setBind]
  refine (Framed.frame_last_bind hplace _).definitions.contains ?_
  rw [last_tryFinally, last_orSkip]
  exact hn.noted _ _ _ _ ⟨f.id, List.mem_cons_self, hf⟩

theorem follows_drawForm (h : c.Copies s name forms d) (f : Form α) :
    Follows name (Canvas.Copies s name forms) (f.draw ⟨s, n⟩) (f.draw ⟨s, n'⟩) c d := by
  have hflushed := h.flushText
  have hactive := h.active
  have hactive' : (c.flushText s.options).activeForms = c.activeForms :=
    (c.frame_flushText s.options).activeForms
  unfold Form.draw
  refine .getBind ?_
  by_cases hdrawn : c.activeForms.contains f.id = true
  · have hdrawn' : d.activeForms.contains f.id = true := by
      obtain ⟨around, _, hactive⟩ := hactive
      rw [hactive]
      exact List.contains_iff_mem.2 (List.mem_append_left _ (List.contains_iff_mem.1 hdrawn))
    rw [if_pos hdrawn, if_pos hdrawn']
    exact .pure h
  rw [if_neg hdrawn]
  by_cases hdrawn' : d.activeForms.contains f.id = true
  · -- The form is drawn around the copy, so that it is one of those that are noted.
    have hf : f.id ∈ forms := by
      obtain ⟨around, haround, hactive⟩ := hactive
      rw [hactive, List.contains_iff_mem] at hdrawn'
      rcases List.mem_append.1 hdrawn' with hdrawn' | hdrawn'
      · exact absurd (List.contains_iff_mem.2 hdrawn') hdrawn
      · exact haround f.id hdrawn'
    refine .of_named ?_
    rw [last_modifyBind, last_getBind]
    dsimp only
    rw [last_modifyGetBind]
    exact noted_drawFrom hn f _ hf
  · rw [if_neg hdrawn']
    refine .modifyBind (.getBind ?_)
    generalize c.flushText s.options = e at *
    generalize d.flushText s.options = e' at *
    have hctm : e'.graphics.ctm = e.graphics.ctm := by rw [hflushed.graphics_eq]
    dsimp only
    rw [hctm]
    refine .modifyGetBind (.of_unspoilt (framed_drawFrom hn.isolates f _)
      (framed_drawFrom hn.isolates' f _) fun hgood => ?_)
    obtain ⟨hosts, hregion⟩ := hflushed.toHosts.formRegion hflushed.clip s.viewport f.bbox
      (f.matrix.multiply e.graphics.ctm) hgood
    have hcopy := hflushed.of_hosts hosts (Canvas.context_formRegion ..)
      (Canvas.context_formRegion ..) (e.frame_formRegion ..).clips (e'.frame_formRegion ..).clips
    refine follows_drawFrom hn hcopy f ⟨?_, hregion⟩
    rw [hflushed.graphics_eq]

theorem follows_defineMask (h : c.Copies s name forms d) (m : SoftMask α) :
    Follows name (Canvas.Copies s name forms) (m.define ⟨s, n⟩) (m.define ⟨s, n'⟩) c d := by
  unfold SoftMask.define
  dsimp only
  refine .getBind ?_
  generalize m.definitionId = id
  generalize m.group.matrix.multiply s.base = ctm
  refine follows_unlessKnown h (fun hthere => ?_) ?_
  · have hframe := c.frame_formRegion s.viewport none m.group.bbox ctm
    have hcontext := c.context_formRegion s.viewport none m.group.bbox ctm
    have hosts := h.toHosts.formRegion_left s.viewport none m.group.bbox ctm
    generalize hr : c.formRegion s.viewport none m.group.bbox ctm = r at *
    obtain ⟨nodes, e, hrun, hosts⟩ := hn.alone { GraphicsState.initial ctm with clip := r.1 }
      (m.group.resources.getD r.2.context.resources) m.group.content false hosts
    have hr2 := (ends_of_ok hrun).1 (hn.isolates _ _ _ _ r.2)
    have hc : c.Isolated e := ⟨hframe.trans hr2.toFrame, hr2.context.trans hcontext⟩
    refine follows_known h (m.maskNode s.options s.viewport nodes) hthere hc hosts ?_
    rw [modifyGetBind_apply, hr, getBind_apply, bind_apply, orSkip_apply, hrun]
    rfl
  · refine .modifyGetBind (.of_unspoilt ?_ ?_ fun hgood => .getBind ?_)
    · exact .bind .get fun _ =>
        .bind (.orSkip (framed_nested hn.isolates _ _ _ _)) (framed_keepDefinition id _)
    · exact .bind .get fun _ =>
        .bind (.orSkip (framed_nested hn.isolates' _ _ _ _)) (framed_keepDefinition id _)
    obtain ⟨hosts, hregion⟩ := h.toHosts.formRegion .whole s.viewport m.group.bbox ctm hgood
    have hcopy := h.of_hosts hosts (Canvas.context_formRegion ..) (Canvas.context_formRegion ..)
      (c.frame_formRegion ..).clips (d.frame_formRegion ..).clips
    rw [hcopy.resources_eq]
    exact follows_keepDefinition id _ (follows_skip hn hcopy ⟨rfl, hregion⟩ _ _ _)

theorem follows_applyParameters (hlibrary : s.library.Coherent (· = ·))
    (h : c.Copies s name forms d) (label : String) :
    Follows name (Canvas.Copies s name forms) (applyParameters ⟨s, n⟩ label)
      (applyParameters ⟨s, n'⟩ label) c d := by
  unfold applyParameters
  refine .getBind ?_
  rw [h.environment n n']
  cases hp : ((Environment.mk s n).resources c).parameters.get? label with
  | none => exact .pure h
  | some p =>
    have hset (mask : Option String) {c d : Canvas α} (h : c.Copies s name forms d) :
        Follows name (Canvas.Copies s name forms) (modify fun c => c.setSoftMask mask)
          (modify fun c => c.setSoftMask mask) c d :=
      .modify fun _ => h.map (f := fun c => c.setSoftMask mask) fun _ => rfl
    have hframed (mask : Option String) : Framed (modify fun c : Canvas α => c.setSoftMask mask) :=
      .modify fun c => c.frame_mapGraphics _
    have hplain := applyPlain_related (R := Canvas.Copies s name forms) n
      (fun a _ h => h.adjust hlibrary a) h p (s.library.mem_of_get? (·.parameters) rfl hp)
    unfold GraphicsParameters.apply
    refine .modifyBind ?_
    cases p.softMask with
    | none => exact .pure hplain
    | some mask? =>
      cases mask? with
      | none => exact hset none hplain
      | some mask =>
        exact .bind (follows_defineMask hn hplain mask) hframed hframed fun mask _ _ h => hset mask h

theorem follows_drawXObject (h : c.Copies s name forms d) (label : String) :
    Follows name (Canvas.Copies s name forms) (drawXObject ⟨s, n⟩ label) (drawXObject ⟨s, n'⟩ label)
      c d := by
  unfold drawXObject
  refine .getBind ?_
  rw [h.environment n n']
  cases ((Environment.mk s n).resources c).xobjects.get? label with
  | none => exact .pure h
  | some x =>
    cases x with
    | image i => exact .modifyBind (follows_drawImage hn h.flushText i)
    | form f => exact follows_drawForm hn h f

omit hn in
theorem follows_drawShading (h : c.Copies s name forms d) (label : String) :
    Follows name (Canvas.Copies s name forms) (drawShading ⟨s, n⟩ label) (drawShading ⟨s, n'⟩ label)
      c d := by
  unfold drawShading
  refine .getBind ?_
  rw [h.environment n n']
  cases ((Environment.mk s n).resources c).shadings.get? label with
  | none => exact .pure h
  | some shading => exact .modify fun _ => h.paintShading shading

/-! ### Text -/

theorem follows_makeStyle (h : c.Copies s name forms d) (g : GraphicsState α) (scale : α) :
    Follows name (Canvas.Copies s name forms) (makeStyle ⟨s, n⟩ g scale) (makeStyle ⟨s, n'⟩ g scale)
      c d := by
  have hfill : Follows name (Canvas.Copies s name forms) (textFill ⟨s, n⟩ g) (textFill ⟨s, n'⟩ g)
      c d := by
    have hvalue {f : PatternPaint α → Draw α (Option (Rgb α × α) × Option String)}
        (hdefinition : ∀ id, Framed (f (.definition id))) (hsolid : ∀ rgb, Framed (f (.solid rgb))) :
        ∀ paint, Framed (f paint) := by
      rintro (id | rgb)
      · exact hdefinition id
      · exact hsolid rgb
    unfold textFill
    refine .ite (fun _ => .pure h) fun _ => ?_
    cases g.fill.pattern with
    | none => exact .pure h
    | some label =>
      refine .bind (follows_patternPaint hn h label g.fill none)
        (hvalue (fun _ => .pure _) fun _ => .pure _) (hvalue (fun _ => .pure _) fun _ => .pure _)
        fun paint _ _ h => ?_
      cases paint with
      | definition id => exact .pure h
      | solid rgb => exact .pure h
  exact .bindPure hfill

theorem follows_currentStyle (h : c.Copies s name forms d) (scale : α) :
    Follows name (Canvas.Copies s name forms) (currentStyle ⟨s, n⟩ scale)
      (currentStyle ⟨s, n'⟩ scale) c d := by
  have hstyle : d.context.textStyle = c.context.textStyle := congrArg (·.textStyle) h.rest
  have hkeep (style : TextStyle α) : Framed (α := α) (do
      modify fun c => c.mapContext fun k => { k with textStyle := some (scale, style) }
      return style) := .bind (.modify fun c => c.frame_mapContext _) fun _ => .pure _
  have hmake : Follows name (Canvas.Copies s name forms) (renewStyle ⟨s, n⟩ c.graphics scale)
      (renewStyle ⟨s, n'⟩ c.graphics scale) c d :=
    .bind (follows_makeStyle hn h c.graphics scale) hkeep hkeep fun style _ _ h =>
      .modifyBind (.pure (h.map (f := Canvas.mapContext fun k =>
        { k with textStyle := some (scale, style) }) fun _ => rfl))
  rw [currentStyle_eq, currentStyle_eq]
  refine .getBind ?_
  rw [hstyle, h.graphics_eq]
  cases c.context.textStyle with
  | none => exact hmake
  | some kept => exact .ite (fun _ => .pure h) fun _ => hmake

theorem follows_showPiece (h : c.Copies s name forms d) (font : Font α) (piece : List UInt8)
    (spaces : Nat) :
    Follows name (Canvas.Copies s name forms) (showPiece ⟨s, n⟩ font piece spaces)
      (showPiece ⟨s, n'⟩ font piece spaces) c d := by
  have hshow (style : TextStyle α) (text : String) (width advance : α) :
      Framed (modify fun c : Canvas α => (c.mapContext fun k =>
        { k with layout := k.layout.addText s.options text width style }).advance advance) :=
    .modify fun c => (c.frame_mapContext _).trans (Canvas.adjusts_mapText _ _).frame
  unfold showPiece
  refine .getBind ?_
  rw [h.graphics_eq]
  dsimp only
  have hplaced := h.map (f := Canvas.mapContext fun k =>
    { k with layout := k.layout.position s.options c.graphics.textPosition }) fun _ => rfl
  refine .setBind (.bind (follows_currentStyle hn hplaced _) (hshow · _ _ _) (hshow · _ _ _)
    fun style _ _ h => .modify fun _ => ?_)
  exact (h.map (f := Canvas.mapContext fun k =>
    { k with layout := k.layout.addText s.options _ _ style }) fun _ => rfl).map
      (f := (Canvas.advance · _)) fun _ => rfl

theorem follows_drawGlyph (h : c.Copies s name forms d) (glyphs : GlyphProcedures α)
    (code : UInt8) :
    Follows name (Canvas.Copies s name forms) (drawGlyph ⟨s, n⟩ glyphs code)
      (drawGlyph ⟨s, n'⟩ glyphs code) c d := by
  let state : GraphicsState α :=
    { c.graphics with ctm := c.graphics.glyphMatrix glyphs.matrix, text := .standard }
  have hstate : state.CutAlike c.clips d.clips { state with clip := d.graphics.clip } :=
    ⟨rfl, h.clip⟩
  unfold drawGlyph
  refine .getBind ?_
  rw [h.graphics_eq, h.resources_eq]
  dsimp only
  cases glyphs.content code with
  | none => exact .pure h
  | some content =>
    exact .ite (fun _ => .pure h) fun _ => .bindPure (follows_skip hn h hstate _ _ _)

theorem follows_drawGlyphs (h : c.Copies s name forms d) (font : Font α)
    (glyphs : GlyphProcedures α) (codes : List UInt8) :
    Follows name (Canvas.Copies s name forms) (drawGlyphs ⟨s, n⟩ font glyphs codes)
      (drawGlyphs ⟨s, n'⟩ font glyphs codes) c d := by
  induction codes generalizing c d with
  | nil => exact .pure h
  | cons code rest ih =>
    have hrest {n : Nesting α} (hi : (Environment.mk s n).Isolates) (nodes : List Node) :
        Framed (do
          let t := (← get).graphics.text
          let advance := (font.decode [code]).width / 1000 * t.fontSize + t.charSpacing
          let advance := if code = 0x20 then advance + t.wordSpacing else advance
          modify (·.advance (advance * GraphicsState.textScale t))
          return nodes ++ (← drawGlyphs ⟨s, n⟩ font glyphs rest)) :=
      .bind .get fun _ => .bind (.modify fun c => (c.adjusts_mapText _).frame) fun _ =>
        .bind (framed_drawGlyphs hi font glyphs rest) fun _ => .pure _
    refine .bind (follows_drawGlyph hn h glyphs code) (hrest hn.isolates) (hrest hn.isolates')
      fun nodes c d h => .getBind ?_
    rw [h.graphics_eq]
    dsimp only
    refine .modifyBind (.bindPure (ih ?_))
    exact h.map (f := (Canvas.advance · _)) fun _ => rfl

theorem follows_showText (h : c.Copies s name forms d) (bytes : List UInt8) :
    Follows name (Canvas.Copies s name forms) (showText ⟨s, n⟩ bytes) (showText ⟨s, n'⟩ bytes)
      c d := by
  have hfont : d.graphics.currentFont = c.graphics.currentFont := by
    rw [h.graphics_eq]
    rfl
  have hspacing : d.graphics.text = c.graphics.text := by rw [h.graphics_eq]
  unfold showText
  refine .getBind ?_
  dsimp only
  rw [hfont, hspacing]
  cases c.graphics.currentFont.procedures with
  | some glyphs =>
    have hadd (nodes : List Node) : Framed (modify fun c : Canvas α =>
        c.mapContext fun k => { k with layout := k.layout.addGlyphs nodes }) :=
      .modify fun c => c.frame_mapContext _
    exact .bind (follows_drawGlyphs hn h ..) hadd hadd fun nodes _ _ h => .modify fun _ =>
      h.map (f := Canvas.mapContext fun k => { k with layout := k.layout.addGlyphs nodes })
        fun _ => rfl
  | none =>
    exact .ite (fun _ => .forM _ h (fun _ => framed_showPiece hn.isolates ..)
      (fun _ => framed_showPiece hn.isolates' ..) fun _ _ _ h => follows_showPiece hn h ..)
      fun _ => follows_showPiece hn h ..

theorem follows_showAdjusted (h : c.Copies s name forms d) (items : List (Operand α)) :
    Follows name (Canvas.Copies s name forms) (showAdjusted ⟨s, n⟩ items)
      (showAdjusted ⟨s, n'⟩ items) c d := by
  induction items generalizing c d with
  | nil => exact .pure h
  | cons item rest ih =>
    unfold showAdjusted
    dsimp only
    split
    · exact .bind (follows_showText hn h _) (fun _ => framed_showAdjusted hn.isolates rest)
        (fun _ => framed_showAdjusted hn.isolates' rest) fun _ _ _ h => ih h
    · split
      · next x _ =>
        exact .modifyBind (ih (h.map (f := (Adjustment.apply ⟨s, n⟩ · (.kern x))) fun page =>
          Adjustment.apply_onto _ rfl _ page))
      · exact ih h

/-! ### Operators -/

theorem follows_perform (hlibrary : s.library.Coherent (· = ·)) (h : c.Copies s name forms d)
    (args : Arguments α) (op : Operator) :
    Follows name (Canvas.Copies s name forms) (op.perform ⟨s, n⟩ args) (op.perform ⟨s, n'⟩ args)
      c d := by
  have hnext := h.map (f := Canvas.nextLine) fun _ => rfl
  cases hadjusts : op.adjustment? args with
  | some a =>
    rw [Operator.perform_of_adjustment? hadjusts, Operator.perform_of_adjustment? hadjusts]
    exact .modify fun _ => h.adjust hlibrary a
  | none =>
    cases op with
    | save => exact .modify fun _ => h.save
    | restore => exact .modify fun _ => h.restore
    | parameters => exact follows_applyParameters hn hlibrary h _
    | paint mode => exact follows_paintPath hn h mode
    | endText => exact .modify fun hgood => h.endText hgood
    | showText => exact follows_showText hn h _
    | showAdjusted => exact follows_showAdjusted hn h _
    | showOnNextLine => exact .modifyBind (follows_showText hn hnext _)
    | showSpacedOnNextLine =>
      have hword := h.map (f := (Canvas.setWordSpacing · (args.number 0))) fun _ => rfl
      have hchar := hword.map (f := (Adjustment.apply ⟨s, n⟩ · (.charSpacing (args.number 1))))
        fun page => Adjustment.apply_onto _ rfl _ page
      exact .modifyBind (follows_showText hn (hchar.map (f := Canvas.nextLine) fun _ => rfl) _)
    | glyphWidth => exact .pure h
    | xobject => exact follows_drawXObject hn h _
    | shading => exact follows_drawShading h _
    | inlineImage =>
      unfold Operator.perform
      dsimp only
      cases (args.operand? 0).bind Operand.entries? with
      | some entries => exact follows_drawInlineImage hn h entries _
      | none => exact .pure h
    | markPoint => exact .pure h
    | compatibility => exact .pure h
    | _ => cases hadjusts

/-! ### Content -/

theorem follows_execute (hlibrary : s.library.Coherent (· = ·)) (h : c.Copies s name forms d)
    (op : Operation α) :
    Follows name (Canvas.Copies s name forms) (execute ⟨s, n⟩ op) (execute ⟨s, n'⟩ op) c d := by
  unfold execute OperatorTable.dispatch
  cases Operator.table.resolve op.operator op.operands with
  | none => exact .pure h
  | some resolved => exact .bindPure (follows_perform hn hlibrary h ..)

omit [Scalar α] hn in
/-- Where there is no request to stop, none is seen. -/
theorem follows_checkCancelled (h : c.Copies s name forms d) :
    Follows name (Canvas.Copies s name forms) checkCancelled checkCancelled c d := by
  have hunseen {c : Canvas α} (hrunning : c.cancellation.onset = none) :
      (checkCancelled : Draw α Unit) c = .ok () c.looked := by
    refine checkCancelled_apply c ?_
    unfold Cancellation.isSeen
    rw [hrunning]
    rfl
  exact ⟨fun _ => ⟨(), c.looked, d.looked, hunseen h.orderly.running, hunseen h.orderly'.running,
    h.looked⟩⟩

theorem follows_executeAll (hlibrary : s.library.Coherent (· = ·)) (h : c.Copies s name forms d)
    (content : ContentStream α) :
    Follows name (Canvas.Copies s name forms) (executeAll ⟨s, n⟩ content)
      (executeAll ⟨s, n'⟩ content) c d := by
  induction content generalizing c d with
  | nil => exact .pure h
  | cons op rest ih =>
    have hrest {n : Nesting α} (hi : (Environment.mk s n).Isolates) : Framed (do
        let _ ← execute ⟨s, n⟩ op
        executeAll ⟨s, n⟩ rest) := .bind (framed_execute hi op) fun _ => framed_executeAll hi rest
    refine .bind (follows_checkCancelled h) (fun _ => hrest hn.isolates)
      (fun _ => hrest hn.isolates') fun _ _ _ h => ?_
    exact .bind (follows_execute hn hlibrary h op) (fun _ => framed_executeAll hn.isolates rest)
      (fun _ => framed_executeAll hn.isolates' rest) fun _ _ _ h => ih h

/-- **Content is drawn on a copy as on the canvas itself**, unless something is spoilt. -/
theorem follows_drawContent (hlibrary : s.library.Coherent (· = ·)) (h : c.Copies s name forms d)
    (content : ContentStream α) :
    Follows name (Canvas.Copies s name forms) (drawContent ⟨s, n⟩ content)
      (drawContent ⟨s, n'⟩ content) c d :=
  have hflush : Framed (modify fun c : Canvas α => c.flushText s.options) :=
    .modify fun c => c.frame_flushText _
  .bind (follows_executeAll hn hlibrary h content) (fun _ => hflush) (fun _ => hflush)
    fun _ _ _ h => .modify fun _ => h.flushText

end Operators

end PageSvg
