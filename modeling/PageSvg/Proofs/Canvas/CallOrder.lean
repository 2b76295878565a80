import PageSvg.Proofs.Canvas.Regions

/-!
# The order of what is drawn

Elements that are drawn one after the other in one clip region share a group, and text is kept until
something else is drawn. In every state that a page passes through, an open group is the last
element and the one of its region. And neither changes the order: take a manner of drawing that
records each call instead of grouping elements, and in which anything at all may happen to the
canvas when an element is put on it while text is still to be drawn. It comes to the same end as the
interpreter, and the content is what the recorded calls come to when those in one region that follow
on each other share a group.
-/

namespace PageSvg

open Draw

variable {α : Type} [Scalar α]

/-! ### The open group -/

/-- While the group of a clip region is open, it is the last element, and
there is something in it. -/
def Context.EndsOpen (clips : ClipForest α) (k : Context α) : Prop :=
  ∀ i, k.openClip = some i →
    ∃ nodes rest, nodes ≠ [] ∧ k.content = Node.clipGroup (clips.id i) nodes :: rest

omit [Scalar α] in
theorem Context.EndsOpen.mono {clips clips' : ClipForest α} {k : Context α} (h : k.EndsOpen clips)
    (hgrows : clips.Grows clips') (hvalid : ∀ i, k.openClip = some i → i < clips.regions.size) :
    k.EndsOpen clips' := by
  intro i hi
  rw [hgrows.id_eq (hvalid i hi)]
  exact h i hi

/-- The regions that contexts hold are those of the forest, and the groups
that are open come last. -/
structure Canvas.OpenLast (precision : Nat) (outer : List (Context α)) (c : Canvas α) : Prop where
  held : c.Held precision outer
  context : c.context.EndsOpen c.clips
  outer : ∀ k ∈ outer, k.EndsOpen c.clips

namespace Canvas.OpenLast

variable {precision : Nat} {outer : List (Context α)} {c d : Canvas α}

theorem outer_mono (h : c.OpenLast precision outer) (hgrows : c.clips.Grows d.clips) :
    ∀ k ∈ outer, k.EndsOpen d.clips := fun k hk =>
  (h.outer k hk).mono hgrows fun i hi => h.held.outer k hk i (.inr (.inr hi))

/-- Nothing changes where nothing is drawn. -/
theorem of_drawn (h : c.OpenLast precision outer) (hheld : d.Held precision outer)
    (hgrows : c.clips.Grows d.clips) (hdrawn : d.context.drawn = c.context.drawn) :
    d.OpenLast precision outer := by
  have hcontext : c.context.EndsOpen d.clips :=
    h.context.mono hgrows fun i hi => h.held.context i (.inr (.inr hi))
  refine ⟨hheld, fun i hi => ?_, h.outer_mono hgrows⟩
  obtain ⟨nodes, rest, hsome, hcontent⟩ := hcontext i ((congrArg Prod.snd hdrawn).symm.trans hi)
  exact ⟨nodes, rest, hsome, (congrArg Prod.fst hdrawn).trans hcontent⟩

/-- An element that is put on the canvas as it is closes the group. -/
theorem push (h : c.OpenLast precision outer) (node : Node) :
    (c.push node).OpenLast precision outer :=
  ⟨h.held.push node, fun _ hi => (nomatch hi), h.outer⟩

/-- An element in a clip region goes into the open group if that is the group of its region;
otherwise it begins one, which is open then. -/
theorem append (h : c.OpenLast precision outer) (o : Options α) (node : Node)
    (bounds : Option (Rectangle α)) : (c.append o node bounds).OpenLast precision outer := by
  have hheld := h.held.append o node bounds
  have hgrows := (c.frame_append o node bounds).clips
  refine ⟨hheld, ?_, h.outer_mono hgrows⟩
  rw [append_eq]
  intro i hi
  obtain hi : (c.call o node bounds).region? = some i := (Call.snd_addTo ..).symm.trans hi
  rcases c.call_cases o node bounds with ⟨hcall, -⟩ | ⟨region, -, -, hcall⟩
  · rw [hcall] at hi
    cases hi
  · rw [hcall] at hi ⊢
    obtain rfl : region = i := Option.some.inj hi
    rcases Call.open_or_closed c.context.drawn region with ⟨group, rest, hopen, hcontent⟩ | hclosed
    · obtain ⟨nodes, before, -, hlast⟩ := h.context region hopen
      have hgroup : group = Node.clipGroup (c.clips.id region) nodes :=
        (List.cons.inj (hcontent.symm.trans hlast)).1
      refine ⟨nodes ++ [c.graphics.withEffects node], rest, by simp, ?_⟩
      show (Call.addTo _ _).1 = Node.clipGroup ((c.clips.mark region).id region) _ :: rest
      rw [Call.addTo_of_open hopen hcontent, hgroup, ClipForest.id_mark]
      rfl
    · refine ⟨[c.graphics.withEffects node], c.context.content, List.cons_ne_nil _ _, ?_⟩
      show (Call.addTo _ _).1 = Node.clipGroup ((c.clips.mark region).id region) _ :: _
      rw [Call.addTo_of_closed hclosed, ClipForest.id_mark]
      rfl

end Canvas.OpenLast

/-- **Each step keeps open groups last.** -/
theorem kept_openLast (s : Setting α) (deep : Prop) (outer : List (Context α)) :
    Kept s deep (Canvas.OpenLast s.options.precision outer) fun clips g => clips.Valid g.clip where
  look h := h.of_drawn ((kept_held s deep outer).look h.held) (.refl _) rfl
  adjust {c n} a ha h := h.of_drawn ((kept_held s deep outer).adjust a ha h.held)
    ((a.adjusts ⟨s, n⟩ c).clips ▸ .refl _) (a.adjusts ⟨s, n⟩ c).drawn
  save h := h.of_drawn ((kept_held s deep outer).save h.held) (.refl _) rfl
  restore {c} h := h.of_drawn h.held.restore (c.frame_restore).clips c.overlooks_restore.drawn_eq
  setSoftMask mask h := h.of_drawn ((kept_held s deep outer).setSoftMask mask h.held) (.refl _) rfl
  layout layout h := h.of_drawn ((kept_held s deep outer).layout layout h.held) (.refl _) rfl
  outlines outlines h :=
    h.of_drawn ((kept_held s deep outer).outlines outlines h.held) (.refl _) rfl
  style hn _ scale h := by
    refine matches_currentStyle hn ⟨rfl, h⟩ rfl ?_ scale
    rintro _ c textStyle ⟨rfl, h⟩
    exact ⟨rfl, h.of_drawn (h.held.of_holds rfl fun _ hi => hi) (.refl _) rfl⟩
  push node h := h.push node
  append node bounds h := h.append s.options node bounds
  classes classes hnamed h :=
    h.of_drawn ((kept_held s deep outer).classes classes hnamed h.held) (.refl _) rfl
  insert hkind key node h :=
    h.of_drawn ((kept_held s deep outer).insert hkind key node h.held) (.refl _) rfl
  insertCell hdeep _ key node h :=
    h.of_drawn ((kept_held s deep outer).insertCell hdeep key node h.held) (.refl _) rfl
  clipTo {_ c} evenOdd hb h :=
    h.of_drawn (h.held.clip h.held.valid_clip (.path _ evenOdd))
      (c.clips.grows_cut _ (.path _ evenOdd)) rfl
  clipToText {c} nodes h :=
    h.of_drawn (h.held.clip h.held.valid_clip (.text nodes)) (c.clips.grows_cut _ (.text nodes)) rfl
  formRegion {c} parent box placement hparent h :=
    h.of_drawn ((kept_held s deep outer).formRegion parent box placement hparent h.held)
      (c.frame_formRegion s.viewport parent box placement).clips
      (congrArg Context.drawn (c.context_formRegion s.viewport parent box placement))
  activeForms forms hforms h :=
    h.of_drawn ((kept_held s deep outer).activeForms forms hforms h.held) (.refl _) rfl
  startCell t paint ht h := (kept_held s deep outer).startCell t paint ht h.held
  startGlyph ctm h := (kept_held s deep outer).startGlyph ctm h.held
  startForm box ctm h := (kept_held s deep outer).startForm box ctm h.held
  startPage parent box ctm hparent h :=
    (kept_held s deep outer).startPage parent box ctm hparent h.held

/-- Nested content begins without an open group, and that of the content around is kept. -/
theorem invariant_openLast (s : Setting α) :
    Invariant s (fun _ outer => Canvas.OpenLast s.options.precision outer)
      fun clips g => clips.Valid g.clip where
  kept level outer := kept_openLast s (level ≠ 0) outer
  enter {level _ _} graphics resources locked h hG :=
    ⟨@(invariant_held s).enter level _ _ graphics resources locked h.held hG,
      fun _ hi => (nomatch hi), List.forall_mem_cons.2 ⟨h.context, h.outer⟩⟩
  leave {level _ _ _ _ _ _} h hframe hd :=
    ⟨@(invariant_held s).leave level _ _ _ _ _ _ h.held hframe hd.held,
      hd.outer _ List.mem_cons_self, fun k hk => hd.outer k (List.mem_cons_of_mem _ hk)⟩

/-- **In every state that is reached an open group comes last.** -/
theorem Converter.openLast_of_reaches {v : Converter α} {p : Page α} {outer : List (Context α)}
    {c : Canvas α} (h : v.Reaches p outer c) : c.OpenLast v.options.precision outer := by
  have hstart : (v.canvas p).OpenLast v.options.precision [] :=
    ⟨v.held_canvas p, fun _ hi => (nomatch hi), fun _ hk => nomatch hk⟩
  obtain ⟨_, hc⟩ := (invariant_openLast _).of_reaches hstart h
  exact hc

/-! ### Drawing call by call -/

namespace Call

/-- An element that stands for a call where calls are recorded. -/
def record : Call → Node
  | raw node => { tag := "", children := [node] }
  | clipped region name node =>
    { tag := "", attrs := List.replicate region ("", ""), children := [node], text := some name }

/-- The call for which an element stands. -/
def recorded (n : Node) : Call :=
  match n.text, n.children with
  | none, [node] => raw node
  | some name, [node] => clipped n.attrs.length name node
  | _, _ => raw n

@[simp] theorem recorded_record (call : Call) : recorded call.record = call := by
  cases call with
  | raw node => rfl
  | clipped region name node => simp only [record, recorded, List.length_replicate]

theorem map_recorded (calls : List Call) : (calls.map record).map recorded = calls := by
  rw [List.map_map]
  exact (List.map_congr_left fun call _ => recorded_record call).trans (List.map_id calls)

/-- The call names a region of the forest. -/
def NamedIn (clips : ClipForest α) : Call → Prop
  | raw _ => True
  | clipped region name _ => region < clips.regions.size ∧ name = clips.id region

omit [Scalar α] in
theorem NamedIn.mono {clips clips' : ClipForest α} {call : Call} (h : call.NamedIn clips)
    (hgrows : clips.Grows clips') : call.NamedIn clips' := by
  cases call with
  | raw node => trivial
  | clipped region name node =>
    exact ⟨h.1.trans_le hgrows.size_le, h.2.trans (hgrows.id_eq h.1).symm⟩

omit [Scalar α] in
theorem NamedIn.namedBy {clips : ClipForest α} {call : Call} (h : call.NamedIn clips) :
    call.NamedBy clips.id := by
  cases call with
  | raw node => trivial
  | clipped region name node => exact h.2

end Call

namespace Canvas

/-- The canvas `c` on which calls are recorded, drawn. -/
def shared (c : Canvas α) : Canvas α :=
  c.mapContext fun k => k.withDrawn (Call.draw (c.content.map Call.recorded) ([], none))

/-- Records a call. -/
def record (c : Canvas α) (call : Call) : Canvas α := c.push call.record

/-- Records the call by which an element is drawn, and marks its region. -/
def recordAppend (o : Options α) (c : Canvas α) (node : Node) (bounds : Option (Rectangle α)) :
    Canvas α :=
  let call := c.call o node bounds
  { c with clips := call.region?.elim c.clips c.clips.mark }.record call

/-- The canvas, if no text is still to be drawn. -/
def unlessPending (stray : Canvas α → Canvas α) (c : Canvas α) : Canvas α :=
  if c.context.layout.isEmpty then c else stray c

omit [Scalar α] in
theorem unlessPending_of_isEmpty {stray : Canvas α → Canvas α} {c : Canvas α}
    (h : c.context.layout.isEmpty = true) : c.unlessPending stray = c := if_pos h

omit [Scalar α] in
theorem content_record (c : Canvas α) (call : Call) :
    (c.record call).content = c.content ++ [call.record] := List.reverse_cons

omit [Scalar α] in
theorem shared_record (c : Canvas α) (call : Call) :
    (c.record call).shared =
      c.shared.mapContext fun k => k.withDrawn (call.addTo k.drawn) := by
  have hdrawn : Call.draw ((c.record call).content.map Call.recorded) ([], none) =
      call.addTo (Call.draw (c.content.map Call.recorded) ([], none)) := by
    rw [content_record, List.map_append, Call.draw_append, List.map_singleton, Call.recorded_record]
    rfl
  unfold shared
  rw [hdrawn]
  rfl

theorem shared_recordAppend (o : Options α) (c : Canvas α) (node : Node)
    (bounds : Option (Rectangle α)) :
    c.shared.append o node bounds = (c.recordAppend o node bounds).shared := by
  have hcall : c.shared.call o node bounds = c.call o node bounds := rfl
  rw [append_eq, hcall]
  exact (shared_record { c with clips := (c.call o node bounds).region?.elim c.clips c.clips.mark }
    (c.call o node bounds)).symm

omit [Scalar α] in
theorem Overlooks.shared {f : Canvas α → Canvas α} {c : Canvas α} (h : Overlooks f c) :
    f c.shared = (f c).shared := by
  have hcontent : (f c).content = c.content := congrArg (·.1.reverse) h.drawn_eq
  obtain ⟨forgets, h⟩ := h
  have hself := h c.context.drawn c.context.layout c.context.textStyle c.cancellation.looks
  have hlayout : (f c).context.layout = c.context.layout := congrArg (·.context.layout) hself
  have hstyle : (f c).context.textStyle = if forgets then none else c.context.textStyle :=
    congrArg (·.context.textStyle) hself
  have hlooks : (f c).cancellation.looks = c.cancellation.looks :=
    congrArg (·.cancellation.looks) hself
  let drawn (content : List Node) := Call.draw (content.map Call.recorded) ([], none)
  refine (h (drawn c.content) _ _ _).trans ?_
  show _ = (f c).revise (drawn (f c).content) (f c).context.layout
    (f c).context.textStyle (f c).cancellation.looks
  rw [hcontent, hlayout, hstyle, hlooks]

end Canvas

/-- Drawing call by call: each call is recorded. Putting an element on a canvas with text that is
still to be drawn goes astray. -/
def Manner.callByCall (stray : Canvas α → Canvas α) : Manner α where
  push c node := (c.unlessPending stray).record (.raw node)
  append o c node bounds := (c.unlessPending stray).recordAppend o node bounds
  content c := c.shared.content
  style := currentStyle
  watch _ := pure ()

/-- On `c'` the calls are recorded by which `c` has been drawn; they name regions of the forest. -/
structure Canvas.DrawnBy (precision : Nat) (outer : List (Context α)) (c c' : Canvas α) : Prop where
  held : c.Held precision outer
  eq : c = c'.shared
  closed : c'.context.openClip = none
  calls : ∃ calls : List Call, c'.content = calls.map Call.record ∧
    ∀ call ∈ calls, call.NamedIn c.clips

namespace Canvas.DrawnBy

variable {precision : Nat} {outer : List (Context α)} {c c' : Canvas α}
  {stray : Canvas α → Canvas α}

theorem map (h : c.DrawnBy precision outer c') {f : Canvas α → Canvas α}
    (hheld : (f c).Held precision outer) (hgrows : c.clips.Grows (f c).clips)
    (hf : f c'.shared = (f c').shared) (hdrawn : (f c').context.drawn = c'.context.drawn) :
    (f c).DrawnBy precision outer (f c') := by
  obtain ⟨calls, hcalls, hnamed⟩ := h.calls
  refine ⟨hheld, ?_, (congrArg Prod.snd hdrawn).trans h.closed, calls, ?_, fun call hcall =>
    (hnamed call hcall).mono hgrows⟩
  · rw [← hf, ← h.eq]
  · exact (congrArg (·.1.reverse) hdrawn).trans hcalls

theorem overlooked (h : c.DrawnBy precision outer c') {f : Canvas α → Canvas α}
    (hf : Overlooks f c') (hheld : (f c).Held precision outer)
    (hgrows : c.clips.Grows (f c).clips) : (f c).DrawnBy precision outer (f c') :=
  h.map hheld hgrows hf.shared hf.drawn_eq

theorem agrees (h : c.DrawnBy precision outer c') : c.Agrees c' := by
  rw [h.eq]
  exact ⟨.refl _, rfl, rfl, rfl, rfl, rfl, rfl, rfl, rfl⟩

theorem layout_eq (h : c.DrawnBy precision outer c') :
    c'.context.layout = c.context.layout := by
  rw [h.eq]
  rfl

theorem recorded (h : c.DrawnBy precision outer c') {d : Canvas α} (hheld : d.Held precision outer)
    (hgrows : c.clips.Grows d.clips) {e : Canvas α} {call : Call} (heq : d = (e.record call).shared)
    (hcontent : e.content = c'.content) (hnamed : call.NamedIn d.clips) :
    d.DrawnBy precision outer (e.record call) := by
  obtain ⟨calls, hcalls, hothers⟩ := h.calls
  refine ⟨hheld, heq, rfl, calls ++ [call], ?_, ?_⟩
  · rw [content_record, hcontent, hcalls, List.map_append, List.map_singleton]
  · exact List.forall_mem_append.2
      ⟨fun x hx => (hothers x hx).mono hgrows, List.forall_mem_singleton.2 hnamed⟩

theorem push (h : c.DrawnBy precision outer c') (hempty : c.context.layout.isEmpty = true)
    (node : Node) :
    (c.push node).DrawnBy precision outer ((Manner.callByCall stray).push c' node) := by
  have hpush : (Manner.callByCall stray).push c' node = c'.record (.raw node) :=
    congrArg (·.record (.raw node)) (unlessPending_of_isEmpty (h.layout_eq ▸ hempty))
  rw [hpush]
  refine h.recorded (h.held.push node) (.refl _) ?_ rfl trivial
  rw [shared_record, ← h.eq]
  rfl

theorem append (h : c.DrawnBy precision outer c') (hempty : c.context.layout.isEmpty = true)
    (o : Options α) (node : Node) (bounds : Option (Rectangle α)) :
    (c.append o node bounds).DrawnBy precision outer
      ((Manner.callByCall stray).append o c' node bounds) := by
  have happend : (Manner.callByCall stray).append o c' node bounds =
      c'.recordAppend o node bounds :=
    congrArg (·.recordAppend o node bounds) (unlessPending_of_isEmpty (h.layout_eq ▸ hempty))
  have heq : c.append o node bounds = (c'.recordAppend o node bounds).shared := by
    rw [← shared_recordAppend, ← h.eq]
  have hcall : c'.call o node bounds = c.call o node bounds := by
    rw [h.eq]
    rfl
  rw [happend]
  refine h.recorded (h.held.append o node bounds) (c.frame_append o node bounds).clips heq rfl ?_
  rw [hcall, append_eq]
  rcases c.call_cases o node bounds with ⟨hraw, -⟩ | ⟨region, hclip, -, hclipped⟩
  · rw [hraw]
    trivial
  · rw [hclipped]
    exact ⟨(h.held.valid_clip region hclip).trans_le (c.clips.grows_mark region).size_le,
      (c.clips.id_mark region).symm⟩

end Canvas.DrawnBy

/-- Each step is recorded. -/
theorem steps_drawnBy (s : Setting α) (stray : Canvas α → Canvas α) (deep : Prop)
    (outer : List (Context α)) :
    Steps s (Manner.callByCall stray) outer deep (Canvas.DrawnBy s.options.precision outer)
      fun clips g g' => g' = g ∧ clips.Valid g.clip where
  agrees h := h.agrees
  look {c c'} h := by
    refine ⟨?_, h.map (f := Canvas.looked) (h.held.of_holds rfl fun _ hi => hi) (.refl _) rfl rfl⟩
    rw [h.eq]
    rfl
  watch h := .pure h trivial
  adjust {c c' n} a ha h := h.overlooked (a.overlooks c' ⟨s, n⟩)
    ((kept_held s deep outer).adjust a ha h.held) ((a.adjusts ⟨s, n⟩ c).clips ▸ .refl _)
  save h :=
    h.overlooked ⟨false, fun _ _ _ _ => rfl⟩ ((kept_held s deep outer).save h.held) (.refl _)
  restore {c c'} h := h.overlooked c'.overlooks_restore h.held.restore c.frame_restore.clips
  setSoftMask mask h := h.overlooked (Canvas.overlooks_mapGraphics _ _)
    (h.held.of_holds rfl fun _ hi => hi) (.refl _)
  text h := by
    rw [h.layout_eq]
    exact List.forall₂_same.2 fun p _ => .refl _ p
  clearText h :=
    h.map (f := Canvas.clearText) (h.held.of_holds rfl fun _ hi => hi) (.refl _) rfl rfl
  outlines outlines h := h.overlooked (f := fun c => c.mapContext fun k => { k with outlines })
    ⟨false, fun _ _ _ _ => rfl⟩ (h.held.of_holds rfl fun _ hi => hi) (.refl _)
  classes classes _ h := h.overlooked
    (f := fun c => { c with definitions := { c.definitions with classes } })
    ⟨false, fun _ _ _ _ => rfl⟩ (h.held.of_holds rfl fun _ hi => hi) (.refl _)
  addGlyphs nodes h :=
    h.map (f := fun c => c.mapContext fun k => { k with layout := k.layout.addGlyphs nodes })
      (h.held.of_holds rfl fun _ hi => hi) (.refl _) rfl rfl
  showPiece hn _ font piece spaces h := hn.showPiece rfl (fun h => by rw [h.eq]; rfl)
    (fun textStyle h => h.map (f := fun c => c.mapContext fun k => { k with textStyle })
      (h.held.of_holds rfl fun _ hi => hi) (.refl _) rfl rfl)
    (fun layout h =>
      h.map (f := fun c => c.mapContext fun k => { k with layout := layout k.layout })
        (h.held.of_holds rfl fun _ hi => hi) (.refl _) rfl rfl)
    (fun x h => h.map (f := fun c => c.advance x) (h.held.of_holds rfl fun _ hi => hi) (.refl _) rfl
      rfl) font piece spaces h
  push node hempty h := h.push hempty node
  append node bounds hempty h := h.append hempty s.options node bounds
  insert {_ _ kind} _ key node h := h.overlooked
    (f := fun c => { c with definitions := c.definitions.insertNew (stableId kind key) node })
    ⟨false, fun _ _ _ _ => rfl⟩ (h.held.of_holds rfl fun _ hi => hi) (.refl _)
  insertCell _ _ _ key node h := h.overlooked
    (f := fun c => { c with definitions := c.definitions.insertNew (stableId "pat" key) node })
    ⟨false, fun _ _ _ _ => rfl⟩ (h.held.of_holds rfl fun _ hi => hi) (.refl _)
  clipTo {_ _ c _} evenOdd _ h :=
    h.overlooked (f := fun c => c.clipTo _ evenOdd) ⟨false, fun _ _ _ _ => rfl⟩
      (h.held.clip h.held.valid_clip (.path _ evenOdd)) (c.clips.grows_cut _ (.path _ evenOdd))
  clipToText {c _} nodes h :=
    h.overlooked (f := fun c => c.clipToText nodes) ⟨false, fun _ _ _ _ => rfl⟩
      (h.held.clip h.held.valid_clip (.text nodes)) (c.clips.grows_cut _ (.text nodes))
  formRegion {c c'} parent box placement hparent h :=
    h.overlooked (c'.overlooks_formRegion s.viewport parent box placement)
      ((kept_held s deep outer).formRegion parent box placement hparent h.held)
      (c.frame_formRegion s.viewport parent box placement).clips
  activeForms forms _ h :=
    h.overlooked (f := fun c => { c with activeForms := forms }) ⟨false, fun _ _ _ _ => rfl⟩
      (h.held.of_holds rfl fun _ hi => hi) (.refl _)
  startCell t paint ht h := ⟨rfl, (kept_held s deep outer).startCell t paint ht h.held⟩
  startGlyph ctm h := by
    refine ⟨?_, (kept_held s deep outer).startGlyph ctm h.held⟩
    rw [h.eq]
    rfl
  startForm box ctm h := by
    refine ⟨?_, (kept_held s deep outer).startForm box ctm h.held⟩
    rw [h.eq]
    rfl
  startPage parent box ctm hparent h :=
    ⟨rfl, (kept_held s deep outer).startPage parent box ctm hparent h.held⟩

/-- Pages and nested content, on every level, are recorded. -/
theorem simulation_drawnBy (s : Setting α) (stray : Canvas α → Canvas α) :
    Simulation s (Manner.callByCall stray)
      (fun _ outer => Canvas.DrawnBy s.options.precision outer)
      fun clips g g' => g' = g ∧ clips.Valid g.clip where
  steps level outer := steps_drawnBy s stray (level ≠ 0) outer
  content h := by
    rw [h.eq]
    rfl
  enter {level outer c c'} graphics graphics' resources locked h hg := by
    obtain ⟨rfl, hvalid⟩ := hg
    have hentered := @(invariant_held s).enter level _ _ graphics' resources locked h.held hvalid
    refine ⟨⟨hentered.made, hentered.context,
      List.forall_mem_cons.2 ⟨fun i hi => ?_, h.held.outer⟩⟩, ?_, rfl, [], rfl,
      fun _ hcall => nomatch hcall⟩
    · -- Around the content no group is open where calls are recorded.
      have hheld := h.held
      rw [h.eq] at hheld ⊢
      rcases hi with hi | hi | hi
      · exact hheld.context i (.inl hi)
      · exact hheld.context i (.inr (.inl hi))
      · rw [h.closed] at hi
        cases hi
    · rw [h.eq]
      rfl
  leave {level outer c c' _ _ _ d d'} h hframe hd := by
    have hgrows : c.clips.Grows d.clips := hframe.clips
    obtain ⟨calls, hcalls, hnamed⟩ := h.calls
    refine ⟨⟨hd.held.made, fun i hi => (h.held.context i hi).trans_le hgrows.size_le,
      fun k hk => hd.held.outer k (List.mem_cons_of_mem _ hk)⟩, ?_, h.closed, calls, hcalls,
      fun call hcall => (hnamed call hcall).mono hgrows⟩
    rw [h.eq, hd.eq]
    rfl

/-! ### What is drawn -/

namespace Canvas

/-- The canvas `c` shows what the calls recorded on `d` come to: each is named for the clip
region in which it draws, those in one region that follow on each other share a group, and
all else is the same. -/
structure Replays (c d : Canvas α) : Prop where
  calls : ∃ calls : List Call, d.content = calls.map Call.record ∧
    (∀ call ∈ calls, call.NamedIn c.clips) ∧ Call.Wraps calls c.content ∧
    c.context.openClip = calls.getLast?.bind Call.region?
  rest : c = d.mapContext (·.withDrawn c.context.drawn)

theorem DrawnBy.replays {precision : Nat} {outer : List (Context α)} {c d : Canvas α}
    (h : c.DrawnBy precision outer d) : c.Replays d := by
  obtain ⟨calls, hcalls, hnamed⟩ := h.calls
  have hdrawn : c.context.drawn = Call.draw calls ([], none) := by
    rw [h.eq]
    exact congrArg (Call.draw · ([], none)) ((congrArg _ hcalls).trans (Call.map_recorded calls))
  obtain ⟨hwraps, hopen⟩ := Call.wraps_draw calls fun call hcall => (hnamed call hcall).namedBy
  rw [← hdrawn] at hwraps hopen
  refine ⟨⟨calls, hcalls, hnamed, hwraps, hopen⟩, ?_⟩
  rw [h.eq]
  rfl

/-- The canvas without anything drawn. -/
def undrawn (c : Canvas α) : Canvas α := c.mapContext (·.withDrawn ([], none))

theorem Held.drawnBy_undrawn {precision : Nat} {outer : List (Context α)} {c : Canvas α}
    (h : c.Held precision outer) : c.undrawn.DrawnBy precision outer c.undrawn := by
  refine ⟨h.of_holds rfl fun i hi => ?_, rfl, rfl, [], rfl, fun _ hcall => nomatch hcall⟩
  rcases hi with hi | hi | hi
  · exact .inl hi
  · exact .inr (.inl hi)
  · cases hi

end Canvas

/-- **Elements are drawn in the order of the calls.** Content on any level, and every page, come to
the same end when each call is recorded instead, whatever would happen to a canvas on which an
element is put while text is still to be drawn; and what has been drawn is what the recorded calls
come to. In every state that a page passes through, in its context and in those around, an open
group is the last element and the one of its region. -/
theorem drawn_in_call_order (stray : Canvas α → Canvas α) :
    (∀ (s : Setting α) (level : Nat) (outer : List (Context α)) (c : Canvas α)
        (content : ContentStream α), c.Held s.options.precision outer →
      Matches Canvas.Replays (drawContent ⟨s, s.nested level⟩ content)
        ((Manner.callByCall stray).drawContent
          ((Manner.callByCall stray).environment s level outer) outer content)
        c.undrawn c.undrawn fun _ _ _ => True) ∧
    ∀ (v : Converter α) (p : Page α),
      let s := p.setting v.options v.library
      Matches Canvas.Replays (p.draw s) ((Manner.callByCall stray).drawPage s p)
        (v.canvas p) (v.canvas p) (fun _ _ _ => True) ∧
      ∀ (outer : List (Context α)) (c : Canvas α), v.Reaches p outer c →
        ∀ k ∈ c.context :: outer, ∀ i, k.openClip = some i →
          ∃ before nodes, nodes ≠ [] ∧
            k.content.reverse = before ++ [Node.clipGroup (c.clips.id i) nodes] := by
  refine ⟨fun s level outer c content hheld => ?_,
    fun v p => ⟨?_, fun outer c hreaches k hk i hi => ?_⟩⟩
  · exact Matches.mono ((simulation_drawnBy s stray).drawContent hheld.drawnBy_undrawn content)
      (fun _ _ h => h.replays) fun _ _ _ _ _ => trivial
  · exact ((simulation_drawnBy (p.setting v.options v.library) stray).drawPage p
      (v.held_canvas p).drawnBy_undrawn).mono (fun _ _ h => h.replays) fun _ _ _ _ _ => trivial
  · have hlast := Converter.openLast_of_reaches hreaches
    have hends : k.EndsOpen c.clips := by
      rcases List.mem_cons.1 hk with rfl | hk
      · exact hlast.context
      · exact hlast.outer k hk
    obtain ⟨nodes, rest, hsome, hcontent⟩ := hends i hi
    exact ⟨rest.reverse, nodes, hsome, by rw [hcontent, List.reverse_cons]⟩

section Example

attribute [local instance] Scalar.rational

/-- A triangle that reaches beyond the rectangle that is clipped to. -/
def clippedPage : Page ℚ where
  cropBox := ⟨0, 0, 10, 10⟩
  rotation := 0
  content :=
    [⟨"re", [.integer 0, .integer 0, .integer 5, .integer 5]⟩, ⟨"W", []⟩, ⟨"n", []⟩,
      ⟨"m", [.integer 0, .integer 0]⟩, ⟨"l", [.integer 9, .integer 0]⟩,
      ⟨"l", [.integer 0, .integer 9]⟩, ⟨"f", []⟩]
  resources := 0
  overlays := []

/-- When the triangle has been drawn, the group of the rectangle is open and comes last. -/
theorem drawn_in_call_order_triangle :
    let v : Converter ℚ := { options := .standard, library := #[] }
    let s := clippedPage.setting v.options v.library
    (v.canvas clippedPage).Held v.options.precision [] ∧
      (∀ stray, Matches Canvas.Replays (drawContent ⟨s, s.nested 0⟩ clippedPage.content)
        ((Manner.callByCall stray).drawContent
          ((Manner.callByCall stray).environment s 0 []) [] clippedPage.content)
        (v.canvas clippedPage) (v.canvas clippedPage) fun _ _ _ => True) ∧
      ∃ c, v.Reaches clippedPage [] c ∧ c.context.openClip = some 0 ∧
        ∃ before nodes, nodes ≠ [] ∧
          c.content = before ++ [Node.clipGroup (c.clips.id 0) nodes] := by
  intro v s
  have hrun : Draw.Ends (executeAll s.environment clippedPage.content) (v.canvas clippedPage)
      (fun _ c => c.context.openClip = some 0) fun _ _ => False := by decide +kernel
  obtain ⟨_, c, hrun, hopen⟩ := hrun.exists_ok
  have hreaches : v.Reaches clippedPage [] c := v.reaches_executed rfl fun n => hrun
  have hheld := v.held_canvas clippedPage
  exact ⟨hheld, fun stray => (drawn_in_call_order stray).1 s 0 [] (v.canvas clippedPage) _ hheld,
    c, hreaches, hopen, ((drawn_in_call_order id).2 v clippedPage).2 [] c hreaches _
      List.mem_cons_self 0 hopen⟩

end Example

end PageSvg
