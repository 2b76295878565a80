import PageSvg.Converter
import PageSvg.Proofs.Canvas.Nesting

/-!
# References of a document

A document is written from a sound canvas: regions in use and definitions under names of their own,
and a rule for each class. So whatever refers to a definition refers to exactly one, and following
references never leads back.
-/

namespace PageSvg

variable {α : Type}

/-! ### Intact documents -/

namespace Document

/-- The elements among the definitions. -/
def definitionNodes (d : Document α) : List Node := (d.definitions?.map (·.children)).getD []

/-- The identifiers of all elements among the definitions, at any depth. -/
def definitionIds (d : Document α) : List String :=
  (Node.elementsAll d.definitionNodes).filterMap (·.get? "id")

/-- All references of a document with the rules are answered by one definition or rule each, and
definitions do not refer to each other in circles. -/
structure Intact (d : Document α) (rules : Keyed String) : Prop where
  /-- The style sheet of the document lists the rules. -/
  sheet : rules ≠ [] → ∃ rest, d.definitionNodes =
    { tag := "style", text := some (Definitions.styleSheet { classes := rules }) } :: rest
  named : ∀ n ∈ d.root.elements, ∀ id, n.Names id → d.definitionIds.count id = 1
  painted : ∀ rule ∈ rules, ∀ id, PaintsWith rule.1 id → d.definitionIds.count id = 1
  styled : ∀ n ∈ d.root.elements, ∀ name, n.HasClass name → (rules.map Prod.snd).count name = 1
  grounded : ∀ id, ¬Relation.TransGen (Refers d.definitionNodes rules) id id

end Document

/-! ### Identifiers -/

namespace Node

variable {ids names : String → Prop} {n : Node} {id : String}

/-- No element of a resolved tree has an identifier. -/
theorem Resolved.get?_id (h : n.Resolved ids names) : ∀ m ∈ n.elements, m.get? "id" = none := by
  intro m hm
  rw [get?, Keyed.get?_eq_none_iff]
  intro hmem
  obtain ⟨attr, hattr, hkey⟩ := List.mem_map.1 hmem
  exact (h.elements m hm attr hattr).anonymous hkey

/-- In a definition only the outermost element has one. -/
theorem ids_eq (hid : n.get? "id" = some id) (h : ∀ c ∈ n.children, c.Resolved ids names) :
    n.elements.filterMap (·.get? "id") = [id] := by
  have hbelow : (n.children.flatMap elements).filterMap (·.get? "id") = [] := by
    rw [List.filterMap_eq_nil_iff]
    intro m hm
    obtain ⟨c, hc, hm⟩ := List.mem_flatMap.1 hm
    exact (h c hc).get?_id m hm
  rw [elements_eq, List.filterMap_cons, hbelow]
  simp only [hid]

theorem ids_flatMap {β : Type} {items : List β} {f : β → Node} {name : β → String}
    (h : ∀ x ∈ items, (f x).elements.filterMap (·.get? "id") = [name x]) :
    (elementsAll (items.map f)).filterMap (·.get? "id") = items.map name := by
  rw [elementsAll_eq_flatMap, List.flatMap_map, List.filterMap_flatMap,
    List.flatMap_congr h, ← List.map_eq_flatMap]

theorem elementsAll_append (l m : List Node) :
    elementsAll (l ++ m) = elementsAll l ++ elementsAll m := by
  simp only [elementsAll_eq_flatMap, List.flatMap_append]

end Node

/-! ### What is written -/

namespace Pool

variable [Scalar α] {p : Pool α} {n : Node} {id : String}

/-- The definitions that are written. -/
def written (p : Pool α) : List Node := p.clips.toNodes ++ p.definitions.nodes.map Prod.snd

/-- The names of the definitions that are written. -/
def writtenIds (p : Pool α) : List String :=
  (p.clips.regions.toList.filter (·.referenced)).map (·.id) ++ Keyed.keys p.definitions.nodes

theorem mem_written_iff :
    n ∈ p.written ↔ (∃ (i : Nat) (r : ClipRegion α), p.clips.regions[i]? = some r ∧
      r.referenced = true ∧ n = p.clips.regionNode r) ∨ ∃ id, (id, n) ∈ p.definitions.nodes := by
  rw [written, ClipForest.toNodes, List.mem_append, List.mem_map, List.mem_map]
  refine or_congr ⟨?_, ?_⟩ ⟨?_, ?_⟩
  · rintro ⟨r, hr, rfl⟩
    obtain ⟨hr, hreferenced⟩ := List.mem_filter.1 hr
    obtain ⟨i, hi⟩ := Array.mem_iff_getElem?.1 (Array.mem_toList_iff.1 hr)
    exact ⟨i, r, hi, hreferenced, rfl⟩
  · rintro ⟨i, r, hr, hreferenced, rfl⟩
    exact ⟨r, List.mem_filter.2
      ⟨Array.mem_toList_iff.2 (Array.mem_iff_getElem?.2 ⟨i, hr⟩), hreferenced⟩, rfl⟩
  · rintro ⟨⟨id, n⟩, hn, rfl⟩
    exact ⟨id, hn⟩
  · rintro ⟨id, hn⟩
    exact ⟨(id, n), hn, rfl⟩

theorem mem_nodes_of_mem_written (hn : n ∈ p.written) : n ∈ p.nodes := by
  rcases mem_written_iff.1 hn with ⟨i, r, hr, _, rfl⟩ | hn
  · exact mem_nodes_iff.2 (.inl ⟨i, r, hr, rfl⟩)
  · exact mem_nodes_iff.2 (.inr hn)

/-- What is written refers only to what is written: around a region in use, all are in use. -/
theorem Sound.resolves_written (h : p.Sound) (hn : n ∈ p.written) :
    n.Throughout (Attr.Resolves p.Available p.HasRule) := by
  rcases mem_written_iff.1 hn with ⟨i, r, hr, hreferenced, rfl⟩ | ⟨id, hn⟩
  · refine throughout_regionNode (fun j hj => ?_) (h.shapes i r hr)
    obtain ⟨s, hs, hreferenced'⟩ := h.clips.upward.around hr hreferenced hj
    exact .inl ⟨j, s, hs, hreferenced', (ClipForest.id_of_getElem? hs).symm⟩
  · obtain ⟨body, hbody, rfl⟩ := h.bodies id n hn
    exact (hbody.imp fun _ _ ha => ha.toResolves).set (Attr.resolves_id id)

/-- Among the definitions that are written, each carries its name and nothing else has one. -/
theorem Sound.ids_written (h : p.Sound) :
    (Node.elementsAll p.written).filterMap (·.get? "id") = p.writtenIds := by
  rw [written, Node.elementsAll_append, List.filterMap_append, writtenIds, ClipForest.toNodes]
  congr 1
  · refine Node.ids_flatMap fun r hr => ?_
    obtain ⟨i, hi⟩ := Array.mem_iff_getElem?.1 (Array.mem_toList_iff.1 (List.mem_filter.1 hr).1)
    exact Node.ids_eq (get?_regionNode _ r)
      (resolved_shapeNodes p.clips r.evenOdd (h.shapes i r hi))
  · refine Node.ids_flatMap fun entry hentry => ?_
    obtain ⟨body, hbody, he⟩ := h.bodies entry.1 entry.2 hentry
    rw [he]
    exact Node.ids_eq (by rw [Node.get?, Node.set, Keyed.get?_insert_self]) hbody.children

theorem Sound.nodup_writtenIds (h : p.Sound) (hkeys : p.Unambiguous) : p.writtenIds.Nodup := by
  have hregions : (p.clips.regions.toList.map (·.id)).Nodup := by
    rw [List.Nodup, List.pairwise_iff_getElem]
    intro i j hi hj hij e
    simp only [List.getElem_map, Array.getElem_toList] at e
    have hi' : i < p.clips.regions.size := by simpa using hi
    have hj' : j < p.clips.regions.size := by simpa using hj
    have := h.clips.eq_of_id_eq hkeys.regions (Array.getElem?_eq_getElem hi')
      (Array.getElem?_eq_getElem hj') e
    omega
  -- Definitions are named for their kinds, of which none is that of the regions.
  refine List.Nodup.append (hregions.sublist (List.filter_sublist.map _)) h.ids ?_
  intro id hregion hdefinition
  obtain ⟨r, hr, rfl⟩ := List.mem_map.1 hregion
  obtain ⟨i, hi⟩ := Array.mem_iff_getElem?.1 (Array.mem_toList_iff.1 (List.mem_filter.1 hr).1)
  exact h.ne_id hi (h.kinds r.id hdefinition) rfl

omit [Scalar α] in
theorem Available.mem_writtenIds (h : p.Available id) : id ∈ p.writtenIds := by
  rw [writtenIds, List.mem_append]
  rcases h with ⟨i, r, hr, hreferenced, rfl⟩ | h
  · exact .inl (List.mem_map.2 ⟨r, List.mem_filter.2
      ⟨Array.mem_toList_iff.2 (Array.mem_iff_getElem?.2 ⟨i, hr⟩), hreferenced⟩, rfl⟩)
  · exact .inr (Keyed.contains_iff_mem_keys.1 h)

theorem HasRule.count_eq_one (h : p.Sound) (hkeys : p.Unambiguous) {name : String}
    (hname : p.HasRule name) : (p.definitions.classes.map Prod.snd).count name = 1 := by
  have hnames : p.definitions.classes.map Prod.snd =
      (Keyed.keys p.definitions.classes).map (stableId "s") := by
    rw [Keyed.keys, List.map_map]
    exact List.map_congr_left h.ruleNames
  have hnodup : (p.definitions.classes.map Prod.snd).Nodup := by
    rw [hnames]
    exact List.Nodup.map_on (fun key hkey key' hkey' e => hkeys.rules hkey hkey' e) h.declarations
  obtain ⟨rule, hrule, rfl⟩ := hname
  exact List.count_eq_one_of_mem hnodup (List.mem_map_of_mem (f := Prod.snd) hrule)

end Pool

/-! ### Documents -/

section Finish

variable [Scalar α] {c : Canvas α}

/-- The style sheet stands before the definitions that are written. -/
theorem Canvas.definitionNodes_finish (s : Setting α) (c : Canvas α) :
    (c.finish s).definitionNodes =
      (if (c.flushText s.options).definitions.classes.isEmpty then []
        else [{ tag := "style", text := some (c.flushText s.options).definitions.styleSheet }]) ++
      (c.flushText s.options).pool.written := by
  rw [Pool.written, ← List.append_assoc]
  rfl

theorem Canvas.mem_definitionNodes_finish {s : Setting α} {n : Node}
    (hn : n ∈ (c.finish s).definitionNodes) :
    n.attrs = [] ∧ n.children = [] ∨ n ∈ (c.flushText s.options).pool.written := by
  rw [definitionNodes_finish, List.mem_append] at hn
  refine hn.imp_left fun hn => ?_
  split at hn
  · cases hn
  · rw [List.mem_singleton.1 hn]
    exact ⟨rfl, rfl⟩

theorem Canvas.Sound.definitionIds_finish (h : c.Sound) (s : Setting α) :
    (c.finish s).definitionIds = (c.flushText s.options).pool.writtenIds := by
  rw [Document.definitionIds, definitionNodes_finish, Node.elementsAll_append,
    List.filterMap_append, (h.flushText s.options).pool.ids_written]
  split <;> rfl

/-- All references of the document of a sound canvas are answered. -/
theorem Canvas.Sound.throughout_finish (h : c.Sound) (s : Setting α) :
    (c.finish s).root.Throughout (Attr.Resolves (c.flushText s.options).pool.Available
      (c.flushText s.options).pool.HasRule) := by
  have hflushed := h.flushText s.options
  have hcontent : Node.Throughout (Attr.Resolves (c.flushText s.options).pool.Available
      (c.flushText s.options).pool.HasRule)
      { tag := "g"
        attrs := [("id", "content")]
        children := (c.flushText s.options).content } := by
    refine .mk (fun attr hattr => ?_) fun n hn => ?_
    · rw [List.mem_singleton.1 hattr]
      exact Attr.resolves_id _
    · exact (hflushed.content n hn).imp fun _ _ ha => ha.toResolves
  -- The root holds the definitions and the content, rearranged or as it was drawn.
  refine .mk (fun attr hattr => ?_) fun n hn => ?_
  · refine (Attr.inside_of_inert ?_).toResolves
    simp only [Canvas.finish, Setting.rootNode, List.mem_cons, List.not_mem_nil, or_false] at hattr
    rcases hattr with rfl | rfl | rfl | rfl <;> simp [Attr.inert]
  · simp only [Canvas.finish, Setting.rootNode, List.mem_cons, List.not_mem_nil, or_false] at hn
    rcases hn with rfl | rfl
    · refine .mk (by simp [Definitions.toNode]) fun n hn => ?_
      rcases mem_definitionNodes_finish (s := s) hn with hn | hn
      · exact .mk (by simp [hn]) (by simp [hn])
      · exact hflushed.pool.resolves_written hn
    · split
      · refine Scene.throughout_optimize ?_ _ hcontent
        exact fun _ _ => Attr.Resolves.onGroup
      · exact hcontent

/-- The document of a sound canvas is intact, if no two keys have one name. -/
theorem Canvas.Sound.intact_finish (h : c.Sound) (s : Setting α)
    (hkeys : (c.flushText s.options).pool.Unambiguous) :
    (c.finish s).Intact (c.flushText s.options).definitions.classes := by
  have hpool := (h.flushText s.options).pool
  have hroot := h.throughout_finish s
  have hcount (id : String) (hid : (c.flushText s.options).pool.Available id) :
      (c.finish s).definitionIds.count id = 1 := by
    rw [h.definitionIds_finish]
    exact List.count_eq_one_of_mem (hpool.nodup_writtenIds hkeys) hid.mem_writtenIds
  refine ⟨fun hrules => ?_, fun n hn id hid => ?_, fun rule hrule id hid => ?_,
    fun n hn name hname => ?_, ?_⟩
  · rw [definitionNodes_finish, if_neg (by simpa using hrules)]
    exact ⟨_, rfl⟩
  · obtain ⟨attr, hattr, hnames⟩ := hid
    exact hcount id ((hroot.elements n hn attr hattr).named id hnames)
  · exact hcount id (.inr (hpool.paints rule hrule id hid))
  · obtain ⟨attr, hattr, hclass⟩ := hname
    exact Pool.HasRule.count_eq_one hpool hkeys
      ((hroot.elements n hn attr hattr).styled name hclass)
  · -- What is written refers to no more than all that came up, and the style sheet to nothing.
    refine Grounded.not_transGen_self ((hpool.grounded hkeys).mono fun a b hab => ?_)
    obtain ⟨n, hn, ha, hb⟩ := hab
    rcases mem_definitionNodes_finish hn with hn | hn
    · rw [Node.get?, hn.1] at ha
      cases ha
    · exact ⟨n, Pool.mem_nodes_of_mem_written hn, ha, hb⟩

end Finish

/-! ### Pages -/

section Pages

open Draw

variable [Scalar α] {c : Canvas α}

theorem safe_drawOverlay {env : Environment α} (h : env.Sound) (hc : c.Sound) (a : Overlay α) :
    Safe (a.draw env) c fun _ _ => True := by
  unfold Overlay.draw
  refine .ite (fun _ => .pure hc trivial) fun _ => ?_
  split
  · exact .pure hc trivial
  · split
    · exact .pure hc trivial
    · next box _ _ ctm _ =>
      have hd := hc.flushText env.options
      have hclip : (c.flushText env.options).clips.Valid (c.flushText env.options).graphics.clip :=
        hd.context.graphics.clip
      obtain ⟨he, hregion⟩ := hd.formRegion env.viewport hclip (some box) ctm
      refine .modifyBind (c.frame_flushText _) ?_
      refine .modifyGetBind (Canvas.frame_formRegion _ _ _ _ _) (.getBind ?_)
      refine .bind (.orSkip (h _ _ _ _ _ he (GraphicsState.sound_of_none hregion rfl)))
        fun nodes? d hd hnodes => .modify (d.frame_pushAll _) (hd.sound.pushAll ?_)
      cases nodes? with
      | none => exact fun _ hn => nomatch hn
      | some nodes => exact hnodes nodes rfl

/-- Drawing a page leads to a sound canvas, whatever becomes of it. -/
theorem Page.safe_draw (p : Page α) (s : Setting α) (hc : c.Sound) :
    Safe (p.draw s) c fun _ _ => True := by
  have henv : s.environment.Sound := s.nested_sound s.options.maxNestingDepth
  exact .bind (safe_drawContent henv hc p.content) fun _ d hd _ =>
    .forM hd.sound fun a e he => safe_drawOverlay henv he.sound a

/-- A page begins on a sound canvas. -/
theorem Converter.sound_canvas (v : Converter α) (p : Page α) : (v.canvas p).Sound := by
  -- There are no regions, definitions and rules yet.
  have hempty (i : Nat) (r : ClipRegion α) (hr : (v.canvas p).pool.clips.regions[i]? = some r) :
      False := by
    change (#[] : Array (ClipRegion α))[i]? = some r at hr
    simp at hr
  refine ⟨⟨⟨fun i r hr => (hempty i r hr).elim, fun i r hr => (hempty i r hr).elim,
    fun i _ r _ hr => (hempty i r hr).elim, fun i r hr => (hempty i r hr).elim⟩,
    fun i r hr => (hempty i r hr).elim, List.nodup_nil, (fun _ hid => nomatch hid),
    (fun _ _ hn => nomatch hn), List.nodup_nil, (fun _ hrule => nomatch hrule),
    (fun _ hrule => nomatch hrule), fun _ => ?_⟩, ?_⟩
  · refine ⟨fun a => ⟨a, fun b hb => ?_⟩⟩
    obtain ⟨n, hn, _⟩ := hb
    rcases Pool.mem_nodes_iff.1 hn with ⟨i, r, hr, _⟩ | ⟨id, hid⟩
    · exact (hempty i r hr).elim
    · cases hid
  · have hnone : (v.canvas p).pool.clips.Valid none := fun _ e => nomatch e
    exact Context.sound_start (GraphicsState.sound_of_none hnone rfl) p.resources

/-- **References of a converted page are intact.** Whatever the options, the page and the resources
are, whichever of them refer to themselves or each other: when no two keys that came up have one
name, every reference names exactly one definition, every class of text has exactly one rule, and
following references from a definition never leads back to it. -/
theorem Converter.intact_convert (v : Converter α) (p : Page α)
    (hdraw : p.draw (p.setting v.options v.library) (v.canvas p) = .ok () c)
    (hkeys : (c.flushText v.options).pool.Unambiguous) :
    (v.convert p).1 = .ok (c.finish (p.setting v.options v.library)) ∧
      (c.finish (p.setting v.options v.library)).Intact
        (c.flushText v.options).definitions.classes := by
  have hsafe := p.safe_draw (p.setting v.options v.library) (v.sound_canvas p)
  rw [Safe, Ends, hdraw] at hsafe
  refine ⟨?_, hsafe.1.sound.intact_finish _ hkeys⟩
  rw [Converter.convert, hdraw]

/-- An image inside a clip region. -/
theorem Converter.intact_convert_clipped_image :
    let image : Image Float := ⟨"Im0", .ok "data:image/png;base64,", true, false⟩
    let v : Converter Float :=
      { options := { Options.standard with rectClipFastPath := false }
        library := #[{ xobjects := [("Im", .image image)] }] }
    let p : Page Float :=
      { cropBox := .ofCorners 0 0 100 100
        rotation := 0
        content := [⟨"re", [.integer 10, .integer 10, .integer 50, .integer 50]⟩, ⟨"W", []⟩,
          ⟨"n", []⟩, ⟨"Do", [.name "Im"]⟩]
        resources := 0
        overlays := [] }
    ∃ c, p.draw (p.setting v.options v.library) (v.canvas p) = .ok () c ∧
      (c.flushText v.options).pool.Unambiguous ∧
      (v.convert p).1 = .ok (c.finish (p.setting v.options v.library)) ∧
      (c.finish (p.setting v.options v.library)).Intact
        (c.flushText v.options).definitions.classes := by
  intro image v p
  obtain ⟨c, hdraw, ⟨path, i, hclips⟩, hclasses⟩ : ∃ c,
      p.draw (p.setting v.options v.library) (v.canvas p) = .ok () c ∧
      (∃ path i, (c.flushText v.options).clips =
        (ClipForest.insertPath { precision := 3 } none path false).2.mark i) ∧
      (c.flushText v.options).definitions.classes = [] :=
    ⟨_, rfl, ⟨_, _, rfl⟩, rfl⟩
  have hkeys : (c.flushText v.options).pool.Unambiguous := by
    refine Pool.unambiguous_of_size_le_one ?_ hclasses
    show (c.flushText v.options).clips.regions.size ≤ 1
    rw [hclips, ClipForest.mark_size]
    exact ClipForest.size_insertPath_le _ none path false
  exact ⟨c, hdraw, hkeys, v.intact_convert p hdraw hkeys⟩

end Pages

end PageSvg
