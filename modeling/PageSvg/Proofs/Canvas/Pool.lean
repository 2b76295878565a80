import PageSvg.Canvas.Basic
import PageSvg.Proofs.Clip
import PageSvg.Proofs.Scene.References

/-!
# What content shares

The clip regions and definitions of a page are added to while content is drawn, at any depth. What
is added refers only to what is there by then, so whatever else is added meanwhile, references stay
resolved and cannot lead back, as long as no two keys have one name.
-/

namespace PageSvg

/-- The clip regions and definitions of a page. -/
structure Pool (α : Type) where
  clips : ClipForest α
  definitions : Definitions

namespace Pool

variable {α : Type}

/-- Nothing that was there is gone. -/
structure Grows (p q : Pool α) : Prop where
  clips : p.clips.Grows q.clips
  definitions : p.definitions.Grows q.definitions

/-- Content may refer to the name: it is that of a definition or of a region in use. -/
def Available (p : Pool α) (id : String) : Prop :=
  (∃ (i : Nat) (r : ClipRegion α), p.clips.regions[i]? = some r ∧ r.referenced = true ∧
    r.id = id) ∨ p.definitions.contains id = true

/-- The name is that of a definition or of any region. -/
def Known (p : Pool α) (id : String) : Prop :=
  (∃ (i : Nat) (r : ClipRegion α), p.clips.regions[i]? = some r ∧ r.id = id) ∨
    p.definitions.contains id = true

/-- There is a rule for the class. -/
def HasRule (p : Pool α) (name : String) : Prop := ∃ rule ∈ p.definitions.classes, rule.2 = name

/-- All that a tree refers to is there. -/
def Resolves (p : Pool α) (n : Node) : Prop := n.Resolved p.Available p.HasRule

variable {p q : Pool α} {id : String} {n : Node}

theorem Available.known (h : p.Available id) : p.Known id :=
  h.imp_left fun ⟨i, r, hr, _, hid⟩ => ⟨i, r, hr, hid⟩

/-! ### Growing -/

theorem Grows.contains (h : p.Grows q) (hid : p.definitions.contains id = true) :
    q.definitions.contains id = true := by
  rw [Definitions.contains, Keyed.contains_iff_mem_keys] at hid ⊢
  exact (h.definitions.nodes.map Prod.fst).subset hid

theorem Grows.available (h : p.Grows q) (hid : p.Available id) : q.Available id := by
  rcases hid with ⟨i, r, hr, hreferenced, rfl⟩ | hid
  · obtain ⟨s, hs, hrs⟩ := h.clips.kept i r hr
    exact .inl ⟨i, s, hs, hrs.referenced hreferenced, hrs.id⟩
  · exact .inr (h.contains hid)

theorem Grows.hasRule (h : p.Grows q) {name : String} (hname : p.HasRule name) :
    q.HasRule name :=
  hname.imp fun _ hrule => ⟨h.definitions.classes.subset hrule.1, hrule.2⟩

theorem Grows.resolves (h : p.Grows q) (hn : p.Resolves n) : q.Resolves n :=
  hn.mono (fun _ => h.available) fun _ => h.hasRule

variable [Scalar α]

/-! ### Soundness -/

/-- The definitions, those of the regions first, used or not. -/
def nodes (p : Pool α) : List Node :=
  p.clips.regions.toList.map p.clips.regionNode ++ p.definitions.nodes.map Prod.snd

/-- No two keys have one name. -/
structure Unambiguous (p : Pool α) : Prop where
  regions : Set.InjOn (stableId "clip") p.clips.keys
  rules : Set.InjOn (stableId "s") {key | key ∈ Keyed.keys p.definitions.classes}

/-- Where there is at most one region and no rule, no two keys can have one name. -/
theorem unambiguous_of_size_le_one (hregions : p.clips.regions.size ≤ 1)
    (hrules : p.definitions.classes = []) : p.Unambiguous := by
  refine ⟨?_, by simp [hrules]⟩
  rintro _ ⟨i, r, hr, rfl⟩ _ ⟨j, s, hs, rfl⟩ _
  have hi := ClipForest.lt_size_of_getElem? hr
  have hj := ClipForest.lt_size_of_getElem? hs
  obtain rfl : i = j := by omega
  obtain rfl : r = s := Option.some.inj (hr.symm.trans hs)
  rfl

/-- What holds of regions and definitions at any time. -/
structure Sound (p : Pool α) : Prop where
  clips : p.clips.Ordered
  /-- What a region is cut by. -/
  shapes : ∀ (i : Nat) (r : ClipRegion α), p.clips.regions[i]? = some r →
    ∀ nodes, r.shape = .text nodes → ∀ n ∈ nodes, p.Resolves n
  ids : (Keyed.keys p.definitions.nodes).Nodup
  kinds : ∀ id ∈ Keyed.keys p.definitions.nodes, IsDefinitionId id
  bodies : ∀ id n, (id, n) ∈ p.definitions.nodes → ∃ body, p.Resolves body ∧ n = body.set "id" id
  declarations : (Keyed.keys p.definitions.classes).Nodup
  ruleNames : ∀ rule ∈ p.definitions.classes, rule.2 = stableId "s" rule.1
  paints : ∀ rule ∈ p.definitions.classes, ∀ id, PaintsWith rule.1 id →
    p.definitions.contains id = true
  grounded : p.Unambiguous → Grounded (Refers p.nodes p.definitions.classes)

theorem Grows.unambiguous (h : p.Sound) (hgrows : p.Grows q) (hq : q.Unambiguous) :
    p.Unambiguous :=
  ⟨hq.regions.mono (hgrows.clips.keys_subset h.clips), hq.rules.mono
    ((hgrows.definitions.classes.map Prod.fst).subset)⟩

/-- The name of a definition is none of a region. -/
theorem Sound.ne_id (h : p.Sound) {i : Nat} {r : ClipRegion α}
    (hr : p.clips.regions[i]? = some r) (hid : IsDefinitionId id) : id ≠ r.id := by
  rw [h.clips.named i r hr, ClipForest.regionId_eq]
  exact hid.ne_clip _

theorem get?_regionNode (f : ClipForest α) (r : ClipRegion α) :
    (f.regionNode r).get? "id" = some r.id := by
  rw [ClipForest.regionNode, Node.get?, Keyed.get?_cons, if_pos rfl]

theorem mem_nodes_iff :
    n ∈ p.nodes ↔ (∃ (i : Nat) (r : ClipRegion α), p.clips.regions[i]? = some r ∧
      n = p.clips.regionNode r) ∨ ∃ id, (id, n) ∈ p.definitions.nodes := by
  rw [nodes, List.mem_append, List.mem_map, List.mem_map]
  refine or_congr ⟨?_, ?_⟩ ⟨?_, ?_⟩
  · rintro ⟨r, hr, rfl⟩
    obtain ⟨i, hi⟩ := Array.mem_iff_getElem?.1 (Array.mem_toList_iff.1 hr)
    exact ⟨i, r, hi, rfl⟩
  · rintro ⟨i, r, hr, rfl⟩
    exact ⟨r, Array.mem_toList_iff.2 (Array.mem_iff_getElem?.2 ⟨i, hr⟩), rfl⟩
  · rintro ⟨⟨id, n⟩, hn, rfl⟩
    exact ⟨id, hn⟩
  · rintro ⟨id, hn⟩
    exact ⟨(id, n), hn, rfl⟩

/-! ### What definitions refer to -/

/-- What a tree refers to is known. -/
def Refs (p : Pool α) (n : Node) : Prop := n.Throughout (Attr.Resolves p.Known p.HasRule)

omit [Scalar α] in
theorem Resolves.refs (h : p.Resolves n) : p.Refs n :=
  h.imp fun _ _ ha => ha.toResolves.mono (fun _ => Available.known) fun _ hname => hname

theorem resolved_shapeNodes {ids names : String → Prop} (f : ClipForest α) (evenOdd : Bool)
    {shape : ClipShape α}
    (hshape : ∀ nodes, shape = .text nodes → ∀ n ∈ nodes, n.Resolved ids names) :
    ∀ n ∈ f.shapeNodes evenOdd shape, n.Resolved ids names := by
  intro n hn
  cases shape with
  | rectangle rectangle =>
    rw [List.mem_singleton.1 hn]
    exact Node.resolved_of_inert (by simp [Attr.inert]) (by simp)
  | path path =>
    rw [List.mem_singleton.1 hn]
    exact Node.Throughout.setIf (Node.resolved_of_inert (by simp [Attr.inert]) (by simp)) _
      (Attr.inside_of_inert (by simp [Attr.inert]))
  | text nodes => exact hshape nodes rfl n hn

/-- The definition of a region refers to that of its parent and to what its text refers to. -/
theorem throughout_regionNode {ids names : String → Prop} {f : ClipForest α} {r : ClipRegion α}
    (hparent : ∀ i, r.parent = some i → ids (f.id i))
    (hshape : ∀ nodes, r.shape = .text nodes → ∀ n ∈ nodes, n.Resolved ids names) :
    (f.regionNode r).Throughout (Attr.Resolves ids names) := by
  refine .mk (fun attr hattr => ?_) fun c hc => ?_
  · rcases List.mem_cons.1 hattr with rfl | hattr
    · exact Attr.resolves_id _
    · split at hattr
      · next parent hp =>
        rw [List.mem_singleton.1 hattr]
        exact (Attr.inside_of_referring (by simp [Attr.referring])
          (Attr.answered_reference (hparent parent hp))).toResolves
      · cases hattr
  · exact (resolved_shapeNodes f r.evenOdd hshape c hc).imp fun _ _ ha => ha.toResolves

theorem refs_regionNode {f : ClipForest α} {d : Definitions} {r : ClipRegion α}
    (hparent : f.Valid r.parent)
    (hshape : ∀ nodes, r.shape = .text nodes → ∀ n ∈ nodes, (Pool.mk f d).Resolves n) :
    (Pool.mk f d).Refs (f.regionNode r) := by
  refine throughout_regionNode (fun i hi => ?_) fun nodes hnodes n hn => ?_
  · obtain ⟨s, hs⟩ := ClipForest.getElem?_of_lt_size (hparent i hi)
    exact .inl ⟨i, s, hs, (ClipForest.id_of_getElem? hs).symm⟩
  · exact (hshape nodes hnodes n hn).mono (fun _ => Available.known) fun _ hname => hname

omit [Scalar α] in
/-- A definition is the tree it was made of, under its name. -/
theorem Resolves.refs_set (h : p.Resolves n) (id : String) : p.Refs (n.set "id" id) :=
  h.refs.set (Attr.resolves_id id)

theorem Sound.refs_of_mem (h : p.Sound) (hn : n ∈ p.nodes) : p.Refs n := by
  rcases mem_nodes_iff.1 hn with ⟨i, r, hr, rfl⟩ | ⟨id, hn⟩
  · exact refs_regionNode (h.clips.valid hr) (h.shapes i r hr)
  · obtain ⟨body, hbody, rfl⟩ := h.bodies id n hn
    exact hbody.refs_set id

/-- Whatever a tree points to, itself or by its classes, is known. -/
theorem Sound.known_of_pointsTo (h : p.Sound) (hn : p.Refs n)
    (hid : n.PointsTo p.definitions.classes id) : p.Known id := by
  obtain ⟨m, hm, ⟨attr, hattr, hnames⟩ | ⟨rule, hrule, _, hpaints⟩⟩ := hid
  · exact (hn.elements m hm attr hattr).named id hnames
  · exact .inr (h.paints rule hrule id hpaints)

/-- New definitions of new names, which refer to what is known, keep references grounded. -/
theorem Sound.grounded_of_new (h : p.Sound) (hp : p.Unambiguous) {defs : List Node}
    (hdefs : ∀ n ∈ defs, n ∈ p.nodes ∨ p.Refs n ∧ ∀ id, n.get? "id" = some id → ¬p.Known id) :
    Grounded (Refers defs p.definitions.classes) := by
  refine (h.grounded hp).extend p.Known ?_ ?_
  · rintro a b ⟨n, hn, _, hb⟩
    rcases hdefs n hn with hn | hn
    · exact h.known_of_pointsTo (h.refs_of_mem hn) hb
    · exact h.known_of_pointsTo hn.1 hb
  · rintro a b ha ⟨n, hn, hid, hb⟩
    rcases hdefs n hn with hn | hn
    · exact ⟨n, hn, hid, hb⟩
    · exact absurd ha (hn.2 a hid)

/-! ### Regions -/

theorem regionNode_eq {f g : ClipForest α} (h : f.Grows g) {r s : ClipRegion α}
    (hrs : r.Persists s) (hparent : f.Valid r.parent) : g.regionNode s = f.regionNode r := by
  have hshape : g.shapeNodes s.evenOdd s.shape = f.shapeNodes r.evenOdd r.shape := by
    rw [hrs.evenOdd, hrs.shape]
    cases r.shape <;> simp only [ClipForest.shapeNodes, h.precision]
  rw [ClipForest.regionNode, ClipForest.regionNode, hshape, hrs.id, hrs.parent]
  cases hp : r.parent with
  | none => rfl
  | some i => simp only [h.id_eq (hparent i hp)]

/-- The name of a region that comes last was not known, as long as no two keys have one name. -/
theorem Sound.not_known_region (h : p.Sound) {f : ClipForest α} (hf : f.Ordered)
    (hgrows : p.clips.Grows f) (hinj : Set.InjOn (stableId "clip") f.keys) {r : ClipRegion α}
    (hr : f.regions[p.clips.regions.size]? = some r) : ¬p.Known r.id := by
  rintro (⟨j, s, hs, hid⟩ | hid)
  · obtain ⟨t, ht, hst⟩ := hgrows.kept j s hs
    have hj := ClipForest.lt_size_of_getElem? hs
    have := hf.eq_of_id_eq hinj hr ht (hid ▸ hst.id.symm)
    omega
  · exact (h.kinds r.id (Keyed.contains_iff_mem_keys.1 hid)).ne_clip _ (hf.named _ r hr)

variable {parent : Option Nat} {shape : ClipShape α} {evenOdd : Bool}

theorem Sound.added (h : p.Sound) (hparent : p.clips.Valid parent)
    (hshape : ∀ nodes, shape = .text nodes → ∀ n ∈ nodes, p.Resolves n)
    (hnew : ∀ (i : Nat) (r : ClipRegion α), p.clips.regions[i]? = some r → r.parent = parent →
      r.id ≠ p.clips.regionId parent shape evenOdd) :
    Sound { p with clips := p.clips.added parent shape evenOdd } := by
  have hgrows : p.Grows { p with clips := p.clips.added parent shape evenOdd } :=
    ⟨p.clips.grows_added parent shape evenOdd, .refl _⟩
  have hclips := h.clips.added hparent hnew
  refine ⟨hclips, fun i r hr nodes hnodes n hn => ?_, h.ids, h.kinds, fun id n hn => ?_,
    h.declarations, h.ruleNames, h.paints, fun hq => ?_⟩
  · refine hgrows.resolves ?_
    rcases ClipForest.getElem?_added hr with hr | ⟨rfl, rfl⟩
    · exact h.shapes i r hr nodes hnodes n hn
    · exact hshape nodes hnodes n hn
  · obtain ⟨body, hbody, rfl⟩ := h.bodies id n hn
    exact ⟨body, hgrows.resolves hbody, rfl⟩
  · -- The new region refers to its parent and to what cuts it; nothing refers to it yet.
    refine h.grounded_of_new (hgrows.unambiguous h hq) fun n hn => ?_
    rcases mem_nodes_iff.1 hn with ⟨i, r, hr, rfl⟩ | ⟨id, hn⟩
    · rcases ClipForest.getElem?_added hr with hr' | ⟨rfl, hnewest⟩
      · rw [regionNode_eq hgrows.clips (.refl r) (h.clips.valid hr')]
        exact .inl (mem_nodes_iff.2 (.inl ⟨i, r, hr', rfl⟩))
      · have hpersists : r.Persists r := .refl r
        have hvalid : p.clips.Valid r.parent := by rw [hnewest]; exact hparent
        rw [regionNode_eq hgrows.clips hpersists hvalid]
        refine .inr ⟨refs_regionNode hvalid fun nodes hnodes => ?_, fun id hid => ?_⟩
        · rw [hnewest] at hnodes
          exact hshape nodes hnodes
        · rw [get?_regionNode] at hid
          obtain rfl := Option.some.inj hid
          exact h.not_known_region hclips hgrows.clips hq.regions hr
    · exact .inl (mem_nodes_iff.2 (.inr ⟨id, hn⟩))

/-- Cutting a region by a shape whose text is resolved. -/
theorem Sound.insert (h : p.Sound) (hparent : p.clips.Valid parent)
    (hshape : ∀ nodes, shape = .text nodes → ∀ n ∈ nodes, p.Resolves n) (evenOdd : Bool) :
    Sound { p with clips := (p.clips.insert parent shape evenOdd).2 } ∧
      (p.clips.insert parent shape evenOdd).1 <
        (p.clips.insert parent shape evenOdd).2.regions.size := by
  rcases p.clips.insert_cases parent shape evenOdd with ⟨i, r, hr, -, -, he⟩ | ⟨hnew, he⟩
  · rw [he]
    exact ⟨h, ClipForest.lt_size_of_getElem? hr⟩
  · rw [he]
    exact ⟨h.added hparent hshape hnew, by simp [ClipForest.added]⟩

theorem Sound.insertRectangle (h : p.Sound) (hparent : p.clips.Valid parent) (r : Rectangle α) :
    Sound { p with clips := (p.clips.insertRectangle parent r).2 } ∧
      (p.clips.insertRectangle parent r).1 <
        (p.clips.insertRectangle parent r).2.regions.size := by
  have hshape (r : Rectangle α) : ∀ nodes, ClipShape.rectangle r = .text nodes →
      ∀ n ∈ nodes, p.Resolves n := fun _ e => nomatch e
  unfold ClipForest.insertRectangle
  split
  · next grandparent s _ _ hregion =>
    refine h.insert (fun i hi => ?_) (hshape _) false
    obtain ⟨j, rfl, hj⟩ := Option.bind_eq_some_iff.1 hregion
    exact h.clips.valid hj i hi
  · exact h.insert hparent (hshape r) false

theorem Sound.insertPath (h : p.Sound) (hparent : p.clips.Valid parent) (path : Path α)
    (evenOdd : Bool) :
    Sound { p with clips := (p.clips.insertPath parent path evenOdd).2 } ∧
      (p.clips.insertPath parent path evenOdd).1 <
        (p.clips.insertPath parent path evenOdd).2.regions.size := by
  unfold ClipForest.insertPath
  split
  · exact h.insertRectangle hparent _
  · refine h.insert hparent (fun nodes e => ?_) evenOdd
    cases e

theorem Sound.mark (h : p.Sound) {i : Nat} (hi : i < p.clips.regions.size) :
    Sound { p with clips := p.clips.mark i } := by
  have hgrows : p.Grows { p with clips := p.clips.mark i } := ⟨p.clips.grows_mark i, .refl _⟩
  have hback {j : Nat} {s : ClipRegion α} (hs : (p.clips.mark i).regions[j]? = some s) :=
    hgrows.clips.back (p.clips.mark_size i) hs
  refine ⟨h.clips.mark hi, fun j s hs nodes hnodes n hn => ?_, h.ids, h.kinds, fun id n hn => ?_,
    h.declarations, h.ruleNames, h.paints, fun hq => ?_⟩
  · obtain ⟨r, hr, hrs⟩ := hback hs
    exact hgrows.resolves (h.shapes j r hr nodes (hrs.shape ▸ hnodes) n hn)
  · obtain ⟨body, hbody, rfl⟩ := h.bodies id n hn
    exact ⟨body, hgrows.resolves hbody, rfl⟩
  · -- Marking changes no element of a definition.
    refine h.grounded_of_new (hgrows.unambiguous h hq) fun n hn => .inl ?_
    rcases mem_nodes_iff.1 hn with ⟨j, s, hs, rfl⟩ | ⟨id, hn⟩
    · obtain ⟨r, hr, hrs⟩ := hback hs
      rw [regionNode_eq hgrows.clips hrs (h.clips.valid hr)]
      exact mem_nodes_iff.2 (.inl ⟨j, r, hr, rfl⟩)
    · exact mem_nodes_iff.2 (.inr ⟨id, hn⟩)

/-! ### Definitions and rules -/

omit [Scalar α] in
theorem contains_insertNew (d : Definitions) (id : String) (n : Node) :
    (d.insertNew id n).contains id = true := by
  unfold Definitions.insertNew
  split_ifs with hcontains
  · exact hcontains
  · rw [Definitions.contains, Keyed.contains_iff_mem_keys, Keyed.keys_append]
    exact List.mem_append_right _ (List.mem_singleton_self id)

theorem Sound.not_known (h : p.Sound) (hid : IsDefinitionId id)
    (hnew : ¬p.definitions.contains id = true) : ¬p.Known id := by
  rintro (⟨i, r, hr, e⟩ | hknown)
  · exact h.ne_id hr hid e.symm
  · exact hnew hknown

theorem Sound.insertNew (h : p.Sound) (hid : IsDefinitionId id) (hn : p.Resolves n) :
    Sound { p with definitions := p.definitions.insertNew id n } := by
  have hgrows : p.Grows { p with definitions := p.definitions.insertNew id n } :=
    ⟨.refl _, p.definitions.grows_insertNew id n⟩
  unfold Definitions.insertNew at hgrows ⊢
  split_ifs at hgrows ⊢ with hcontains
  · exact h
  · have hkey : id ∉ Keyed.keys p.definitions.nodes := fun hmem =>
      hcontains (Keyed.contains_iff_mem_keys.2 hmem)
    have hbodies (id' : String) (n' : Node)
        (hmem : (id', n') ∈ p.definitions.nodes ++ [(id, n.set "id" id)]) :
        (id', n') ∈ p.definitions.nodes ∨ id' = id ∧ n' = n.set "id" id := by
      simpa using hmem
    refine ⟨h.clips,
      fun i r hr nodes hnodes m hm => hgrows.resolves (h.shapes i r hr nodes hnodes m hm),
      ?_, fun id' hid' => ?_, fun id' n' hmem => ?_, h.declarations, h.ruleNames,
      fun rule hrule id' hid' => hgrows.contains (h.paints rule hrule id' hid'), fun hq => ?_⟩
    · show (Keyed.keys (p.definitions.nodes ++ [(id, n.set "id" id)])).Nodup
      rw [Keyed.keys_append]
      exact List.Nodup.append h.ids (List.nodup_singleton id) (List.disjoint_singleton.2 hkey)
    · change id' ∈ Keyed.keys (p.definitions.nodes ++ [(id, n.set "id" id)]) at hid'
      rw [Keyed.keys_append, List.mem_append] at hid'
      rcases hid' with hid' | hid'
      · exact h.kinds id' hid'
      · rw [List.mem_singleton.1 hid']
        exact hid
    · rcases hbodies id' n' hmem with hmem | ⟨rfl, rfl⟩
      · obtain ⟨body, hbody, rfl⟩ := h.bodies id' n' hmem
        exact ⟨body, hgrows.resolves hbody, rfl⟩
      · exact ⟨n, hgrows.resolves hn, rfl⟩
    · -- The new definition refers to what is there; nothing refers to it yet.
      refine h.grounded_of_new (hgrows.unambiguous h hq) fun n' hn' => ?_
      rcases mem_nodes_iff.1 hn' with ⟨i, r, hr, rfl⟩ | ⟨id', hmem⟩
      · exact .inl (mem_nodes_iff.2 (.inl ⟨i, r, hr, rfl⟩))
      · rcases hbodies id' n' hmem with hmem | ⟨rfl, rfl⟩
        · exact .inl (mem_nodes_iff.2 (.inr ⟨id', hmem⟩))
        · refine .inr ⟨hn.refs_set id', fun a ha => ?_⟩
          rw [Node.get?, Node.set, Keyed.get?_insert_self] at ha
          obtain rfl := Option.some.inj ha
          exact h.not_known hid hcontains

/-- A rule of a new name is not the class of any text that is there. -/
theorem Sound.refers_of_newRule (h : p.Sound) {rule : String × String} (hnew : ¬p.HasRule rule.2)
    {a b : String} (hab : Refers p.nodes (p.definitions.classes ++ [rule]) a b) :
    Refers p.nodes p.definitions.classes a b := by
  obtain ⟨n, hn, ha, m, hm, hb⟩ := hab
  refine ⟨n, hn, ha, m, hm, hb.imp_right ?_⟩
  rintro ⟨rule', hrule, ⟨attr, hattr, hclass⟩, hpaints⟩
  rcases List.mem_append.1 hrule with hrule | hrule
  · exact ⟨rule', hrule, ⟨attr, hattr, hclass⟩, hpaints⟩
  · rw [List.mem_singleton.1 hrule] at hclass
    exact absurd (((h.refs_of_mem hn).elements m hm attr hattr).styled _ hclass) hnew

/-- A rule that is painted with definitions that are there, if any. -/
theorem Sound.styleClass (h : p.Sound) {css : String}
    (hpaints : ∀ id, PaintsWith css id → p.definitions.contains id = true) :
    Sound { p with definitions := (p.definitions.styleClass css).2 } ∧
      (Pool.mk p.clips (p.definitions.styleClass css).2).HasRule
        (p.definitions.styleClass css).1 := by
  have hgrows : p.Grows { p with definitions := (p.definitions.styleClass css).2 } :=
    ⟨.refl _, p.definitions.grows_styleClass css⟩
  unfold Definitions.styleClass at hgrows ⊢
  split at hgrows
  · next name hname => exact ⟨h, (css, name), Keyed.mem_of_get? hname, rfl⟩
  · next hnone =>
    have hkey : css ∉ Keyed.keys p.definitions.classes := Keyed.get?_eq_none_iff.1 hnone
    refine ⟨⟨h.clips,
      fun i r hr nodes hnodes m hm => hgrows.resolves (h.shapes i r hr nodes hnodes m hm),
      h.ids, h.kinds, fun id n hn => ?_, ?_, fun rule hrule => ?_, fun rule hrule => ?_,
      fun hq => ?_⟩, (css, _), List.mem_append_right _ (List.mem_singleton_self _), rfl⟩
    · obtain ⟨body, hbody, rfl⟩ := h.bodies id n hn
      exact ⟨body, hgrows.resolves hbody, rfl⟩
    · show (Keyed.keys (p.definitions.classes ++ [(css, stableId "s" css)])).Nodup
      rw [Keyed.keys_append]
      exact List.Nodup.append h.declarations (List.nodup_singleton css)
        (List.disjoint_singleton.2 hkey)
    · rcases List.mem_append.1 hrule with hrule | hrule
      · exact h.ruleNames rule hrule
      · rw [List.mem_singleton.1 hrule]
    · rcases List.mem_append.1 hrule with hrule | hrule
      · exact h.paints rule hrule
      · rw [List.mem_singleton.1 hrule]
        exact hpaints
    · -- A new declaration has a new name, or it would be the declaration of an older rule.
      have hnew : ¬p.HasRule (stableId "s" css) := by
        rintro ⟨old, hold, hname⟩
        have hself : css ∈ Keyed.keys (p.definitions.classes ++ [(css, stableId "s" css)]) := by
          simp
        have hkeys : old.1 = css := by
          refine hq.rules (Keyed.mem_keys_of_mem (List.mem_append_left _ hold)) hself ?_
          rw [← h.ruleNames old hold, hname]
        exact hkey (hkeys ▸ Keyed.mem_keys_of_mem hold)
      exact (h.grounded (hgrows.unambiguous h hq)).mono fun a b => h.refers_of_newRule hnew

end Pool

end PageSvg
