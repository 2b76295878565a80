import Mathlib.Data.List.Sort
import Mathlib.Data.List.SplitBy
import PageSvg.Proofs.Scene.Rendering

/-!
# Sharing attributes keeps what is rendered

`optimize` moves inherited attributes outward in three ways. Each of them keeps the meaning of a
tidy tree under all ambient values, and leaves the tree tidy:

* a run of siblings goes into a transparent group that carries what they have in common
  (`groupRuns`);
* an attribute that all children of a group have with one value goes to the group (`hoist`);
* a group without attributes gives way to its children (`dissolve`).

What makes them safe is that a value moves only from elements that all have it to one element
directly around them, so none of them ends up with a value that was not its own.
-/

namespace PageSvg.Scene

/-- The second tree renders as the first one and is tidy. -/
structure Faithful (n m : Node) : Prop where
  meaning : ∀ a, meaning a m = meaning a n
  tidy : m.Every Node.Tidy

theorem Faithful.refl {n : Node} (h : n.Every Node.Tidy) : Faithful n n := ⟨fun _ => rfl, h⟩

theorem Faithful.trans {l m n : Node} (h : Faithful l m) (h' : Faithful m n) : Faithful l n :=
  ⟨fun a => (h'.meaning a).trans (h.meaning a), h'.tidy⟩

/-! ### Removing attributes -/

section Remove

variable {n : Node} {k : String}

theorem removeAttr_eq_filter {attrs : List (String × String)} (h : (Keyed.keys attrs).Nodup) :
    Node.removeAttr k attrs = attrs.filter fun attr => attr.1 ≠ k := by
  induction attrs with
  | nil => rfl
  | cons attr rest ih =>
    obtain ⟨k', v⟩ := attr
    obtain ⟨hk, hrest⟩ := List.nodup_cons.1 h
    by_cases e : k' = k
    · subst e
      have hrest' : rest.filter (fun attr => attr.1 ≠ k') = rest :=
        List.filter_eq_self.2 fun attr hattr => by
          have hkey := Keyed.mem_keys_of_mem hattr
          simpa using fun e' : attr.1 = k' => hk (e' ▸ hkey)
      rw [Node.removeAttr, if_pos rfl, List.filter_cons_of_neg (by simp), hrest']
    · rw [Node.removeAttr, if_neg e, List.filter_cons_of_pos (by simpa using e), ih hrest]

theorem removeAttr_sublist (attrs : List (String × String)) :
    (Node.removeAttr k attrs).Sublist attrs := by
  induction attrs with
  | nil => exact List.Sublist.refl _
  | cons attr rest ih =>
    obtain ⟨k', v⟩ := attr
    simp only [Node.removeAttr]
    split_ifs
    · exact List.sublist_cons_self _ _
    · exact ih.cons_cons _

/-- An element of a tidy tree stays tidy when it loses attributes. -/
theorem Every.tidy_of_sublist {attrs : List (String × String)} (h : n.Every Node.Tidy)
    (hs : attrs.Sublist n.attrs) : Node.Every Node.Tidy { n with attrs := attrs } :=
  .mk ⟨h.self.nodup.sublist (hs.map Prod.fst), h.self.groupText⟩ h.children

theorem Every.tidy_erase (h : n.Every Node.Tidy) : (n.erase k).Every Node.Tidy :=
  Every.tidy_of_sublist h (removeAttr_sublist n.attrs)

theorem get?_erase_self (h : n.Tidy) : (n.erase k).get? k = none := by
  rw [Node.get?, Keyed.get?_eq_none_iff, Node.erase, removeAttr_eq_filter h.nodup]
  simp [Keyed.keys]

theorem get?_erase_of_ne (h : n.Tidy) {name : String} (hne : name ≠ k) :
    (n.erase k).get? name = n.get? name := by
  refine Keyed.get?_congr (h.nodup.sublist ((removeAttr_sublist _).map Prod.fst)) h.nodup
    fun value => ?_
  simp [Node.erase, removeAttr_eq_filter h.nodup, hne]

theorem ownAttrs_erase (h : n.Tidy) (hk : isInheritable k = true) :
    ownAttrs (n.erase k).attrs = ownAttrs n.attrs := by
  rw [Node.erase, removeAttr_eq_filter h.nodup, ownAttrs, List.filter_filter]
  refine List.filter_congr fun attr _ => ?_
  by_cases e : attr.1 = k <;> simp [e, hk]

/-- An element may lose an inherited attribute where its value is in force anyway. -/
theorem meaning_erase {a b : Ambient} {v : String} (h : n.Tidy) (hk : isInheritable k = true)
    (hv : n.get? k = some v) (hb : b k = some v) (hne : ∀ name, name ≠ k → b name = a name) :
    meaning b (n.erase k) = meaning a n := by
  refine meaning_congr rfl rfl (ownAttrs_erase h hk) ?_ rfl
  refine Ambient.extend_congr (fun name ho => hne name ?_) fun name _ => ?_
  · rintro rfl
    rw [hk] at ho
    cases ho
  · show ((n.erase k).get? name).or (b name) = (n.get? name).or (a name)
    by_cases e : name = k
    · subst e
      rw [get?_erase_self h, hv, hb]
      rfl
    · rw [get?_erase_of_ne h e, hne name e]

end Remove

/-! ### Hoisting -/

section Hoist

/-- The meaning of a group depends on its own attributes and on the meaning of its content. -/
theorem meaning_group_congr {a b : Ambient} {m n : Node} (hm : m.isGroup = true)
    (hn : n.isGroup = true) (hown : ownAttrs m.attrs = ownAttrs n.attrs)
    (hcontent : meaningAll (b.extend m.attrs) m.children =
      meaningAll (a.extend n.attrs) n.children) :
    meaning b m = meaning a n := by
  obtain ⟨tag, attrs, children, text⟩ := m
  obtain ⟨tag', attrs', children', text'⟩ := n
  obtain rfl : tag = "g" := by simpa [Node.isGroup] using hm
  obtain rfl : tag' = "g" := by simpa [Node.isGroup] using hn
  dsimp only at hown hcontent
  simp only [meaning, all_isInheritable_iff, hown, hcontent, if_true]

variable {group : Node} {attr : String × String}

/-- An attribute that a group may take over: it is inherited, and all children have it. -/
structure Shared (group : Node) (attr : String × String) : Prop where
  inheritable : isInheritable attr.1 = true
  everywhere : ∀ c ∈ group.children, c.get? attr.1 = some attr.2

theorem hoistAttr_isGroup (hg : group.isGroup = true) : (hoistAttr group attr).isGroup = true := by
  unfold hoistAttr
  split
  · split_ifs <;> exact hg
  · exact hg

theorem Every.tidy_map_erase {nodes : List Node} (h : ∀ c ∈ nodes, c.Every Node.Tidy)
    (k : String) : ∀ c ∈ nodes.map (·.erase k), c.Every Node.Tidy := by
  intro _ hmem
  obtain ⟨c, hc, rfl⟩ := List.mem_map.1 hmem
  exact Every.tidy_erase (h c hc)

/-- Moving one shared attribute to the group. -/
theorem hoistAttr_faithful (h : group.Every Node.Tidy) (hg : group.isGroup = true)
    (hs : Shared group attr) : Faithful group (hoistAttr group attr) := by
  obtain ⟨k, v⟩ := attr
  have herase (a b : Ambient) (hb : b k = some v) (hne : ∀ name, name ≠ k → b name = a name) :
      meaningAll b (group.children.map (·.erase k)) = meaningAll a group.children :=
    meaningAll_congr fun c hc =>
      meaning_erase (h.children c hc).self hs.inheritable (hs.everywhere c hc) hb hne
  unfold hoistAttr
  split
  · next value hvalue =>
    -- The group has the attribute: its children may go without one of the same value.
    split_ifs with e
    · refine ⟨fun a => meaning_group_congr hg hg rfl ?_,
        .mk ⟨h.self.nodup, h.self.groupText⟩ (Every.tidy_map_erase h.children k)⟩
      refine herase _ _ ?_ fun _ _ => rfl
      change Keyed.get? group.attrs k = some value at hvalue
      rw [Ambient.extend_apply hs.inheritable, hvalue, e]
      rfl
    · exact .refl h
  · next hnone =>
    -- The group gets the attribute, which is not its own but passed on.
    have hk : k ∉ Keyed.keys group.attrs := Keyed.get?_eq_none_iff.1 hnone
    have hset : (group.set k v).attrs = group.attrs ++ [(k, v)] := Keyed.insert_of_notMem hk
    have hnodup : (Keyed.keys (group.attrs ++ [(k, v)])).Nodup := by
      rw [Keyed.keys_append]
      exact List.Nodup.append h.self.nodup (List.nodup_singleton k)
        (List.disjoint_singleton.2 hk)
    have hget (name : String) : Keyed.get? (group.attrs ++ [(k, v)]) name =
        if name = k then some v else Keyed.get? group.attrs name := by
      split_ifs with e
      · rw [Keyed.get?_eq_some_iff hnodup]
        simp [e]
      · exact Keyed.get?_congr hnodup h.self.nodup fun value => by simp [e]
    have htidy : (group.set k v).Tidy := by
      refine ⟨?_, h.self.groupText⟩
      rw [Node.names, hset]
      exact hnodup
    refine ⟨fun a => meaning_group_congr hg hg ?_ ?_,
      .mk ⟨htidy.nodup, htidy.groupText⟩ (Every.tidy_map_erase h.children k)⟩
    · simp [hset, ownAttrs, hs.inheritable]
    · refine herase _ _ ?_ fun name hne => ?_
      · rw [hset, Ambient.extend_apply hs.inheritable, hget, if_pos rfl]
        rfl
      · simp only [hset, Ambient.extend, hget, if_neg hne]

/-- Other shared attributes are still shared after one has been moved. -/
theorem Shared.of_ne {other : String × String} (h : group.Every Node.Tidy)
    (hs : Shared group other) (hne : other.1 ≠ attr.1) : Shared (hoistAttr group attr) other := by
  have herase : ∀ c ∈ group.children.map (·.erase attr.1), c.get? other.1 = some other.2 := by
    intro _ hmem
    obtain ⟨c, hc, rfl⟩ := List.mem_map.1 hmem
    rw [get?_erase_of_ne (h.children c hc).self hne]
    exact hs.everywhere c hc
  refine ⟨hs.inheritable, ?_⟩
  unfold hoistAttr
  split
  · split_ifs
    · exact herase
    · exact hs.everywhere
  · exact herase

theorem foldl_hoistAttr_faithful (attrs : List (String × String)) (h : group.Every Node.Tidy)
    (hg : group.isGroup = true) (hnodup : (Keyed.keys attrs).Nodup)
    (hs : ∀ attr ∈ attrs, Shared group attr) : Faithful group (attrs.foldl hoistAttr group) := by
  induction attrs generalizing group with
  | nil => exact .refl h
  | cons attr rest ih =>
    obtain ⟨hattr, hrest⟩ := List.nodup_cons.1 hnodup
    have hstep := hoistAttr_faithful h hg (hs attr List.mem_cons_self)
    -- What is still to be moved stays shared, as no key comes twice.
    refine hstep.trans (ih hstep.tidy (hoistAttr_isGroup hg) hrest fun other hother => ?_)
    refine Shared.of_ne h (hs other (List.mem_cons_of_mem _ hother)) fun e => hattr ?_
    exact e ▸ Keyed.mem_keys_of_mem hother

end Hoist

/-! ### Keys -/

section Key

variable {n : Node}

theorem inherited_perm (n : Node) :
    (inherited n).Perm (n.attrs.filter fun attr => isInheritable attr.1) :=
  List.mergeSort_perm _ _

theorem mem_inherited {attr : String × String} :
    attr ∈ inherited n ↔ attr ∈ n.attrs ∧ isInheritable attr.1 = true := by
  rw [(inherited_perm n).mem_iff, List.mem_filter]

theorem nodup_keys_inherited (h : n.Tidy) : (Keyed.keys (inherited n)).Nodup := by
  refine ((inherited_perm n).map Prod.fst).nodup_iff.2 ?_
  exact h.nodup.sublist (List.filter_sublist.map Prod.fst)

theorem commonAttrs_nodup {nodes : List Node} (h : ∀ n ∈ nodes, n.Every Node.Tidy) :
    (Keyed.keys (commonAttrs nodes)).Nodup := by
  cases nodes with
  | nil => exact List.nodup_nil
  | cons first rest =>
    exact (nodup_keys_inherited (h first List.mem_cons_self).self).sublist
      (List.filter_sublist.map Prod.fst)

theorem commonAttrs_shared {group : Node} (h : group.Every Node.Tidy) :
    ∀ attr ∈ commonAttrs group.children, Shared group attr := by
  intro attr hattr
  have htidy := h.children
  cases hc : group.children with
  | nil =>
    rw [hc] at hattr
    cases hattr
  | cons first rest =>
    rw [hc] at hattr htidy
    obtain ⟨hfirst, hrest⟩ := List.mem_filter.1 hattr
    obtain ⟨hmem, hinh⟩ := mem_inherited.1 hfirst
    refine ⟨hinh, fun c hcmem => ?_⟩
    rw [hc] at hcmem
    rcases List.mem_cons.1 hcmem with rfl | hcmem
    · exact (Keyed.get?_eq_some_iff (htidy c List.mem_cons_self).self.nodup).2 hmem
    · simpa using List.all_eq_true.1 hrest c hcmem

theorem hoist_faithful {group : Node} (h : group.Every Node.Tidy) (hg : group.isGroup = true) :
    Faithful group (hoist group) := by
  unfold hoist
  split_ifs
  · exact .refl h
  · exact foldl_hoistAttr_faithful _ h hg (commonAttrs_nodup h.children) (commonAttrs_shared h)

end Key

/-! ### Grouping runs -/

section Run

variable {n : Node} {key : List (String × String)} {run : List Node}

theorem withoutAttrs_eq (names : List String) (h : n.Tidy) :
    withoutAttrs names n = { n with attrs := n.attrs.filter fun attr => attr.1 ∉ names } := by
  induction names generalizing n with
  | nil =>
    obtain ⟨tag, attrs, children, text⟩ := n
    simp [withoutAttrs]
  | cons name rest ih =>
    have herase : (n.erase name).Tidy :=
      ⟨h.nodup.sublist ((removeAttr_sublist _).map Prod.fst), h.groupText⟩
    show withoutAttrs rest (n.erase name) = _
    rw [ih herase]
    simp only [Node.erase, removeAttr_eq_filter h.nodup, List.filter_filter]
    congr 1
    refine List.filter_congr fun attr _ => ?_
    simp [Bool.and_comm]

theorem foldl_set_eq (key attrs : List (String × String))
    (h : (Keyed.keys (attrs ++ key)).Nodup) :
    key.foldl (fun g (name, value) => g.set name value) (⟨"g", attrs, [], none⟩ : Node) =
      ⟨"g", attrs ++ key, [], none⟩ := by
  induction key generalizing attrs with
  | nil => simp
  | cons attr rest ih =>
    obtain ⟨k, v⟩ := attr
    have hk : k ∉ Keyed.keys attrs := by
      rw [Keyed.keys_append, List.nodup_append] at h
      exact fun hmem => h.2.2 k hmem k List.mem_cons_self rfl
    have hset : (⟨"g", attrs, [], none⟩ : Node).set k v = ⟨"g", attrs ++ [(k, v)], [], none⟩ := by
      rw [Node.set, Keyed.insert_of_notMem hk]
    show List.foldl _ ((⟨"g", attrs, [], none⟩ : Node).set k v) rest = _
    rw [hset, ih (attrs ++ [(k, v)]) (by simpa using h), List.append_assoc, List.singleton_append]

theorem groupOf_eq (h : (Keyed.keys key).Nodup) :
    groupOf key run = ⟨"g", key, run.map (withoutAttrs (Keyed.keys key)), none⟩ := by
  unfold groupOf
  rw [show ({ tag := "g" } : Node) = ⟨"g", [], [], none⟩ from rfl, foldl_set_eq key [] h]
  rfl

theorem isInheritable_of_groupKey {attr : String × String} (h : attr ∈ groupKey n) :
    isInheritable attr.1 = true := by
  unfold groupKey at h
  split_ifs at h
  · exact (mem_inherited.1 h).2
  · cases h

/-- Where an element has the key of a group, the group carries its inherited attributes. -/
theorem inherited_eq_of_groupKey {attr : String × String} (h : attr ∈ groupKey n) :
    inherited n = groupKey n := by
  unfold groupKey at h ⊢
  split_ifs at h ⊢
  · rfl
  · cases h

theorem groupKey_nodup (h : n.Tidy) : (Keyed.keys (groupKey n)).Nodup := by
  unfold groupKey
  split_ifs
  · exact nodup_keys_inherited h
  · exact List.nodup_nil

theorem ownAttrs_withoutAttrs (h : n.Tidy) (hkey : inherited n = key) :
    (withoutAttrs (Keyed.keys key) n).attrs = ownAttrs n.attrs := by
  rw [withoutAttrs_eq _ h, ownAttrs]
  refine List.filter_congr fun attr hattr => ?_
  cases hinh : isInheritable attr.1 with
  | true =>
    have hmem : attr.1 ∈ Keyed.keys key :=
      Keyed.mem_keys_of_mem (hkey ▸ mem_inherited.2 ⟨hattr, hinh⟩)
    simpa using hmem
  | false =>
    have hmem : attr.1 ∉ Keyed.keys key := by
      intro hmem
      obtain ⟨other, hother, e⟩ := List.mem_map.1 hmem
      rw [← hkey] at hother
      have := (mem_inherited.1 hother).2
      rw [e, hinh] at this
      cases this
    simpa using hmem

/-- An element of a run is the same inside the group, which carries its inherited attributes. -/
theorem meaning_withoutAttrs (a : Ambient) (h : n.Tidy) (hkey : inherited n = key) :
    meaning (a.extend key) (withoutAttrs (Keyed.keys key) n) = meaning a n := by
  have hown := ownAttrs_withoutAttrs h hkey
  have hrest : withoutAttrs (Keyed.keys key) n = { n with attrs := ownAttrs n.attrs } := by
    rw [withoutAttrs_eq _ h] at hown ⊢
    exact congrArg (fun attrs => { n with attrs := attrs }) hown
  rw [hrest]
  refine meaning_congr rfl rfl (by simp [ownAttrs]) ?_ rfl
  refine Ambient.extend_congr (fun name ho => ?_) fun name hi => ?_
  · simp [Ambient.extend, ho]
  · -- What is left on the element hides nothing that the group carries.
    have hnone : Keyed.get? (ownAttrs n.attrs) name = none := by
      rw [Keyed.get?_eq_none_iff]
      intro hmem
      obtain ⟨attr, hattr, rfl⟩ := List.mem_map.1 hmem
      simp [ownAttrs, hi] at hattr
    have hsame : Keyed.get? key name = Keyed.get? n.attrs name := by
      subst hkey
      refine Keyed.get?_congr (nodup_keys_inherited h) h.nodup fun value => ?_
      simp [mem_inherited, hi]
    rw [hnone, Ambient.extend_apply hi, hsame]
    rfl

theorem groupOf_faithful (hn : (Keyed.keys key).Nodup)
    (hinh : ∀ attr ∈ key, isInheritable attr.1 = true)
    (hrun : ∀ n ∈ run, n.Every Node.Tidy ∧ inherited n = key) :
    (∀ a, meaning a (groupOf key run) = meaningAll a run) ∧
      (groupOf key run).Every Node.Tidy := by
  rw [groupOf_eq hn]
  constructor
  · intro a
    rw [meaning_transparent a (by simpa [ownAttrs, List.filter_eq_nil_iff] using hinh)]
    exact meaningAll_congr fun n hmem => meaning_withoutAttrs a (hrun n hmem).1.self (hrun n hmem).2
  · refine .mk ⟨hn, fun _ => rfl⟩ ?_
    intro _ hc
    obtain ⟨n, hmem, rfl⟩ := List.mem_map.1 hc
    rw [withoutAttrs_eq _ (hrun n hmem).1.self]
    exact Every.tidy_of_sublist (hrun n hmem).1 List.filter_sublist

/-- All elements of a run have the key of its first one. -/
theorem groupKey_eq_of_mem_run {nodes : List Node} {first : Node} {rest : List Node}
    (h : first :: rest ∈ nodes.splitBy fun a b => groupKey a == groupKey b) :
    ∀ n ∈ first :: rest, groupKey n = groupKey first := by
  have hchain := List.isChain_of_mem_splitBy h
  have htrans : IsTrans Node fun m n => (groupKey m == groupKey n) = true :=
    ⟨fun _ _ _ h h' => by simp_all⟩
  have hpair := List.isChain_iff_pairwise.1 hchain
  intro n hmem
  rcases List.mem_cons.1 hmem with rfl | hmem
  · rfl
  · exact (beq_iff_eq.1 ((List.pairwise_cons.1 hpair).1 n hmem)).symm

/-- Wrapping a run, in a group or not at all. -/
theorem wrapRun_faithful (minRun : Nat) {nodes : List Node}
    (h : run ∈ nodes.splitBy fun a b => groupKey a == groupKey b)
    (ht : ∀ n ∈ run, n.Every Node.Tidy) :
    (∀ a, meaningAll a (wrapRun minRun run) = meaningAll a run) ∧
      ∀ n ∈ wrapRun minRun run, n.Every Node.Tidy := by
  cases run with
  | nil => exact ⟨fun _ => rfl, ht⟩
  | cons first rest =>
    simp only [wrapRun]
    split_ifs with hshort
    · exact ⟨fun _ => rfl, ht⟩
    · -- A key that is not empty consists of all inherited attributes of each element.
      have hne : groupKey first ≠ [] := fun e => hshort (by simp [e])
      obtain ⟨attr, hattr⟩ := List.exists_mem_of_ne_nil _ hne
      have hrun : ∀ n ∈ first :: rest, n.Every Node.Tidy ∧ inherited n = groupKey first := by
        intro n hmem
        have hkey := groupKey_eq_of_mem_run h n hmem
        rw [← hkey] at hattr ⊢
        exact ⟨ht n hmem, inherited_eq_of_groupKey hattr⟩
      have hgroup := groupOf_faithful (groupKey_nodup (ht first List.mem_cons_self).self)
        (fun attr => isInheritable_of_groupKey) hrun
      exact ⟨fun a => by simpa [meaningAll] using hgroup.1 a, by simpa using hgroup.2⟩

theorem groupRuns_faithful (minRun : Nat) (h : n.Every Node.Tidy) :
    Faithful n (groupRuns minRun n) := by
  unfold groupRuns
  split_ifs
  · exact .refl h
  · -- The runs are all children in their order, so each run may be wrapped on its own.
    set runs := n.children.splitBy fun a b => groupKey a == groupKey b with hruns
    have hflat : runs.flatten = n.children := List.flatten_splitBy _ _
    have hwrap : ∀ run ∈ runs, (∀ a, meaningAll a (wrapRun minRun run) = meaningAll a run) ∧
        ∀ n ∈ wrapRun minRun run, n.Every Node.Tidy := by
      intro run hrun
      refine wrapRun_faithful minRun hrun fun c hc => h.children c ?_
      rw [← hflat]
      exact List.mem_flatten_of_mem hrun hc
    refine ⟨fun a => meaning_congr rfl rfl rfl rfl ?_, .mk ⟨h.self.nodup, h.self.groupText⟩ ?_⟩
    · simp only [meaningAll_eq_flatMap, List.flatMap_assoc] at hwrap ⊢
      rw [List.flatMap_congr fun run hrun => (hwrap run hrun).1 _, ← hflat,
        List.flatten_eq_flatMap, List.flatMap_assoc]
      rfl
    · intro c hc
      obtain ⟨run, hrun, hc⟩ := List.mem_flatMap.1 hc
      exact (hwrap run hrun).2 c hc

end Run

/-! ### Dissolving groups -/

theorem meaningAll_unwrapped (a : Ambient) {n : Node} (h : n.Tidy) :
    meaningAll a (unwrapped n) = meaning a n := by
  unfold unwrapped
  split_ifs with hbare
  · obtain ⟨tag, attrs, children, text⟩ := n
    simp only [Node.isGroup, Bool.and_eq_true, beq_iff_eq, List.isEmpty_iff] at hbare
    obtain ⟨rfl, rfl⟩ := hbare
    obtain rfl : text = none := h.groupText rfl
    rw [meaning_transparent a rfl, Ambient.extend_nil]
  · simp [meaningAll]

theorem dissolve_faithful {n : Node} (h : n.Every Node.Tidy) : Faithful n (dissolve n) := by
  refine ⟨fun a => meaning_congr rfl rfl rfl rfl ?_, .mk ⟨h.self.nodup, h.self.groupText⟩ ?_⟩
  · generalize a.extend n.attrs = a
    rw [dissolve, meaningAll_eq_flatMap, meaningAll_eq_flatMap, List.flatMap_assoc]
    refine List.flatMap_congr fun c hc => ?_
    rw [← meaningAll_eq_flatMap, meaningAll_unwrapped a (h.children c hc).self]
  · intro m hm
    obtain ⟨c, hc, hm⟩ := List.mem_flatMap.1 hm
    unfold unwrapped at hm
    split_ifs at hm
    · exact (h.children c hc).children m hm
    · rw [List.mem_singleton.1 hm]
      exact h.children c hc

/-! ### Whole trees -/

theorem rearrange_faithful (minRun : Nat) {n : Node} (h : n.Every Node.Tidy) :
    Faithful n (rearrange minRun n) := by
  have hruns := groupRuns_faithful minRun h
  have hhoist : Faithful n
      (if (groupRuns minRun n).isGroup then hoist (groupRuns minRun n)
        else groupRuns minRun n) := by
    split_ifs with hgroup
    · exact hruns.trans (hoist_faithful hruns.tidy hgroup)
    · exact hruns
  unfold rearrange
  split_ifs
  · exact .refl h
  · exact hhoist.trans (dissolve_faithful hhoist.tidy)

theorem optimizeAll_eq_map (minRun : Nat) (nodes : List Node) :
    optimizeAll minRun nodes = nodes.map (optimize minRun) := by
  induction nodes with
  | nil => rfl
  | cons n rest ih => rw [optimizeAll, ih, List.map_cons]

theorem optimize_eq (minRun : Nat) (n : Node) :
    optimize minRun n =
      rearrange minRun { n with children := n.children.map (optimize minRun) } := by
  obtain ⟨tag, attrs, children, text⟩ := n
  rw [optimize, optimizeAll_eq_map]

theorem optimize_faithful (minRun : Nat) {n : Node} (h : n.Every Node.Tidy) :
    Faithful n (optimize minRun n) := by
  induction h with
  | @mk n htidy hchildren ih =>
    have hbelow : Faithful n { n with children := n.children.map (optimize minRun) } := by
      refine ⟨fun a => meaning_congr rfl rfl rfl rfl ?_, .mk ⟨htidy.nodup, htidy.groupText⟩ ?_⟩
      · exact meaningAll_congr fun c hc => (ih c hc).meaning _
      · intro _ hmem
        obtain ⟨c, hc, rfl⟩ := List.mem_map.1 hmem
        exact (ih c hc).tidy
    rw [optimize_eq]
    exact hbelow.trans (rearrange_faithful minRun hbelow.tidy)

/-- **Sharing attributes changes nothing that is rendered**: whatever values surround a tidy tree,
its elements keep their order, tags, texts, own attributes and values in force. The tree also stays
tidy. -/
theorem meaning_optimize (minRun : Nat) (a : Ambient) {n : Node} (h : n.Every Node.Tidy) :
    meaning a (optimize minRun n) = meaning a n ∧ (optimize minRun n).Every Node.Tidy :=
  ⟨(optimize_faithful minRun h).meaning a, (optimize_faithful minRun h).tidy⟩

/-- Three rectangles are grouped by their fill, and a group inside a clipped one gives its stroke to
it. -/
theorem meaning_optimize_run_and_group :
    let rect (fill : String) : Node := ⟨"rect", [("width", "1"), ("fill", fill)], [], none⟩
    let line : Node := ⟨"g", [("stroke", "#00f")], [⟨"path", [("d", "M0 0H1")], [], none⟩], none⟩
    let clipped : Node := ⟨"g", [("clip-path", "url(#c)"), ("fill", "none")], [line, line], none⟩
    let content : Node :=
      ⟨"g", [("id", "content")], [rect "#f00", rect "#f00", rect "#f00", clipped], none⟩
    content.Every Node.Tidy ∧
      meaning (fun _ => none) (optimize 3 content) = meaning (fun _ => none) content ∧
      (optimize 3 content).Every Node.Tidy := by
  intro rect line clipped content
  have hleaf (tag : String) (attrs : List (String × String)) (h : (Keyed.keys attrs).Nodup) :
      Node.Every Node.Tidy ⟨tag, attrs, [], none⟩ :=
    .mk ⟨h, fun _ => rfl⟩ (by simp)
  have hline : line.Every Node.Tidy :=
    .mk ⟨by decide, fun _ => rfl⟩ (by simpa [line] using hleaf _ _ (by decide))
  have hclipped : clipped.Every Node.Tidy :=
    .mk ⟨by decide, fun _ => rfl⟩ (by simpa [clipped] using hline)
  have hrect : (rect "#f00").Every Node.Tidy := hleaf _ _ (by decide)
  have h : content.Every Node.Tidy :=
    .mk ⟨by decide, fun _ => rfl⟩ (by simpa [content] using ⟨hrect, hclipped⟩)
  exact ⟨h, meaning_optimize 3 _ h⟩

end PageSvg.Scene
