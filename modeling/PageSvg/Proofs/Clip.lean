import Mathlib.Data.Set.Function
import PageSvg.Proofs.Canvas.Growth
import PageSvg.Proofs.Scene.Identifier

/-!
# The forest of clip regions

Parents come before their regions, a region is named by its key, no region comes up twice, and what
lies around a used region is used. As long as no two keys have one name, regions of one name are
the same region.
-/

namespace PageSvg.ClipForest

variable {α : Type} {f g : ClipForest α} {i j : Nat} {r s : ClipRegion α} {parent : Option Nat}
  {shape : ClipShape α} {evenOdd : Bool}

/-! ### Places -/

/-- A region that there is, or none. -/
def Valid (f : ClipForest α) (region : Option Nat) : Prop :=
  ∀ i, region = some i → i < f.regions.size

theorem lt_size_of_getElem? (h : f.regions[i]? = some r) : i < f.regions.size :=
  (Array.getElem?_eq_some_iff.1 h).1

theorem getElem?_of_lt_size (h : i < f.regions.size) : ∃ r, f.regions[i]? = some r :=
  ⟨_, Array.getElem?_eq_getElem h⟩

theorem id_of_getElem? (h : f.regions[i]? = some r) : f.id i = r.id := by
  simp [ClipForest.id, get?, h]

theorem Grows.size_le (h : f.Grows g) : f.regions.size ≤ g.regions.size := by
  by_contra hlt
  obtain ⟨r, hr⟩ := getElem?_of_lt_size (Nat.lt_of_not_le hlt)
  obtain ⟨s, hs, _⟩ := h.kept _ r hr
  exact absurd (lt_size_of_getElem? hs) (lt_irrefl _)

theorem Grows.valid (h : f.Grows g) (hp : f.Valid parent) : g.Valid parent :=
  fun i hi => (hp i hi).trans_le h.size_le

theorem Grows.id_eq (h : f.Grows g) (hi : i < f.regions.size) : g.id i = f.id i := by
  obtain ⟨r, hr⟩ := getElem?_of_lt_size hi
  obtain ⟨s, hs, hrs⟩ := h.kept i r hr
  rw [id_of_getElem? hr, id_of_getElem? hs, hrs.id]

/-- In a forest that has not become larger, each region was there before. -/
theorem Grows.back (h : f.Grows g) (hsize : g.regions.size = f.regions.size)
    (hs : g.regions[i]? = some s) : ∃ r, f.regions[i]? = some r ∧ r.Persists s := by
  obtain ⟨r, hr⟩ := getElem?_of_lt_size (hsize ▸ lt_size_of_getElem? hs : i < f.regions.size)
  obtain ⟨t, ht, hrt⟩ := h.kept i r hr
  obtain rfl : t = s := Option.some.inj (ht.symm.trans hs)
  exact ⟨r, hr, hrt⟩

/-! ### The walk that marks -/

theorem markGo_size (regions : Array (ClipRegion α)) (fuel : Nat) (start : Option Nat) :
    (mark.go regions fuel start).size = regions.size := by
  fun_induction mark.go regions fuel start with
  | case5 regions fuel j region _ _ ih => rw [ih, Array.size_setIfInBounds]
  | _ => rfl

/-- Parents come before the regions that are cut out of them. -/
def ParentsBefore (regions : Array (ClipRegion α)) : Prop :=
  ∀ (i : Nat) (r : ClipRegion α), regions[i]? = some r → ∀ j, r.parent = some j → j < i

/-- The parent of a region in use is in use, or it is the one place that is still to be marked. -/
def UpwardBut (regions : Array (ClipRegion α)) (missing : Option Nat) : Prop :=
  ∀ (i : Nat) (r : ClipRegion α), regions[i]? = some r → r.referenced = true →
    ∀ j, r.parent = some j → ∃ s, regions[j]? = some s ∧ (s.referenced = true ∨ missing = some j)

theorem UpwardBut.around {regions : Array (ClipRegion α)} (h : UpwardBut regions none)
    (hr : regions[i]? = some r) (hreferenced : r.referenced = true) (hj : r.parent = some j) :
    ∃ s, regions[j]? = some s ∧ s.referenced = true := by
  obtain ⟨s, hs, hs' | hmissing⟩ := h i r hr hreferenced j hj
  · exact ⟨s, hs, hs'⟩
  · cases hmissing

section Step

variable {regions : Array (ClipRegion α)} {k : Nat} {region : ClipRegion α}

theorem getElem?_marked (hk : regions[k]? = some region)
    (hr : (regions.setIfInBounds k { region with referenced := true })[i]? = some r) :
    i = k ∧ r = { region with referenced := true } ∨ i ≠ k ∧ regions[i]? = some r := by
  by_cases hik : i = k
  · subst hik
    rw [Array.getElem?_setIfInBounds_self_of_lt (Array.getElem?_eq_some_iff.1 hk).1] at hr
    exact .inl ⟨rfl, (Option.some.inj hr).symm⟩
  · rw [Array.getElem?_setIfInBounds_ne (Ne.symm hik)] at hr
    exact .inr ⟨hik, hr⟩

theorem marked_getElem? (hk : regions[k]? = some region) (hr : regions[i]? = some r) :
    ∃ s, (regions.setIfInBounds k { region with referenced := true })[i]? = some s ∧
      (i = k ∨ r.referenced = true → s.referenced = true) := by
  by_cases hik : i = k
  · subst hik
    exact ⟨_, Array.getElem?_setIfInBounds_self_of_lt (Array.getElem?_eq_some_iff.1 hk).1,
      fun _ => rfl⟩
  · refine ⟨r, ?_, fun h => h.resolve_left hik⟩
    rw [Array.getElem?_setIfInBounds_ne (Ne.symm hik), hr]

theorem ParentsBefore.marked (h : ParentsBefore regions) (hk : regions[k]? = some region) :
    ParentsBefore (regions.setIfInBounds k { region with referenced := true }) := by
  intro i r hr j hj
  rcases getElem?_marked hk hr with ⟨rfl, rfl⟩ | ⟨_, hr⟩
  · exact h i region hk j hj
  · exact h i r hr j hj

/-- A step of the walk moves the missing place to the parent. -/
theorem UpwardBut.marked (h : UpwardBut regions (some k)) (hparents : ParentsBefore regions)
    (hk : regions[k]? = some region) :
    UpwardBut (regions.setIfInBounds k { region with referenced := true }) region.parent := by
  intro i r hr hreferenced j hj
  rcases getElem?_marked hk hr with ⟨rfl, rfl⟩ | ⟨_, hr⟩
  · have hji : j < i := hparents i region hk j hj
    have hsize : i < regions.size := (Array.getElem?_eq_some_iff.1 hk).1
    obtain ⟨t, ht, _⟩ := marked_getElem? hk (Array.getElem?_eq_getElem (hji.trans hsize))
    exact ⟨t, ht, .inr hj⟩
  · obtain ⟨s, hs, hs'⟩ := h i r hr hreferenced j hj
    obtain ⟨t, ht, hmarks⟩ := marked_getElem? hk hs
    exact ⟨t, ht, .inl (hmarks (hs'.symm.imp_left fun e => (Option.some.inj e).symm))⟩

end Step

/-- After the walk nothing is missing. Each step goes to an earlier region, so as much fuel as
there are regions lasts. -/
theorem UpwardBut.markGo (regions : Array (ClipRegion α)) (fuel : Nat) (start : Option Nat)
    (hfuel : ∀ i, start = some i → i < fuel) (hparents : ParentsBefore regions)
    (hup : UpwardBut regions start) : UpwardBut (mark.go regions fuel start) none := by
  -- Where the walk ends, the place it has come to is not missing after all.
  have hnothing {regions : Array (ClipRegion α)} {start : Option Nat}
      (hup : UpwardBut regions start)
      (hdone : ∀ j s, start = some j → regions[j]? = some s → s.referenced = true) :
      UpwardBut regions none := by
    intro i r hr hreferenced j hj
    obtain ⟨s, hs, hs' | hstart⟩ := hup i r hr hreferenced j hj
    · exact ⟨s, hs, .inl hs'⟩
    · exact ⟨s, hs, .inl (hdone j s hstart hs)⟩
  fun_induction mark.go regions fuel start with
  | case1 regions start =>
    exact hnothing hup fun j _ hstart _ => absurd (hfuel j hstart) (Nat.not_lt_zero j)
  | case2 regions fuel => exact hup
  | case3 regions fuel k hnone =>
    refine hnothing hup fun j s hstart hs => ?_
    cases hstart
    rw [hnone] at hs
    cases hs
  | case4 regions fuel k region hregion hmarked =>
    refine hnothing hup fun j s hstart hs => ?_
    cases hstart
    obtain rfl := Option.some.inj (hregion.symm.trans hs)
    exact hmarked
  | case5 regions fuel k region hregion hmarked ih =>
    refine ih (fun p hp => ?_) (hparents.marked hregion) (hup.marked hparents hregion)
    exact (hparents k region hregion p hp).trans_le (Nat.le_of_lt_succ (hfuel k rfl))

theorem mark_size (f : ClipForest α) (i : Nat) : (f.mark i).regions.size = f.regions.size :=
  markGo_size _ _ _

/-- Marking changes no name. -/
theorem id_mark [Scalar α] (f : ClipForest α) (i : Nat) : (f.mark i).id i = f.id i := by
  by_cases hi : i < f.regions.size
  · exact (f.grows_mark i).id_eq hi
  · have hmarked : ¬ i < (f.mark i).regions.size := fun h => hi (f.mark_size i ▸ h)
    rw [ClipForest.id, ClipForest.id, get?, get?, Array.getElem?_eq_none (not_lt.1 hi),
      Array.getElem?_eq_none (not_lt.1 hmarked)]

/-! ### Keys -/

variable [Scalar α]

/-- What the name of a region is a digest of. -/
def regionKey (f : ClipForest α) (parent : Option Nat) (shape : ClipShape α) (evenOdd : Bool) :
    String :=
  (parent.map f.id).getD "" ++ "|" ++ f.describe shape ++ "|" ++
    (if evenOdd then "evenodd" else "nonzero")

theorem regionId_eq (f : ClipForest α) (parent : Option Nat) (shape : ClipShape α)
    (evenOdd : Bool) : f.regionId parent shape evenOdd =
      stableId "clip" (f.regionKey parent shape evenOdd) := rfl

/-- The keys of the regions. -/
def keys (f : ClipForest α) : Set String :=
  {key | ∃ (i : Nat) (r : ClipRegion α), f.regions[i]? = some r ∧
    f.regionKey r.parent r.shape r.evenOdd = key}

/-- What holds of the regions of a page at any time. -/
structure Ordered (f : ClipForest α) : Prop where
  parent : ParentsBefore f.regions
  named : ∀ (i : Nat) (r : ClipRegion α), f.regions[i]? = some r →
    r.id = f.regionId r.parent r.shape r.evenOdd
  distinct : ∀ (i j : Nat) (r s : ClipRegion α), f.regions[i]? = some r → f.regions[j]? = some s →
    r.parent = s.parent → r.id = s.id → i = j
  upward : UpwardBut f.regions none

theorem Ordered.valid (h : f.Ordered) (hr : f.regions[i]? = some r) : f.Valid r.parent :=
  fun j hj => (h.parent i r hr j hj).trans (lt_size_of_getElem? hr)

/-! ### Growing forests -/

/-- Keys stay the same. -/
theorem Grows.regionKey_eq (h : f.Grows g) (hp : f.Valid parent) :
    g.regionKey parent shape evenOdd = f.regionKey parent shape evenOdd := by
  have hshape : g.describe shape = f.describe shape := by
    cases shape <;> simp only [describe, h.precision]
  have hparent : parent.map g.id = parent.map f.id := by
    cases parent with
    | none => rfl
    | some i => exact congrArg some (h.id_eq (hp i rfl))
  rw [regionKey, regionKey, hshape, hparent]

theorem Grows.keys_subset (hf : f.Ordered) (h : f.Grows g) : f.keys ⊆ g.keys := by
  rintro key ⟨i, r, hr, rfl⟩
  obtain ⟨s, hs, hrs⟩ := h.kept i r hr
  refine ⟨i, s, hs, ?_⟩
  rw [hrs.parent, hrs.shape, hrs.evenOdd, h.regionKey_eq (hf.valid hr)]

/-! ### New regions -/

/-- The forest with a region added that the shape cuts out of the parent. -/
def added (f : ClipForest α) (parent : Option Nat) (shape : ClipShape α) (evenOdd : Bool) :
    ClipForest α :=
  { f with
    regions := f.regions.push
      { id := f.regionId parent shape evenOdd, parent, shape, evenOdd } }

/-- Inserting gives the region of the name that is there already, or a new one at the end. -/
theorem insert_cases (f : ClipForest α) (parent : Option Nat) (shape : ClipShape α)
    (evenOdd : Bool) :
    (∃ (i : Nat) (r : ClipRegion α), f.regions[i]? = some r ∧ r.parent = parent ∧
      r.id = f.regionId parent shape evenOdd ∧ f.insert parent shape evenOdd = (i, f)) ∨
    ((∀ (i : Nat) (r : ClipRegion α), f.regions[i]? = some r → r.parent = parent →
        r.id ≠ f.regionId parent shape evenOdd) ∧
      f.insert parent shape evenOdd = (f.regions.size, f.added parent shape evenOdd)) := by
  unfold insert
  dsimp only
  split
  · next i hi =>
    obtain ⟨hlt, hfound, -⟩ := Array.findIdx?_eq_some_iff_getElem.1 hi
    rw [Bool.and_eq_true, beq_iff_eq, beq_iff_eq] at hfound
    exact .inl ⟨i, _, Array.getElem?_eq_getElem hlt, hfound.1, hfound.2, rfl⟩
  · next hnone =>
    refine .inr ⟨fun i r hr hparent hid => ?_, rfl⟩
    have hmem : r ∈ f.regions := Array.mem_iff_getElem?.2 ⟨i, hr⟩
    have hnot := Array.findIdx?_eq_none_iff.1 hnone r hmem
    simp [hparent, hid] at hnot

theorem grows_added (f : ClipForest α) (parent : Option Nat) (shape : ClipShape α)
    (evenOdd : Bool) : f.Grows (f.added parent shape evenOdd) := by
  refine ⟨rfl, fun i r hr => ⟨r, ?_, .refl r⟩⟩
  obtain ⟨hi, rfl⟩ := Array.getElem?_eq_some_iff.1 hr
  exact Array.getElem?_push_lt hi

theorem getElem?_added (h : (f.added parent shape evenOdd).regions[i]? = some r) :
    f.regions[i]? = some r ∨ i = f.regions.size ∧
      r = { id := f.regionId parent shape evenOdd, parent, shape, evenOdd } := by
  rw [added, Array.getElem?_push] at h
  split_ifs at h with hi
  · exact .inr ⟨hi, (Option.some.inj h).symm⟩
  · exact .inl h

theorem size_insertPath_le (f : ClipForest α) (parent : Option Nat) (path : Path α)
    (evenOdd : Bool) : (f.insertPath parent path evenOdd).2.regions.size ≤ f.regions.size + 1 := by
  have hinsert (parent : Option Nat) (shape : ClipShape α) (evenOdd : Bool) :
      (f.insert parent shape evenOdd).2.regions.size ≤ f.regions.size + 1 := by
    rcases f.insert_cases parent shape evenOdd with ⟨_, _, -, -, -, e⟩ | ⟨_, e⟩
    · rw [e]
      exact Nat.le_succ _
    · simp [e, added]
  unfold insertPath insertRectangle
  split
  · split
    · exact hinsert ..
    · exact hinsert ..
  · exact hinsert ..

theorem Ordered.added (h : f.Ordered) (hp : f.Valid parent)
    (hnew : ∀ (i : Nat) (r : ClipRegion α), f.regions[i]? = some r → r.parent = parent →
      r.id ≠ f.regionId parent shape evenOdd) : (f.added parent shape evenOdd).Ordered := by
  have hgrows := f.grows_added parent shape evenOdd
  refine ⟨fun i r hr j hj => ?_, fun i r hr => ?_, fun i j r s hr hs hparent hid => ?_,
    fun i r hr hreferenced j hj => ?_⟩
  · rcases getElem?_added hr with hr | ⟨rfl, rfl⟩
    · exact h.parent i r hr j hj
    · exact hp j hj
  · rcases getElem?_added hr with hr | ⟨rfl, rfl⟩
    · rw [h.named i r hr, regionId_eq, regionId_eq, hgrows.regionKey_eq (h.valid hr)]
    · exact congrArg (stableId "clip") (hgrows.regionKey_eq hp).symm
  · rcases getElem?_added hr with hr | ⟨rfl, rfl⟩
    · rcases getElem?_added hs with hs | ⟨rfl, rfl⟩
      · exact h.distinct i j r s hr hs hparent hid
      · exact absurd hid (hnew i r hr hparent)
    · rcases getElem?_added hs with hs | ⟨rfl, rfl⟩
      · exact absurd hid.symm (hnew j s hs hparent.symm)
      · rfl
  · rcases getElem?_added hr with hr | ⟨rfl, rfl⟩
    · obtain ⟨s, hs, hreferenced'⟩ := h.upward.around hr hreferenced hj
      obtain ⟨t, ht, hst⟩ := hgrows.kept j s hs
      exact ⟨t, ht, .inl (hst.referenced hreferenced')⟩
    · cases hreferenced

/-! ### Marking -/

theorem mark_referenced (hi : i < f.regions.size) :
    ∃ r, (f.mark i).regions[i]? = some r ∧ r.referenced = true := by
  obtain ⟨r, hr⟩ := getElem?_of_lt_size hi
  cases hreferenced : r.referenced with
  | true =>
    obtain ⟨s, hs, hrs⟩ := (f.grows_mark i).kept i r hr
    exact ⟨s, hs, hrs.referenced hreferenced⟩
  | false =>
    obtain ⟨s, hs, hrs⟩ := markGo_kept
      (f.regions.setIfInBounds i { r with referenced := true }) f.regions.size r.parent i
      { r with referenced := true } (Array.getElem?_setIfInBounds_self_of_lt hi)
    refine ⟨s, ?_, hrs.referenced rfl⟩
    rw [mark, mark.go]
    simpa [hr, hreferenced] using hs

theorem Ordered.mark (h : f.Ordered) (hi : i < f.regions.size) : (f.mark i).Ordered := by
  have hgrows := f.grows_mark i
  -- A region only differs in its mark, so all but the marks is as it was before the walk.
  have hback {j : Nat} {s : ClipRegion α} (hs : (f.mark i).regions[j]? = some s) :=
    hgrows.back (f.mark_size i) hs
  refine ⟨fun j s hs k hk => ?_, fun j s hs => ?_, fun j k s t hs ht hparent hid => ?_, ?_⟩
  · obtain ⟨r, hr, hrs⟩ := hback hs
    exact h.parent j r hr k (hrs.parent ▸ hk)
  · obtain ⟨r, hr, hrs⟩ := hback hs
    rw [hrs.id, hrs.parent, hrs.shape, hrs.evenOdd, h.named j r hr, regionId_eq, regionId_eq,
      hgrows.regionKey_eq (h.valid hr)]
  · obtain ⟨r, hr, hrs⟩ := hback hs
    obtain ⟨r', hr', hrt⟩ := hback ht
    refine h.distinct j k r r' hr hr' ?_ ?_
    · rw [← hrs.parent, ← hrt.parent, hparent]
    · rw [← hrs.id, ← hrt.id, hid]
  · refine .markGo f.regions (f.regions.size + 1) (some i) (fun j hj => ?_) h.parent
      fun j s hs hreferenced k hk => ?_
    · cases hj
      omega
    · obtain ⟨t, ht, ht'⟩ := h.upward.around hs hreferenced hk
      exact ⟨t, ht, .inl ht'⟩

/-! ### Names -/

/-- The name of the parent can be read off a key. -/
theorem regionKey_parent {f : ClipForest α} {parent parent' : Option Nat} {shape' : ClipShape α}
    {evenOdd' : Bool} (h : ∀ i, '|' ∉ (f.id i).toList)
    (hkey : f.regionKey parent shape evenOdd = f.regionKey parent' shape' evenOdd') :
    (parent.map f.id).getD "" = (parent'.map f.id).getD "" := by
  -- The name of the parent stands before the first bar.
  have hfree (parent : Option Nat) : '|' ∉ ((parent.map f.id).getD "").toList := by
    cases parent with
    | none => simp
    | some i => exact h i
  have hsplit (parent : Option Nat) (shape : ClipShape α) (evenOdd : Bool) : ∃ rest,
      (f.regionKey parent shape evenOdd).toList.splitOn '|' =
        ((parent.map f.id).getD "").toList :: rest := by
    rw [regionKey, String.append_assoc, String.append_assoc, String.append_assoc,
      String.toList_append, String.toList_append]
    show ∃ rest, (_ ++ '|' :: _).splitOn '|' = _
    rw [List.splitOn_append_cons_self_of_not_mem (hfree parent)]
    exact ⟨_, rfl⟩
  obtain ⟨rest, hrest⟩ := hsplit parent shape evenOdd
  obtain ⟨rest', hrest'⟩ := hsplit parent' shape' evenOdd'
  rw [hkey, hrest'] at hrest
  exact String.toList_inj.1 (List.cons.inj hrest).1.symm

theorem Ordered.bar_notMem_id (h : f.Ordered) (i : Nat) : '|' ∉ (f.id i).toList := by
  rcases hr : f.regions[i]? with _ | r
  · simp [ClipForest.id, get?, hr]
  · rw [id_of_getElem? hr, h.named i r hr]
    exact notMem_stableId (by decide) (by decide)

theorem Ordered.id_ne_empty (h : f.Ordered) (hr : f.regions[i]? = some r) : f.id i ≠ "" := by
  rw [id_of_getElem? hr, h.named i r hr, regionId_eq]
  obtain ⟨digits, hlist, _⟩ := toList_stableId "clip" (f.regionKey r.parent r.shape r.evenOdd)
  intro hempty
  have hclip : "clip".toList = ['c', 'l', 'i', 'p'] := by decide
  rw [hempty, hclip] at hlist
  exact absurd hlist (by simp)

/-- Regions of one name are one region. -/
theorem Ordered.eq_of_id_eq (h : f.Ordered) (hinj : Set.InjOn (stableId "clip") f.keys)
    (hr : f.regions[i]? = some r) (hs : f.regions[j]? = some s) (hid : r.id = s.id) : i = j := by
  -- Names give keys, keys give the names of the parents, and parents come before.
  induction i using Nat.strong_induction_on generalizing j r s with
  | _ i ih =>
    have hkey :
        f.regionKey r.parent r.shape r.evenOdd = f.regionKey s.parent s.shape s.evenOdd := by
      refine hinj ⟨i, r, hr, rfl⟩ ⟨j, s, hs, rfl⟩ ?_
      rw [← regionId_eq, ← regionId_eq, ← h.named i r hr, ← h.named j s hs, hid]
    have hname := regionKey_parent h.bar_notMem_id hkey
    refine h.distinct i j r s hr hs ?_ hid
    cases hp : r.parent with
    | none =>
      cases hq : s.parent with
      | none => rfl
      | some q =>
        obtain ⟨t, ht⟩ := getElem?_of_lt_size (h.valid hs q hq)
        rw [hp, hq] at hname
        exact absurd hname.symm (h.id_ne_empty ht)
    | some p =>
      obtain ⟨t, ht⟩ := getElem?_of_lt_size (h.valid hr p hp)
      cases hq : s.parent with
      | none =>
        rw [hp, hq] at hname
        exact absurd hname (h.id_ne_empty ht)
      | some q =>
        obtain ⟨u, hu⟩ := getElem?_of_lt_size (h.valid hs q hq)
        rw [hp, hq] at hname
        change f.id p = f.id q at hname
        rw [id_of_getElem? ht, id_of_getElem? hu] at hname
        rw [ih p (h.parent i r hr p hp) ht hu hname]

end PageSvg.ClipForest
