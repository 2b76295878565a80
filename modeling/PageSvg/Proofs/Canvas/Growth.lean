import Mathlib.Data.List.Infix
import PageSvg.Clip
import PageSvg.Layout.Element

/-!
# What drawing adds to a page

Clip regions, definitions and style rules are only added to: a region keeps its place, its name and
its shape and can only become used, and definitions and rules stay as they are.
-/

namespace PageSvg

variable {α : Type}

/-! ### Clip regions -/

/-- The same region, perhaps marked since. -/
structure ClipRegion.Persists (r s : ClipRegion α) : Prop where
  id : s.id = r.id
  parent : s.parent = r.parent
  shape : s.shape = r.shape
  evenOdd : s.evenOdd = r.evenOdd
  referenced : r.referenced = true → s.referenced = true

theorem ClipRegion.Persists.refl (r : ClipRegion α) : r.Persists r :=
  ⟨rfl, rfl, rfl, rfl, fun h => h⟩

theorem ClipRegion.Persists.trans {r s t : ClipRegion α} (h : r.Persists s) (h' : s.Persists t) :
    r.Persists t :=
  ⟨h'.id.trans h.id, h'.parent.trans h.parent, h'.shape.trans h.shape, h'.evenOdd.trans h.evenOdd,
    fun hr => h'.referenced (h.referenced hr)⟩

namespace ClipForest

/-- Every region is still there at its place. -/
structure Grows (f g : ClipForest α) : Prop where
  precision : g.precision = f.precision
  kept : ∀ (i : Nat) (r : ClipRegion α), f.regions[i]? = some r →
    ∃ s, g.regions[i]? = some s ∧ r.Persists s

namespace Grows

theorem refl (f : ClipForest α) : f.Grows f := ⟨rfl, fun _ r hr => ⟨r, hr, .refl r⟩⟩

theorem trans {f g h : ClipForest α} (hfg : f.Grows g) (hgh : g.Grows h) : f.Grows h := by
  refine ⟨hgh.precision.trans hfg.precision, fun i r hr => ?_⟩
  obtain ⟨s, hs, hrs⟩ := hfg.kept i r hr
  obtain ⟨t, ht, hst⟩ := hgh.kept i s hs
  exact ⟨t, ht, hrs.trans hst⟩

end Grows

section Insertion

variable [Scalar α] (f : ClipForest α) (parent : Option Nat)

theorem grows_insert (shape : ClipShape α) (evenOdd : Bool) :
    f.Grows (f.insert parent shape evenOdd).2 := by
  unfold insert
  dsimp only
  split
  · exact .refl f
  · refine ⟨rfl, fun i r hr => ⟨r, ?_, .refl r⟩⟩
    obtain ⟨hi, rfl⟩ := Array.getElem?_eq_some_iff.1 hr
    exact Array.getElem?_push_lt hi

theorem grows_insertRectangle (r : Rectangle α) : f.Grows (f.insertRectangle parent r).2 := by
  unfold insertRectangle
  split
  · exact f.grows_insert ..
  · exact f.grows_insert ..

theorem grows_insertPath (p : Path α) (evenOdd : Bool) :
    f.Grows (f.insertPath parent p evenOdd).2 := by
  unfold insertPath
  split
  · exact f.grows_insertRectangle ..
  · exact f.grows_insert ..

theorem grows_insertText (nodes : List Node) : f.Grows (f.insertText parent nodes).2 :=
  f.grows_insert ..

end Insertion

/-- Marking a region changes nothing else about the forest. -/
theorem markGo_kept (regions : Array (ClipRegion α)) (fuel : Nat) (start : Option Nat) (i : Nat)
    (r : ClipRegion α) (hr : regions[i]? = some r) :
    ∃ s, (mark.go regions fuel start)[i]? = some s ∧ r.Persists s := by
  fun_induction mark.go regions fuel start generalizing r with
  | case1 => exact ⟨r, hr, .refl r⟩
  | case2 => exact ⟨r, hr, .refl r⟩
  | case3 => exact ⟨r, hr, .refl r⟩
  | case4 => exact ⟨r, hr, .refl r⟩
  | case5 regions fuel j region hregion _ ih =>
    by_cases hij : j = i
    · subst hij
      obtain rfl : region = r := Option.some.inj (hregion.symm.trans hr)
      have hj := (Array.getElem?_eq_some_iff.1 hregion).1
      have hmarked : region.Persists { region with referenced := true } :=
        ⟨rfl, rfl, rfl, rfl, fun _ => rfl⟩
      obtain ⟨s, hs, hpersists⟩ := ih { region with referenced := true } (by simp [hj])
      exact ⟨s, hs, hmarked.trans hpersists⟩
    · exact ih r (by rw [Array.getElem?_setIfInBounds_ne hij]; exact hr)

theorem grows_mark [Scalar α] (f : ClipForest α) (i : Nat) : f.Grows (f.mark i) :=
  ⟨rfl, fun j r hr => markGo_kept f.regions _ _ j r hr⟩

end ClipForest

/-! ### Definitions -/

namespace Definitions

/-- Definitions and rules stay where they are; new ones come after them. -/
structure Grows (d e : Definitions) : Prop where
  nodes : d.nodes <+: e.nodes
  classes : d.classes <+: e.classes

theorem Grows.refl (d : Definitions) : d.Grows d := ⟨List.prefix_rfl, List.prefix_rfl⟩

theorem Grows.trans {d e f : Definitions} (h : d.Grows e) (h' : e.Grows f) : d.Grows f :=
  ⟨h.nodes.trans h'.nodes, h.classes.trans h'.classes⟩

theorem grows_insertNew (d : Definitions) (id : String) (node : Node) :
    d.Grows (d.insertNew id node) := by
  unfold insertNew
  split
  · exact .refl d
  · exact ⟨List.prefix_append .., List.prefix_rfl⟩

theorem grows_styleClass (d : Definitions) (declarations : String) :
    d.Grows (d.styleClass declarations).2 := by
  unfold styleClass
  split
  · exact .refl d
  · exact ⟨List.prefix_rfl, List.prefix_append ..⟩

end Definitions

/-! ### Text -/

namespace Layout

section Elements

variable [Scalar α] (o : Options α) (p : Paragraph α) (part : TextPart) (d : Definitions)

theorem grows_stretched (s : PlacedSpan α) : d.Grows (stretched o p part s d).2 :=
  d.grows_styleClass _

theorem grows_inner (last : Option Nat) (s : PlacedSpan α) : d.Grows (inner o part last s d).2 :=
  d.grows_styleClass _

theorem grows_inners (last : Option Nat) (spans : List (PlacedSpan α)) :
    d.Grows (inners o part last spans d).2 := by
  induction spans generalizing last d with
  | nil => exact .refl d
  | cons s rest ih => exact (grows_inner o part d last s).trans (ih _ _)

theorem grows_mapM_stretched (spans : List (PlacedSpan α)) :
    d.Grows ((spans.mapM (stretched o p part)) d).2 := by
  induction spans generalizing d with
  | nil => exact .refl d
  | cons s rest ih =>
    rw [List.mapM_cons]
    exact (grows_stretched o p part d s).trans (ih _)

theorem grows_spanNodes (spans : List (PlacedSpan α)) :
    d.Grows (spanNodes o p part spans d).2 := by
  cases spans with
  | nil => exact .refl d
  | cons first rest =>
    rw [spanNodes]
    split
    · exact grows_mapM_stretched o p part d _
    · dsimp only
      split
      · exact d.grows_styleClass _
      · exact grows_inners o part d none (first :: rest)

theorem grows_nodes : d.Grows ((nodes o p part).run d).2 := by
  unfold nodes
  split
  · exact .refl d
  · exact grows_spanNodes o p part d _

end Elements

end Layout

end PageSvg
