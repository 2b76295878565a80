import Mathlib.Tactic.NormNum
import PageSvg.Canvas.Form
import PageSvg.Proofs.Geometry.MappedBox

/-!
# When a box is not cut to

The box of a form is not cut to if it lies around everything there is to see. Without a region in
force the outline of the mapped box must be a rectangle around the viewport, so nothing beyond the
box is seen. With a plain rectangle in force the bounds of the outline alone are looked at: they are
the box only as long as the map keeps rectangles upright.
-/

namespace PageSvg

attribute [local instance] Scalar.real

attribute [local instance (high)] Zero.toOfNat0 One.toOfNat1 instOfNatAtLeastTwo
  DivInvMonoid.toDiv

variable {viewport box : Rectangle ℝ} {parent : Option Nat} {m : Matrix ℝ}

theorem boxIsMoot_iff {clips : ClipForest ℝ} :
    boxIsMoot viewport clips parent (Path.transform m box.toPath) = true ↔
      (∃ r, parent.bind clips.plainRectangle? = some r ∧
        (box.mappedBounds m).contains r = true) ∨
      parent = none ∧ (Rectangle.ofPath? (Path.transform m box.toPath)).isSome = true ∧
        (box.mappedBounds m).contains viewport = true := by
  unfold boxIsMoot
  simp only [Rectangle.bounds?_transform_toPath, Bool.or_eq_true, Option.any_eq_true,
    Bool.and_eq_true, Option.isNone_iff_eq_none, and_assoc]

namespace Canvas

variable {c : Canvas ℝ}

theorem clipToBox_eq_none_iff :
    (c.clipToBox viewport parent box m).1 = none ↔
      boxIsMoot viewport c.clips parent (Path.transform m box.toPath) = true := by
  by_cases h : boxIsMoot viewport c.clips parent (Path.transform m box.toPath) = true
  · exact iff_of_true (by rw [clipToBox, if_pos h]) h
  · refine iff_of_false ?_ h
    rw [clipToBox, if_neg h]
    exact Option.some_ne_none _

/-- **A box that is not cut to lies around all that is seen, if its map keeps rectangles upright or
if no region is in force.** Around a plain rectangle in force at least its bounds lie. -/
theorem subset_image_of_clipToBox (h : (c.clipToBox viewport parent box m).1 = none) :
    (parent = none ∧ viewport.points ⊆ box.image m) ∨
      ∃ r, parent.bind c.clips.plainRectangle? = some r ∧
        r.points ⊆ (box.mappedBounds m).points ∧
        (m.isAxisAligned = true → r.points ⊆ box.image m) := by
  rcases boxIsMoot_iff.1 (clipToBox_eq_none_iff.1 h) with
    ⟨r, hregion, hcontains⟩ | ⟨hparent, houtline, hcontains⟩
  · have hbounds := Rectangle.points_subset_of_contains hcontains
    exact .inr ⟨r, hregion, hbounds,
      fun hm => hbounds.trans (Rectangle.points_mappedBounds_subset hm)⟩
  · have hm := Rectangle.isAxisAligned_of_ofPath? houtline
    exact .inl ⟨hparent, (Rectangle.points_subset_of_contains hcontains).trans
      (Rectangle.points_mappedBounds_subset hm)⟩

section Example

/-- A canvas on which a rectangle is cut. -/
noncomputable def cutTo (r : Rectangle ℝ) : Canvas ℝ where
  context := .start (.initial .identity) 0
  clips := { regions := #[⟨"", none, .rectangle r, false, false⟩], precision := 3 }

theorem plainRectangle?_cutTo (r : Rectangle ℝ) :
    (some 0).bind (cutTo r).clips.plainRectangle? = some r := rfl

theorem clipToBox_cutTo {r : Rectangle ℝ} (h : (box.mappedBounds m).contains r = true) :
    ((cutTo r).clipToBox viewport (some 0) box m).1 = none :=
  clipToBox_eq_none_iff.2 (boxIsMoot_iff.2 (.inl ⟨r, plainRectangle?_cutTo r, h⟩))

/-- A square box that a quarter turn maps around a square region. -/
theorem subset_image_of_clipToBox_quarterTurn :
    let box : Rectangle ℝ := ⟨0, 0, 10, 10⟩
    let r : Rectangle ℝ := ⟨-8, 2, -2, 8⟩
    let turn : Matrix ℝ := ⟨0, 1, -1, 0, 0, 0⟩
    ((cutTo r).clipToBox ⟨0, 0, 20, 20⟩ (some 0) box turn).1 = none ∧
      turn.isAxisAligned = true ∧ r.points ⊆ box.image turn := by
  intro box r turn
  have hcontains : (box.mappedBounds turn).contains r = true := by
    simp only [Rectangle.contains_iff, Rectangle.mappedBounds, Rectangle.cover,
      Rectangle.ofCorners, Rectangle.width, Rectangle.height, Matrix.apply, Scalar.min_real,
      Scalar.max_real, box, r, turn]
    norm_num
  have hturn : turn.isAxisAligned = true := by
    simp [Matrix.isAxisAligned, Scalar.zero_real, turn]
  have hmoot : ((cutTo r).clipToBox ⟨0, 0, 20, 20⟩ (some 0) box turn).1 = none :=
    clipToBox_cutTo hcontains
  refine ⟨hmoot, hturn, ?_⟩
  rcases subset_image_of_clipToBox hmoot with ⟨hnone, -⟩ | ⟨s, hs, -, hsubset⟩
  · exact absurd hnone (Option.some_ne_none 0)
  · rw [plainRectangle?_cutTo] at hs
    obtain rfl := Option.some.inj hs
    exact hsubset hturn

/-- A square box stands on a corner beside the region in force, within the bounds of the one: it is
not cut to, and all that is seen lies outside. -/
theorem notMem_image_of_clipToBox :
    let box : Rectangle ℝ := ⟨0, 0, 10, 10⟩
    let r : Rectangle ℝ := ⟨6, 0, 10, 4⟩
    let turn : Matrix ℝ := ⟨1, 1, -1, 1, 0, 0⟩
    ((cutTo r).clipToBox ⟨0, 0, 20, 20⟩ (some 0) box turn).1 = none ∧
      (some 0).bind (cutTo r).clips.plainRectangle? = some r ∧
      (8, 2) ∈ r.points ∧ ∀ p ∈ r.points, p ∉ box.image turn := by
  intro box r turn
  have hcontains : (box.mappedBounds turn).contains r = true := by
    simp only [Rectangle.contains_iff, Rectangle.mappedBounds, Rectangle.cover,
      Rectangle.ofCorners, Rectangle.width, Rectangle.height, Matrix.apply, Scalar.min_real,
      Scalar.max_real, box, r, turn]
    norm_num
  refine ⟨clipToBox_cutTo hcontains, plainRectangle?_cutTo r, ?_, ?_⟩
  · show ((6 : ℝ) ≤ 8 ∧ (8 : ℝ) ≤ 10) ∧ (0 : ℝ) ≤ 2 ∧ (2 : ℝ) ≤ 4
    norm_num
  · rintro p ⟨⟨hx, -⟩, -, hy⟩ ⟨s, -, t, ⟨ht, -⟩, rfl⟩
    simp only [Matrix.apply, Rectangle.width, Rectangle.height, box, r, turn] at hx hy
    linarith only [hx, hy, ht]

end Example

end Canvas

end PageSvg
