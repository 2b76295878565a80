import PageSvg.Proofs.Geometry.MappedBox
import PageSvg.Proofs.Geometry.Recognition

/-!
# Rectangles cut by rectangles

The common part of two rectangles has the points that both have, edges included; there is
none exactly if they have no point in common. Its outline goes around its corners and is
recognised again, unless the two rectangles only touch. The bounds of a path lie in a
rectangle exactly if its points do.
-/

namespace PageSvg

attribute [local instance] Scalar.real

attribute [local instance (high)] Zero.toOfNat0 One.toOfNat1 instOfNatAtLeastTwo
  DivInvMonoid.toDiv

namespace Rectangle

variable {r s v : Rectangle ℝ} {p : ℝ × ℝ} {path : Path ℝ}

/-! ### Common points -/

theorem points_inner (r s : Rectangle ℝ) : (r.inner s).points = r.points ∩ s.points := by
  ext p
  unfold inner points
  simp only [Set.mem_inter_iff, Set.mem_ofPred_eq, Scalar.max_real, Scalar.min_real, max_le_iff,
    le_min_iff]
  constructor
  · rintro ⟨⟨⟨hrx1, hsx1⟩, hrx2, hsx2⟩, ⟨hry1, hsy1⟩, hry2, hsy2⟩
    exact ⟨⟨⟨hrx1, hrx2⟩, hry1, hry2⟩, ⟨hsx1, hsx2⟩, hsy1, hsy2⟩
  · rintro ⟨⟨⟨hrx1, hrx2⟩, hry1, hry2⟩, ⟨hsx1, hsx2⟩, hsy1, hsy2⟩
    exact ⟨⟨⟨hrx1, hsx1⟩, hrx2, hsx2⟩, ⟨hry1, hsy1⟩, hry2, hsy2⟩

/-- A rectangle with its edges in order has a corner. -/
theorem points_eq_empty_iff : r.points = ∅ ↔ ¬(r.x1 ≤ r.x2 ∧ r.y1 ≤ r.y2) := by
  constructor
  · rintro hempty ⟨hx, hy⟩
    have hcorner : (r.x1, r.y1) ∈ r.points := ⟨⟨le_rfl, hx⟩, le_rfl, hy⟩
    exact Set.notMem_empty _ (hempty ▸ hcorner)
  · refine fun h => Set.eq_empty_of_forall_notMem fun p hp => h ?_
    exact ⟨hp.1.1.trans hp.1.2, hp.2.1.trans hp.2.2⟩

/-- Rectangles without a common point have no common part. -/
theorem intersect?_of_disjoint (h : r.points ∩ s.points = ∅) : r.intersect? s = none := by
  rw [← points_inner, points_eq_empty_iff] at h
  exact if_pos ((not_and_or.1 h).imp not_le.1 not_le.1)

/-- Rectangles with a common point have a common part, whose edges are in order. -/
theorem intersect?_of_meet (h : r.points ∩ s.points ≠ ∅) : r.intersect? s = some (r.inner s) := by
  rw [← points_inner, ne_eq, points_eq_empty_iff, not_not] at h
  exact if_neg fun hlt => hlt.elim h.1.not_gt h.2.not_gt

theorem contains_inner (r s : Rectangle ℝ) : s.contains (r.inner s) = true := by
  rw [contains_iff, inner, Scalar.max_real, Scalar.max_real, Scalar.min_real, Scalar.min_real]
  exact ⟨le_max_right _ _, le_max_right _ _, min_le_right _ _, min_le_right _ _⟩

/-! ### Outlines -/

theorem toPath_eq (r : Rectangle ℝ) :
    r.toPath = .outline (r.x1, r.y1) [(r.x2, r.y1), (r.x2, r.y2), (r.x1, r.y2)] true := by
  have hx : r.x1 + r.width = r.x2 := add_sub_cancel r.x1 r.x2
  have hy : r.y1 + r.height = r.y2 := add_sub_cancel r.y1 r.y2
  unfold toPath Path.rectangle
  rw [hx, hy]
  rfl

theorem corners?_toPath (r : Rectangle ℝ) :
    corners? r.toPath = some [(r.x1, r.y1), (r.x2, r.y1), (r.x2, r.y2), (r.x1, r.y2)] := by
  rw [toPath_eq]
  exact corners?_eq_some_iff.2 ⟨true, .inl rfl⟩

/-- The outline of a rectangle with extent is recognised again. -/
theorem extent_of_ofPath? {path : Path ℝ} (h : ofPath? path = some r) :
    r.x1 < r.x2 ∧ r.y1 < r.y2 := by
  obtain ⟨p, q, s, t, first, -, ⟨-, -, -, -, hx, hy⟩, rfl⟩ := ofPath?_eq_some_iff_turns.1 h
  simp only [ofCorners, Scalar.min_real, Scalar.max_real]
  exact ⟨min_lt_max.2 (beq_eq_false_iff_ne.1 hx), min_lt_max.2 (beq_eq_false_iff_ne.1 hy)⟩

theorem ofPath?_toPath (hx : r.x1 < r.x2) (hy : r.y1 < r.y2) : ofPath? r.toPath = some r := by
  refine ofPath?_eq_some_iff_turns.2 ⟨_, _, _, _, true, r.corners?_toPath, ?_, ?_⟩
  · simp [edge?, hx.ne, hx.ne', hy.ne, hy.ne']
  · rw [ofCorners, Scalar.min_real, Scalar.min_real, Scalar.max_real, Scalar.max_real,
      min_eq_left hx.le, min_eq_left hy.le, max_eq_right hx.le, max_eq_right hy.le]

/-- The outline of a rectangle without extent in some direction is no rectangle. -/
theorem ofPath?_toPath_of_flat (hx : r.x1 ≤ r.x2) (hy : r.y1 ≤ r.y2)
    (hflat : ¬(r.x1 < r.x2 ∧ r.y1 < r.y2)) : ofPath? r.toPath = none := by
  unfold ofPath?
  rw [corners?_toPath]
  rcases hx.lt_or_eq with hx | hx
  · have hy : r.y1 = r.y2 := hy.antisymm (not_lt.1 fun h => hflat ⟨hx, h⟩)
    simp [edge?, hy, hx.ne]
  · simp [edge?, hx]

/-! ### Bounds -/

theorem contains_point_iff {p : ℝ × ℝ} :
    r.contains (ofCorners p.1 p.2 p.1 p.2) = true ↔ p ∈ r.points := by
  refine ⟨fun h => ?_, contains_point⟩
  have hp := points_subset_of_contains h
  refine hp (mem_points_ofCorners.2 ?_)
  rw [min_self, min_self, max_self, max_self]
  exact ⟨⟨le_rfl, le_rfl⟩, le_rfl, le_rfl⟩

theorem contains_cover_iff {p : ℝ × ℝ} :
    r.contains (s.cover p) = true ↔ r.contains s = true ∧ p ∈ r.points := by
  refine ⟨fun h => ?_, fun h => contains_cover h.1 h.2⟩
  rw [contains_iff, cover, Scalar.min_real, Scalar.min_real, Scalar.max_real, Scalar.max_real,
    le_min_iff, le_min_iff, max_le_iff, max_le_iff] at h
  obtain ⟨⟨hx1, hpx1⟩, ⟨hy1, hpy1⟩, ⟨hx2, hpx2⟩, hy2, hpy2⟩ := h
  exact ⟨contains_iff.2 ⟨hx1, hy1, hx2, hy2⟩, ⟨hpx1, hpx2⟩, hpy1, hpy2⟩

/-- The bounds of a path cover its points one after the other. -/
theorem bounds?_of_points {rest : List (ℝ × ℝ)} (h : Path.points path = p :: rest) :
    bounds? path = some (rest.foldl cover (ofCorners p.1 p.2 p.1 p.2)) := by
  have hfold {f : Option (Rectangle ℝ) → ℝ × ℝ → Option (Rectangle ℝ)}
      (hf : ∀ s p, f (some s) p = some (s.cover p)) (points : List (ℝ × ℝ)) (s : Rectangle ℝ) :
      points.foldl f (some s) = some (points.foldl cover s) := by
    induction points generalizing s with
    | nil => rfl
    | cons p rest ih => rw [List.foldl_cons, hf, ih, List.foldl_cons]
  unfold bounds?
  rw [h, List.foldl_cons]
  exact hfold (fun _ _ => rfl) rest _

/-- A path with a point has bounds, which lie in a rectangle exactly if all points of the path do,
control points included. -/
theorem exists_bounds? (h : Path.points path ≠ []) :
    ∃ s, bounds? path = some s ∧
      ∀ r : Rectangle ℝ, r.contains s = true ↔ ∀ p ∈ Path.points path, p ∈ r.points := by
  have hfold (r s : Rectangle ℝ) (points : List (ℝ × ℝ)) :
      r.contains (points.foldl cover s) = true ↔
        r.contains s = true ∧ ∀ p ∈ points, p ∈ r.points := by
    induction points generalizing s with
    | nil => exact (and_iff_left (List.forall_mem_nil _)).symm
    | cons p rest ih => rw [List.foldl_cons, ih, contains_cover_iff, List.forall_mem_cons, and_assoc]
  obtain ⟨p, rest, hpoints⟩ := List.exists_cons_of_ne_nil h
  refine ⟨_, bounds?_of_points hpoints, fun r => ?_⟩
  rw [hfold, contains_point_iff, hpoints, List.forall_mem_cons]

end Rectangle

end PageSvg
