import Mathlib.Order.Interval.Set.Basic
import Mathlib.Tactic.Linarith
import PageSvg.Geometry.Rectangle
import PageSvg.Proofs.Number.Real

/-!
# The image of a box

A matrix maps a box to a parallelogram. The bounds of its outline are the parallelogram itself if
the matrix takes upright rectangles to upright rectangles, and the outline is recognised as a
rectangle only under such a matrix.
-/

namespace PageSvg

attribute [local instance] Scalar.real

attribute [local instance (high)] Zero.toOfNat0 One.toOfNat1 instOfNatAtLeastTwo
  DivInvMonoid.toDiv

/-- A point between two numbers divides the way from the one to the other. -/
theorem exists_division {x y z : ℝ} (hlow : min x y ≤ z) (hhigh : z ≤ max x y) :
    ∃ s ∈ Set.Icc (0 : ℝ) 1, z = x + s * (y - x) := by
  rcases eq_or_ne x y with rfl | hne
  · rw [min_self] at hlow
    rw [max_self] at hhigh
    exact ⟨0, ⟨le_rfl, zero_le_one⟩, by rw [zero_mul, add_zero, le_antisymm hhigh hlow]⟩
  · have hdiff : y - x ≠ 0 := sub_ne_zero.2 hne.symm
    refine ⟨(z - x) / (y - x), ?_, by rw [div_mul_cancel₀ _ hdiff, add_sub_cancel]⟩
    rcases hne.lt_or_gt with h | h
    · rw [min_eq_left h.le] at hlow
      rw [max_eq_right h.le] at hhigh
      have hpos : 0 < y - x := sub_pos.2 h
      exact ⟨div_nonneg (sub_nonneg.2 hlow) hpos.le,
        (div_le_one hpos).2 (sub_le_sub_right hhigh x)⟩
    · rw [min_eq_right h.le] at hlow
      rw [max_eq_left h.le] at hhigh
      have hneg : y - x < 0 := sub_neg.2 h
      exact ⟨div_nonneg_of_nonpos (sub_nonpos.2 hhigh) hneg.le,
        (div_le_one_of_neg hneg).2 (sub_le_sub_right hlow x)⟩

namespace Rectangle

/-- The points of a rectangle, edges included. -/
def points (r : Rectangle ℝ) : Set (ℝ × ℝ) :=
  {p | (r.x1 ≤ p.1 ∧ p.1 ≤ r.x2) ∧ r.y1 ≤ p.2 ∧ p.2 ≤ r.y2}

/-- The image of a box: the parallelogram of its mapped corners. -/
def image (r : Rectangle ℝ) (m : Matrix ℝ) : Set (ℝ × ℝ) :=
  {p | ∃ s ∈ Set.Icc (0 : ℝ) 1, ∃ t ∈ Set.Icc (0 : ℝ) 1,
    p = m.apply (r.x1 + s * r.width, r.y1 + t * r.height)}

variable {r s : Rectangle ℝ} {m : Matrix ℝ}

theorem points_subset_of_contains (h : r.contains s = true) : s.points ⊆ r.points := by
  obtain ⟨hx1, hy1, hx2, hy2⟩ := of_decide_eq_true h
  exact fun p ⟨⟨hpx1, hpx2⟩, hpy1, hpy2⟩ =>
    ⟨⟨hx1.trans hpx1, hpx2.trans hx2⟩, hy1.trans hpy1, hpy2.trans hy2⟩

/-- The outline of a mapped box. -/
theorem transform_toPath (r : Rectangle ℝ) (m : Matrix ℝ) :
    Path.transform m r.toPath =
      [.move (m.apply (r.x1, r.y1)), .line (m.apply (r.x1 + r.width, r.y1)),
        .line (m.apply (r.x1 + r.width, r.y1 + r.height)),
        .line (m.apply (r.x1, r.y1 + r.height)), .close] := rfl

/-- The bounds of a mapped box. -/
noncomputable def mappedBounds (r : Rectangle ℝ) (m : Matrix ℝ) : Rectangle ℝ :=
  (((ofCorners (m.apply (r.x1, r.y1)).1 (m.apply (r.x1, r.y1)).2 (m.apply (r.x1, r.y1)).1
    (m.apply (r.x1, r.y1)).2).cover (m.apply (r.x1 + r.width, r.y1))).cover
    (m.apply (r.x1 + r.width, r.y1 + r.height))).cover (m.apply (r.x1, r.y1 + r.height))

theorem bounds?_transform_toPath (r : Rectangle ℝ) (m : Matrix ℝ) :
    bounds? (Path.transform m r.toPath) = some (r.mappedBounds m) := rfl

theorem contains_iff :
    r.contains s = true ↔ r.x1 ≤ s.x1 ∧ r.y1 ≤ s.y1 ∧ s.x2 ≤ r.x2 ∧ s.y2 ≤ r.y2 :=
  decide_eq_true_iff

theorem contains_point {p : ℝ × ℝ} (hp : p ∈ r.points) :
    r.contains (ofCorners p.1 p.2 p.1 p.2) = true := by
  obtain ⟨⟨hx1, hx2⟩, hy1, hy2⟩ := hp
  rw [contains_iff, ofCorners, Scalar.min_real, Scalar.min_real, Scalar.max_real, Scalar.max_real,
    min_self, min_self, max_self, max_self]
  exact ⟨hx1, hy1, hx2, hy2⟩

theorem contains_cover {p : ℝ × ℝ} (hs : r.contains s = true) (hp : p ∈ r.points) :
    r.contains (s.cover p) = true := by
  obtain ⟨⟨hx1, hx2⟩, hy1, hy2⟩ := hp
  rw [contains_iff] at hs ⊢
  rw [cover, Scalar.min_real, Scalar.min_real, Scalar.max_real, Scalar.max_real]
  exact ⟨le_min hs.1 hx1, le_min hs.2.1 hy1, max_le hs.2.2.1 hx2, max_le hs.2.2.2 hy2⟩

theorem mem_points_ofCorners {p q t : ℝ × ℝ} :
    t ∈ (ofCorners p.1 p.2 q.1 q.2).points ↔
      (min p.1 q.1 ≤ t.1 ∧ t.1 ≤ max p.1 q.1) ∧ min p.2 q.2 ≤ t.2 ∧ t.2 ≤ max p.2 q.2 := by
  rw [ofCorners, Scalar.min_real, Scalar.min_real, Scalar.max_real, Scalar.max_real]
  rfl

/-- Under a map that keeps rectangles upright two opposite corners span the bounds. -/
theorem contains_mappedBounds (h : m.isAxisAligned = true) :
    (ofCorners (m.apply (r.x1, r.y1)).1 (m.apply (r.x1, r.y1)).2
      (m.apply (r.x1 + r.width, r.y1 + r.height)).1
      (m.apply (r.x1 + r.width, r.y1 + r.height)).2).contains (r.mappedBounds m) = true := by
  simp only [Matrix.isAxisAligned, Bool.or_eq_true, Bool.and_eq_true, beq_iff_eq,
    Scalar.zero_real] at h
  -- Each of the other two corners shares one number with the first and one with the third.
  refine contains_cover (contains_cover (contains_cover (contains_point ?_) ?_) ?_) ?_ <;>
    rw [mem_points_ofCorners] <;> rcases h with ⟨hb, hc⟩ | ⟨ha, hd⟩ <;>
    simp [Matrix.apply, *]

/-- Under a map that keeps rectangles upright the bounds are the image. -/
theorem points_mappedBounds_subset (h : m.isAxisAligned = true) :
    (r.mappedBounds m).points ⊆ r.image m := by
  intro p hp
  obtain ⟨⟨hx1, hx2⟩, hy1, hy2⟩ :=
    mem_points_ofCorners.1 (points_subset_of_contains (contains_mappedBounds h) hp)
  obtain ⟨s, hs, hps⟩ := exists_division hx1 hx2
  obtain ⟨t, ht, hpt⟩ := exists_division hy1 hy2
  simp only [Matrix.isAxisAligned, Bool.or_eq_true, Bool.and_eq_true, beq_iff_eq,
    Scalar.zero_real] at h
  rcases h with ⟨hb, hc⟩ | ⟨ha, hd⟩
  · refine ⟨s, hs, t, ht, Prod.ext ?_ ?_⟩
    · rw [hps]
      simp only [Matrix.apply, hc]
      ring
    · rw [hpt]
      simp only [Matrix.apply, hb]
      ring
  · -- The map swaps the axes.
    refine ⟨t, ht, s, hs, Prod.ext ?_ ?_⟩
    · rw [hps]
      simp only [Matrix.apply, ha]
      ring
    · rw [hpt]
      simp only [Matrix.apply, hd]
      ring

theorem of_edge?_true {p q : ℝ × ℝ} (h : edge? p q = some true) : p.2 = q.2 ∧ p.1 ≠ q.1 := by
  unfold edge? at h
  split_ifs at h with hflat hsteep
  · simpa using hflat
  · exact absurd h (by decide)

theorem of_edge?_false {p q : ℝ × ℝ} (h : edge? p q = some false) : p.1 = q.1 ∧ p.2 ≠ q.2 := by
  unfold edge? at h
  split_ifs at h with hflat hsteep
  · exact absurd h (by decide)
  · simpa using hsteep

/-- Two edges that meet in a corner of a recognised rectangle. -/
theorem edges_of_ofPath? {p q t u : ℝ × ℝ}
    (h : (ofPath? [.move p, .line q, .line t, .line u, .close]).isSome = true) :
    ∃ flat, edge? p q = some flat ∧ edge? q t = some !flat := by
  have hcorners : corners? [.move p, .line q, .line t, .line u, .close] = some [p, q, t, u] := rfl
  rw [ofPath?, hcorners] at h
  rcases hfirst : edge? p q with _ | flat
  · simp [hfirst] at h
  · refine ⟨flat, rfl, ?_⟩
    simp only [hfirst] at h
    split_ifs at h with hedges
    · simp only [Bool.and_eq_true, beq_iff_eq] at hedges
      exact hedges.1.1.1.1
    · exact absurd h (by decide)

/-- The outline of a mapped box is recognised as a rectangle only under a map that keeps rectangles
upright. -/
theorem isAxisAligned_of_ofPath? (h : (ofPath? (Path.transform m r.toPath)).isSome = true) :
    m.isAxisAligned = true := by
  simp only [Matrix.isAxisAligned, Bool.or_eq_true, Bool.and_eq_true, beq_iff_eq,
    Scalar.zero_real]
  rw [transform_toPath] at h
  obtain ⟨flat, hfirst, hsecond⟩ := edges_of_ofPath? h
  cases flat with
  | true =>
    obtain ⟨hb, hw⟩ := of_edge?_true hfirst
    obtain ⟨hc, hh⟩ := of_edge?_false hsecond
    simp only [Matrix.apply, mul_add] at hb hw hc hh
    have hb : m.b * r.width = 0 := by linarith only [hb]
    have hc : m.c * r.height = 0 := by linarith only [hc]
    have hw : r.width ≠ 0 := fun h0 => hw (by rw [h0]; ring)
    have hh : r.height ≠ 0 := fun h0 => hh (by rw [h0]; ring)
    exact .inl ⟨(mul_eq_zero.1 hb).resolve_right hw, (mul_eq_zero.1 hc).resolve_right hh⟩
  | false =>
    obtain ⟨ha, hw⟩ := of_edge?_false hfirst
    obtain ⟨hd, hh⟩ := of_edge?_true hsecond
    simp only [Matrix.apply, mul_add] at ha hw hd hh
    have ha : m.a * r.width = 0 := by linarith only [ha]
    have hd : m.d * r.height = 0 := by linarith only [hd]
    have hw : r.width ≠ 0 := fun h0 => hw (by rw [h0]; ring)
    have hh : r.height ≠ 0 := fun h0 => hh (by rw [h0]; ring)
    exact .inr ⟨(mul_eq_zero.1 ha).resolve_right hw, (mul_eq_zero.1 hd).resolve_right hh⟩

end Rectangle

end PageSvg
