import PageSvg.Geometry.Rectangle
import PageSvg.Proofs.Number.Line

/-!
# The inside of rectangles

The inside of a rectangle is the set of the points of the plane strictly between its edges. Cutting
two rectangles to their common part cuts their insides to the common points, also where the
rectangles do not meet or only touch and their common part is a single corner.
-/

namespace PageSvg

open Scalar (isNaN isNaN_min isNaN_max)
open Scalar.OnLine (place place_lt place_min place_max)

namespace Rectangle

variable {α : Type} [Scalar α] {r s t : Rectangle α}

/-- No edge is undefined. -/
structure Defined (r : Rectangle α) : Prop where
  x1 : isNaN r.x1 = false
  y1 : isNaN r.y1 = false
  x2 : isNaN r.x2 = false
  y2 : isNaN r.y2 = false

instance (r : Rectangle α) : Decidable r.Defined :=
  decidable_of_iff (isNaN r.x1 = false ∧ isNaN r.y1 = false ∧ isNaN r.x2 = false ∧
    isNaN r.y2 = false) ⟨fun ⟨a, b, c, d⟩ => ⟨a, b, c, d⟩, fun ⟨a, b, c, d⟩ => ⟨a, b, c, d⟩⟩

/-- The inner ones of the edges of two rectangles. Where the rectangles do not meet, the edges are
in the wrong order. -/
def inner (r s : Rectangle α) : Rectangle α :=
  ⟨Scalar.max r.x1 s.x1, Scalar.max r.y1 s.y1, Scalar.min r.x2 s.x2, Scalar.min r.y2 s.y2⟩

/-- The common part of two rectangles; a corner of the first where they do not meet. -/
def common (r s : Rectangle α) : Rectangle α :=
  (r.intersect? s).getD (.ofCorners r.x1 r.y1 r.x1 r.y1)

theorem common_eq (r s : Rectangle α) :
    r.common s =
      if (r.inner s).x2 < (r.inner s).x1 ∨ (r.inner s).y2 < (r.inner s).y1 then
        .ofCorners r.x1 r.y1 r.x1 r.y1
      else r.inner s := by
  unfold common intersect? inner
  dsimp only
  split_ifs
  · rfl
  · rfl

theorem defined_ofCorners {x y z w : α} (hx : isNaN x = false) (hy : isNaN y = false)
    (hz : isNaN z = false) (hw : isNaN w = false) : (ofCorners x y z w).Defined :=
  ⟨isNaN_min hx hz, isNaN_min hy hw, isNaN_max hx hz, isNaN_max hy hw⟩

theorem Defined.inner (hr : r.Defined) (hs : s.Defined) : (r.inner s).Defined :=
  ⟨isNaN_max hr.x1 hs.x1, isNaN_max hr.y1 hs.y1, isNaN_min hr.x2 hs.x2, isNaN_min hr.y2 hs.y2⟩

theorem Defined.common (hr : r.Defined) (hs : s.Defined) : (r.common s).Defined := by
  rw [common_eq]
  split_ifs
  · exact defined_ofCorners hr.x1 hr.y1 hr.x1 hr.y1
  · exact hr.inner hs

variable [Scalar.OnLine α]

/-- The points strictly between the edges; there are none if an edge is undefined. -/
def interior (r : Rectangle α) : Set (ℝ × ℝ) :=
  {p | r.Defined ∧ (place r.x1 < p.1 ∧ p.1 < place r.x2) ∧ place r.y1 < p.2 ∧ p.2 < place r.y2}

theorem interior_eq_empty_of_x (hx : place r.x2 ≤ place r.x1) : r.interior = ∅ :=
  Set.eq_empty_of_forall_notMem fun _ hp => (hp.2.1.1.trans hp.2.1.2).not_ge hx

theorem interior_eq_empty_of_y (hy : place r.y2 ≤ place r.y1) : r.interior = ∅ :=
  Set.eq_empty_of_forall_notMem fun _ hp => (hp.2.2.1.trans hp.2.2.2).not_ge hy

/-- Between edges in the right order there are points. -/
theorem interior_nonempty (hr : r.Defined) (hx : r.x1 < r.x2) (hy : r.y1 < r.y2) :
    r.interior.Nonempty := by
  obtain ⟨x, hx⟩ := EReal.lt_iff_exists_real_btwn.1 ((place_lt hr.x1 hr.x2).1 hx)
  obtain ⟨y, hy⟩ := EReal.lt_iff_exists_real_btwn.1 ((place_lt hr.y1 hr.y2).1 hy)
  exact ⟨(x, y), hr, hx, hy⟩

theorem interior_inner (hr : r.Defined) (hs : s.Defined) :
    (r.inner s).interior = r.interior ∩ s.interior := by
  ext p
  have hx1 : place (r.inner s).x1 < p.1 ↔ place r.x1 < p.1 ∧ place s.x1 < p.1 := by
    rw [inner, place_max hr.x1 hs.x1, max_lt_iff]
  have hx2 : p.1 < place (r.inner s).x2 ↔ p.1 < place r.x2 ∧ p.1 < place s.x2 := by
    rw [inner, place_min hr.x2 hs.x2, lt_min_iff]
  have hy1 : place (r.inner s).y1 < p.2 ↔ place r.y1 < p.2 ∧ place s.y1 < p.2 := by
    rw [inner, place_max hr.y1 hs.y1, max_lt_iff]
  have hy2 : p.2 < place (r.inner s).y2 ↔ p.2 < place r.y2 ∧ p.2 < place s.y2 := by
    rw [inner, place_min hr.y2 hs.y2, lt_min_iff]
  simp only [interior, Set.mem_inter_iff, Set.mem_ofPred_eq, hx1, hx2, hy1, hy2, hr, hs,
    hr.inner hs, true_and]
  constructor
  · rintro ⟨⟨⟨hrx1, hsx1⟩, hrx2, hsx2⟩, ⟨hry1, hsy1⟩, hry2, hsy2⟩
    exact ⟨⟨⟨hrx1, hrx2⟩, hry1, hry2⟩, ⟨hsx1, hsx2⟩, hsy1, hsy2⟩
  · rintro ⟨⟨⟨hrx1, hrx2⟩, hry1, hry2⟩, ⟨hsx1, hsx2⟩, hsy1, hsy2⟩
    exact ⟨⟨⟨hrx1, hsx1⟩, hrx2, hsx2⟩, ⟨hry1, hsy1⟩, hry2, hsy2⟩

/-- The inside of the common part of two rectangles is what their insides have in common. -/
theorem interior_common (hr : r.Defined) (hs : s.Defined) :
    (r.common s).interior = r.interior ∩ s.interior := by
  rw [← interior_inner hr hs, common_eq]
  split_ifs with h
  · -- The rectangles do not meet: the corner has no inside, and neither have they in common.
    have hinner := hr.inner hs
    have hempty : (r.inner s).interior = ∅ := by
      rcases h with h | h
      · exact interior_eq_empty_of_x ((place_lt hinner.x2 hinner.x1).1 h).le
      · exact interior_eq_empty_of_y ((place_lt hinner.y2 hinner.y1).1 h).le
    rw [hempty]
    refine interior_eq_empty_of_x ?_
    rw [ofCorners, place_max hr.x1 hr.x1, place_min hr.x1 hr.x1, max_self, min_self]
  · rfl

/-! ### Edges that are equal -/

omit [Scalar.OnLine α] in
theorem beq_iff : (r == s) = true ↔
    (r.x1 == s.x1) = true ∧ (r.y1 == s.y1) = true ∧ (r.x2 == s.x2) = true ∧
      (r.y2 == s.y2) = true := by
  obtain ⟨x1, y1, x2, y2⟩ := r
  obtain ⟨x1', y1', x2', y2'⟩ := s
  simp only [BEq.beq, instBEqRectangle.beq, Bool.and_eq_true]

/-- Rectangles of equal edges have one inside. -/
theorem interior_congr (h : (r == s) = true) : r.interior = s.interior := by
  obtain ⟨hx1, hy1, hx2, hy2⟩ := beq_iff.1 h
  rw [Scalar.OnLine.beq_iff] at hx1 hy1 hx2 hy2
  have hr : r.Defined := ⟨hx1.1, hy1.1, hx2.1, hy2.1⟩
  have hs : s.Defined := ⟨hx1.2.1, hy1.2.1, hx2.2.1, hy2.2.1⟩
  ext p
  simp only [interior, Set.mem_ofPred_eq, hr, hs, hx1.2.2, hx2.2.2, hy1.2.2, hy2.2.2]

/-! ### Rectangles read off paths -/

/-- The points share a coordinate that is defined. -/
theorem isNaN_of_edge? {p q : α × α} {horizontal : Bool} (h : edge? p q = some horizontal) :
    if horizontal then isNaN p.2 = false ∧ isNaN q.2 = false
      else isNaN p.1 = false ∧ isNaN q.1 = false := by
  unfold edge? at h
  split_ifs at h with hy hx
  · obtain rfl := Option.some.inj h
    rw [Bool.and_eq_true, Scalar.OnLine.beq_iff] at hy
    exact ⟨hy.1.1, hy.1.2.1⟩
  · obtain rfl := Option.some.inj h
    rw [Bool.and_eq_true, Scalar.OnLine.beq_iff] at hx
    exact ⟨hx.1.1, hx.1.2.1⟩

/-- A path that is a rectangle has no undefined edge. -/
theorem defined_of_ofPath? {path : Path α} (h : ofPath? path = some r) : r.Defined := by
  unfold ofPath? at h
  split at h
  · next p q s t _ =>
    split at h
    · next first hpq =>
      split_ifs at h with hedges
      obtain rfl := Option.some.inj h
      simp only [Bool.and_eq_true, beq_iff_eq] at hedges
      obtain ⟨⟨⟨⟨hqs, hst⟩, htp⟩, _⟩, _⟩ := hedges
      have hpq := isNaN_of_edge? hpq
      have hqs := isNaN_of_edge? hqs
      have hst := isNaN_of_edge? hst
      have htp := isNaN_of_edge? htp
      cases first with
      | true => exact defined_ofCorners htp.2 hpq.1 hqs.2 hst.1
      | false => exact defined_ofCorners hpq.1 htp.2 hst.1 hqs.2
    · cases h
  · cases h

end Rectangle
end PageSvg
