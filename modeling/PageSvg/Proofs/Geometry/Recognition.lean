import Mathlib.Data.List.Rotate
import PageSvg.Proofs.Geometry.Interior

/-!
# Which paths are rectangles

A path is recognised as a rectangle if it is one subpath of lines, closed at most at its very end,
that visits the four corners in turn: from any corner, in either direction, with or without the way
back to the first one. Nothing else is recognised: no other kind of segment, no second subpath, no
crossing outline, and none without extent.

Numbers are told apart by their places, so the two zeros of doubles are one number.
-/

namespace PageSvg

open Scalar (isNaN)
open Scalar.OnLine (place place_beq place_lt place_min place_max)

namespace Path

variable {κ : Type}

/-- One subpath of lines, closed at its end or not. -/
def outline (p : κ × κ) (rest : List (κ × κ)) (closed : Bool) : Path κ :=
  .move p :: (rest.map .line ++ if closed then [.close] else [])

theorem points_outline (p : κ × κ) (rest : List (κ × κ)) (closed : Bool) :
    points (outline p rest closed) = p :: rest := by
  have hlines : points (rest.map Segment.line) = rest := by
    unfold points
    rw [List.flatMap_map]
    exact List.flatMap_singleton' rest
  have hend : points (if closed then [.close] else [] : Path κ) = [] := by
    cases closed <;> rfl
  calc points (outline p rest closed)
      = p :: (points (rest.map .line) ++ points (if closed then [.close] else [] : Path κ)) :=
        congrArg (p :: ·) List.flatMap_append
    _ = p :: rest := by rw [hlines, hend, List.append_nil]

theorem points_transform {α : Type} [Scalar α] (m : Matrix α) (path : Path α) :
    points (transform m path) = (points path).map m.apply := by
  unfold points transform
  rw [List.flatMap_map, List.map_flatMap]
  refine List.flatMap_congr fun segment _ => ?_
  cases segment <;> rfl

/-- Only a closed outline ends with a close. -/
theorem getLast?_outline (p : κ × κ) (rest : List (κ × κ)) (closed : Bool) :
    (outline p rest closed).getLast? = some .close ↔ closed = true := by
  unfold outline
  cases closed with
  | true => simp [List.getLast?_cons, List.getLast?_append]
  | false =>
    rcases List.eq_nil_or_concat rest with rfl | ⟨init, last, rfl⟩
    · simp
    · simp [List.getLast?_cons, List.getLast?_append]

end Path

namespace Rectangle

/-! ### Corners in turn -/

section Corners

variable {κ : Type}

/-- The corners, in the direction in which the outline runs. -/
def corners (r : Rectangle κ) : List (κ × κ) :=
  [(r.x1, r.y1), (r.x2, r.y1), (r.x2, r.y2), (r.x1, r.y2)]

/-- The points are the corners in turn, from any of them and in either direction. -/
def Tour (r : Rectangle κ) (points : List (κ × κ)) : Prop :=
  points.IsRotated r.corners ∨ points.IsRotated r.corners.reverse

/-- The points visit the corners in turn, and may come back to the first. -/
def Visits (r : Rectangle κ) (points : List (κ × κ)) : Prop :=
  ∃ tour, r.Tour tour ∧ (points = tour ∨ points = tour ++ tour.take 1)

/-- The tour of the box between two opposite corners, along its width first or along its height. -/
def around (p s : κ × κ) : Bool → List (κ × κ)
  | true => [p, (s.1, p.2), s, (p.1, s.2)]
  | false => [p, (p.1, s.2), s, (s.1, p.2)]

/-- A tour is told by the corner it begins at and by the edge it runs along first. -/
theorem tour_iff {r : Rectangle κ} {points : List (κ × κ)} :
    r.Tour points ↔ ∃ p s first, points = around p s first ∧
      (p.1 = r.x1 ∧ s.1 = r.x2 ∨ p.1 = r.x2 ∧ s.1 = r.x1) ∧
      (p.2 = r.y1 ∧ s.2 = r.y2 ∨ p.2 = r.y2 ∧ s.2 = r.y1) := by
  obtain ⟨x1, y1, x2, y2⟩ := r
  unfold Tour corners
  rw [← List.mem_cyclicPermutations_iff, ← List.mem_cyclicPermutations_iff]
  constructor
  · intro h
    simp only [List.reverse_cons, List.reverse_nil, List.nil_append, List.cons_append,
      List.cyclicPermutations_cons, List.tails, List.inits, List.map_cons, List.map_nil,
      List.zipWith_cons_cons, List.zipWith_nil_right, List.append_nil, List.dropLast_cons_cons,
      List.dropLast_singleton, List.mem_cons, List.not_mem_nil, or_false] at h
    rcases h with (h | h | h | h) | (h | h | h | h)
    · exact ⟨(x1, y1), (x2, y2), true, h, .inl ⟨rfl, rfl⟩, .inl ⟨rfl, rfl⟩⟩
    · exact ⟨(x2, y1), (x1, y2), false, h, .inr ⟨rfl, rfl⟩, .inl ⟨rfl, rfl⟩⟩
    · exact ⟨(x2, y2), (x1, y1), true, h, .inr ⟨rfl, rfl⟩, .inr ⟨rfl, rfl⟩⟩
    · exact ⟨(x1, y2), (x2, y1), false, h, .inl ⟨rfl, rfl⟩, .inr ⟨rfl, rfl⟩⟩
    · exact ⟨(x1, y2), (x2, y1), true, h, .inl ⟨rfl, rfl⟩, .inr ⟨rfl, rfl⟩⟩
    · exact ⟨(x2, y2), (x1, y1), false, h, .inr ⟨rfl, rfl⟩, .inr ⟨rfl, rfl⟩⟩
    · exact ⟨(x2, y1), (x1, y2), true, h, .inr ⟨rfl, rfl⟩, .inl ⟨rfl, rfl⟩⟩
    · exact ⟨(x1, y1), (x2, y2), false, h, .inl ⟨rfl, rfl⟩, .inl ⟨rfl, rfl⟩⟩
  · rintro ⟨⟨x, y⟩, ⟨x', y'⟩, _ | _, rfl, ⟨rfl, rfl⟩ | ⟨rfl, rfl⟩, ⟨rfl, rfl⟩ | ⟨rfl, rfl⟩⟩
    all_goals simp [around, List.cyclicPermutations]

theorem visits_iff {r : Rectangle κ} {points : List (κ × κ)} :
    r.Visits points ↔ ∃ a b c d, r.Tour [a, b, c, d] ∧
      (points = [a, b, c, d] ∨ points = [a, b, c, d, a]) := by
  constructor
  · rintro ⟨tour, htour, hpoints⟩
    obtain ⟨p, s, first, rfl, -⟩ := tour_iff.1 htour
    cases first with
    | true => exact ⟨_, _, _, _, htour, hpoints⟩
    | false => exact ⟨_, _, _, _, htour, hpoints⟩
  · rintro ⟨a, b, c, d, htour, hpoints⟩
    exact ⟨_, htour, hpoints⟩

end Corners

/-! ### Segments -/

section Segments

variable {α : Type} {path : Path α} {p q s t : α × α} {rest : List (α × α)}

/-- The rest of an outline: lines, with one close after them or none. -/
theorem lineEnds?_eq_some_iff :
    lineEnds? path = some rest ↔
      ∃ closed : Bool, path = rest.map .line ++ if closed then [.close] else [] := by
  induction path generalizing rest with
  | nil =>
    constructor
    · rintro ⟨⟩
      exact ⟨false, rfl⟩
    · rintro ⟨closed, h⟩
      rw [List.nil_eq, List.append_eq_nil_iff, List.map_eq_nil_iff] at h
      rw [h.1, lineEnds?]
  | cons segment path ih =>
    -- Only a line, and a close at the very end, can be the first of such segments.
    have hother (hedges : lineEnds? (segment :: path) = none) (hline : ∀ p, segment ≠ .line p)
        (hclose : segment :: path ≠ [.close]) :
        lineEnds? (segment :: path) = some rest ↔ ∃ closed : Bool,
          segment :: path = rest.map .line ++ if closed then [.close] else [] := by
      rw [hedges]
      refine iff_of_false nofun fun ⟨closed, h⟩ => ?_
      cases rest with
      | nil =>
        cases closed with
        | true => exact hclose h
        | false => cases h
      | cons q rest => exact hline q (List.cons.inj h).1
    cases segment with
    | move p => exact hother rfl nofun nofun
    | curve p q r => exact hother rfl nofun nofun
    | line p =>
      rw [lineEnds?, Option.map_eq_some_iff]
      constructor
      · rintro ⟨ends, hends, rfl⟩
        obtain ⟨closed, rfl⟩ := ih.1 hends
        exact ⟨closed, rfl⟩
      · rintro ⟨closed, h⟩
        cases rest with
        | nil => cases closed <;> cases h
        | cons q rest =>
          obtain ⟨⟨⟩, rfl⟩ := List.cons.inj h
          exact ⟨rest, ih.2 ⟨closed, rfl⟩, rfl⟩
    | close =>
      cases path with
      | cons next path => exact hother rfl nofun nofun
      | nil =>
        constructor
        · rintro ⟨⟩
          exact ⟨true, rfl⟩
        · rintro ⟨closed, h⟩
          cases rest with
          | nil => rfl
          | cons q rest => cases h

variable [Scalar α]

/-- Four corners are those of an outline of four points, or of five if the fifth is the first. -/
theorem corners?_eq_some_iff :
    corners? path = some [p, q, s, t] ↔
      ∃ closed, path = .outline p [q, s, t] closed ∨
        ∃ last : α × α, (last == p) = true ∧ path = .outline p [q, s, t, last] closed := by
  constructor
  · intro h
    unfold corners? at h
    split at h
    · next first tail =>
      split at h
      · next a b c last hends =>
        obtain ⟨closed, rfl⟩ := lineEnds?_eq_some_iff.1 hends
        split_ifs at h with hlast
        cases h
        exact ⟨closed, .inr ⟨last, hlast, rfl⟩⟩
      · next ends hends =>
        obtain ⟨points, hpoints, h⟩ := Option.map_eq_some_iff.1 h
        cases h
        obtain ⟨closed, rfl⟩ := lineEnds?_eq_some_iff.1 hpoints
        exact ⟨closed, .inl rfl⟩
    · cases h
  · rintro ⟨closed, rfl | ⟨last, hlast, rfl⟩⟩
    · have hends := lineEnds?_eq_some_iff.2 ⟨closed, (rfl : _ = [q, s, t].map Segment.line ++ _)⟩
      unfold Path.outline corners?
      simp only [hends, Option.map_some]
    · have hends :=
        lineEnds?_eq_some_iff.2 ⟨closed, (rfl : _ = [q, s, t, last].map Segment.line ++ _)⟩
      unfold Path.outline corners?
      simp only [hends, hlast, if_true]

end Segments

/-! ### Edges -/

section Edges

variable {α : Type} [Scalar α] {path : Path α} {p q s t : α × α}

/-- No coordinate of the point is undefined. -/
def PointDefined (p : α × α) : Prop := isNaN p.1 = false ∧ isNaN p.2 = false

variable [Scalar.OnLine α]

/-- The place of a point. -/
def spot (p : α × α) : EReal × EReal := (place p.1, place p.2)

/-- The places of the edges. -/
def places (r : Rectangle α) : Rectangle EReal :=
  ⟨place r.x1, place r.y1, place r.x2, place r.y2⟩

theorem point_beq_iff (hp : PointDefined p) (hq : PointDefined q) :
    (p == q) = true ↔ spot p = spot q := by
  show (p.1 == q.1 && p.2 == q.2) = true ↔ _
  rw [Bool.and_eq_true, place_beq hp.1 hq.1, place_beq hp.2 hq.2, spot, spot, Prod.mk.injEq]

theorem edge?_eq_some_iff (hp : PointDefined p) (hq : PointDefined q) {flat : Bool} :
    edge? p q = some flat ↔
      if flat then (spot p).2 = (spot q).2 ∧ (spot p).1 ≠ (spot q).1
      else (spot p).1 = (spot q).1 ∧ (spot p).2 ≠ (spot q).2 := by
  have hx := place_beq hp.1 hq.1
  have hy := place_beq hp.2 hq.2
  unfold edge? spot
  cases flat <;> cases hpx : p.1 == q.1 <;> cases hpy : p.2 == q.2 <;> simp_all

/-- The edges turn at each corner, and the corners span a box, exactly if they are a tour of it. -/
theorem turns_iff (hp : PointDefined p) (hq : PointDefined q) (hs : PointDefined s)
    (ht : PointDefined t) {first : Bool} :
    (edge? p q = some first ∧ edge? q s = some (!first) ∧ edge? s t = some first ∧
        edge? t p = some (!first) ∧ (p.1 == s.1) = false ∧ (p.2 == s.2) = false) ↔
      [spot p, spot q, spot s, spot t] = around (spot p) (spot s) first ∧
        (spot p).1 ≠ (spot s).1 ∧ (spot p).2 ≠ (spot s).2 := by
  have hx : (p.1 == s.1) = false ↔ (spot p).1 ≠ (spot s).1 := by
    rw [← Bool.not_eq_true, place_beq hp.1 hs.1]
    rfl
  have hy : (p.2 == s.2) = false ↔ (spot p).2 ≠ (spot s).2 := by
    rw [← Bool.not_eq_true, place_beq hp.2 hs.2]
    rfl
  rw [edge?_eq_some_iff hp hq, edge?_eq_some_iff hq hs, edge?_eq_some_iff hs ht,
    edge?_eq_some_iff ht hp, hx, hy]
  generalize spot p = p', spot q = q', spot s = s', spot t = t'
  cases first with
  | true => grind [around]
  | false => grind [around]

omit [Scalar.OnLine α] in
/-- What is recognised is the box between opposite corners, if the edges turn at each corner. -/
theorem ofPath?_eq_some_iff_turns {r : Rectangle α} :
    ofPath? path = some r ↔ ∃ p q s t first, corners? path = some [p, q, s, t] ∧
      (edge? p q = some first ∧ edge? q s = some (!first) ∧ edge? s t = some first ∧
        edge? t p = some (!first) ∧ (p.1 == s.1) = false ∧ (p.2 == s.2) = false) ∧
      ofCorners p.1 p.2 s.1 s.2 = r := by
  unfold ofPath?
  constructor
  · intro h
    split at h
    · next p q s t hcorners =>
      split at h
      · next first hfirst =>
        split_ifs at h with hturns
        simp only [Bool.and_eq_true, Bool.not_eq_true', beq_iff_eq, and_assoc] at hturns
        exact ⟨p, q, s, t, first, hcorners, ⟨hfirst, hturns⟩, Option.some.inj h⟩
      · cases h
    · cases h
  · rintro ⟨p, q, s, t, first, hcorners, ⟨hfirst, hsecond, hthird, hfourth, hx, hy⟩, rfl⟩
    simp only [hcorners, hfirst, hsecond, hthird, hfourth, hx, hy, beq_self_eq_true,
      Bool.not_false, Bool.and_self, if_true]

theorem places_ofCorners (hp : PointDefined p) (hs : PointDefined s) :
    (ofCorners p.1 p.2 s.1 s.2).places =
      ⟨min (spot p).1 (spot s).1, min (spot p).2 (spot s).2, max (spot p).1 (spot s).1,
        max (spot p).2 (spot s).2⟩ := by
  unfold ofCorners places
  rw [place_min hp.1 hs.1, place_min hp.2 hs.2, place_max hp.1 hs.1, place_max hp.2 hs.2]
  rfl

/-- Two different numbers span the edges in one order or in the other. -/
theorem spans_iff {a b low high : EReal} :
    a ≠ b ∧ min a b = low ∧ max a b = high ↔
      low < high ∧ (a = low ∧ b = high ∨ a = high ∧ b = low) := by
  constructor
  · rintro ⟨hne, rfl, rfl⟩
    rcases hne.lt_or_gt with h | h
    · rw [min_eq_left h.le, max_eq_right h.le]
      exact ⟨h, .inl ⟨rfl, rfl⟩⟩
    · rw [min_eq_right h.le, max_eq_left h.le]
      exact ⟨h, .inr ⟨rfl, rfl⟩⟩
  · rintro ⟨h, ⟨rfl, rfl⟩ | ⟨rfl, rfl⟩⟩
    · exact ⟨h.ne, min_eq_left h.le, max_eq_right h.le⟩
    · exact ⟨h.ne', min_eq_right h.le, max_eq_left h.le⟩

/-- The corners turn around a box exactly if they are a tour of it and it has extent. -/
theorem turns_around_iff (hp : PointDefined p) (hq : PointDefined q) (hs : PointDefined s)
    (ht : PointDefined t) {R : Rectangle EReal} :
    (∃ first, (edge? p q = some first ∧ edge? q s = some (!first) ∧ edge? s t = some first ∧
        edge? t p = some (!first) ∧ (p.1 == s.1) = false ∧ (p.2 == s.2) = false) ∧
      (ofCorners p.1 p.2 s.1 s.2).places = R) ↔
      R.x1 < R.x2 ∧ R.y1 < R.y2 ∧ R.Tour [spot p, spot q, spot s, spot t] := by
  rw [places_ofCorners hp hs, tour_iff]
  obtain ⟨x1, y1, x2, y2⟩ := R
  simp only [turns_iff hp hq hs ht, mk.injEq]
  constructor
  · rintro ⟨first, ⟨haround, hx, hy⟩, hx1, hy1, hx2, hy2⟩
    obtain ⟨hwide, hxs⟩ := spans_iff.1 ⟨hx, hx1, hx2⟩
    obtain ⟨hhigh, hys⟩ := spans_iff.1 ⟨hy, hy1, hy2⟩
    exact ⟨hwide, hhigh, spot p, spot s, first, haround, hxs, hys⟩
  · rintro ⟨hwide, hhigh, p', s', first, haround, hxs, hys⟩
    have hcorners : spot p = p' ∧ spot s = s' := by
      cases first <;> simp only [around, List.cons.injEq] at haround <;>
        exact ⟨haround.1, haround.2.2.1⟩
    obtain ⟨rfl, rfl⟩ := hcorners
    obtain ⟨hx, hx1, hx2⟩ := spans_iff.2 ⟨hwide, hxs⟩
    obtain ⟨hy, hy1, hy2⟩ := spans_iff.2 ⟨hhigh, hys⟩
    exact ⟨first, ⟨haround, hx, hy⟩, hx1, hy1, hx2, hy2⟩

/-- A path is found to be a rectangle exactly if it is an outline that visits its corners. -/
theorem exists_ofPath?_iff (hpath : ∀ p ∈ Path.points path, PointDefined p)
    {R : Rectangle EReal} :
    (∃ r, ofPath? path = some r ∧ r.places = R) ↔
      R.x1 < R.x2 ∧ R.y1 < R.y2 ∧ ∃ p rest closed, path = .outline p rest closed ∧
        R.Visits ((p :: rest).map spot) := by
  constructor
  · rintro ⟨r, hr, rfl⟩
    obtain ⟨p, q, s, t, first, hcorners, hturns, rfl⟩ := ofPath?_eq_some_iff_turns.1 hr
    have htour (hp : PointDefined p) (hq : PointDefined q) (hs : PointDefined s)
        (ht : PointDefined t) := (turns_around_iff hp hq hs ht).1 ⟨first, hturns, rfl⟩
    obtain ⟨closed, rfl | ⟨last, hlast, rfl⟩⟩ := corners?_eq_some_iff.1 hcorners
    · simp only [Path.points_outline, List.forall_mem_cons] at hpath
      obtain ⟨hp, hq, hs, ht, -⟩ := hpath
      obtain ⟨hwide, hhigh, htour⟩ := htour hp hq hs ht
      exact ⟨hwide, hhigh, p, _, closed, rfl, visits_iff.2 ⟨_, _, _, _, htour, .inl rfl⟩⟩
    · simp only [Path.points_outline, List.forall_mem_cons] at hpath
      obtain ⟨hp, hq, hs, ht, hdefined, -⟩ := hpath
      obtain ⟨hwide, hhigh, htour⟩ := htour hp hq hs ht
      have hback : [p, q, s, t, last].map spot = [spot p, spot q, spot s, spot t, spot p] := by
        simp only [List.map_cons, List.map_nil, (point_beq_iff hdefined hp).1 hlast]
      exact ⟨hwide, hhigh, p, _, closed, rfl, visits_iff.2 ⟨_, _, _, _, htour, .inr hback⟩⟩
  · rintro ⟨hwide, hhigh, p, rest, closed, rfl, hvisits⟩
    rw [Path.points_outline] at hpath
    obtain ⟨a, b, c, d, htour, hpoints⟩ := visits_iff.1 hvisits
    have hrecognised {q s t : α × α} (hq : PointDefined q) (hs : PointDefined s)
        (ht : PointDefined t) (htour : R.Tour [spot p, spot q, spot s, spot t])
        (hcorners : corners? (.outline p rest closed) = some [p, q, s, t]) :
        ∃ r, ofPath? (.outline p rest closed) = some r ∧ r.places = R := by
      obtain ⟨first, hturns, hplaces⟩ := (turns_around_iff (hpath p List.mem_cons_self) hq hs ht).2
        ⟨hwide, hhigh, htour⟩
      exact ⟨_, ofPath?_eq_some_iff_turns.2 ⟨p, q, s, t, first, hcorners, hturns, rfl⟩, hplaces⟩
    simp only [List.map_cons, List.cons.injEq, List.map_eq_cons_iff, List.map_eq_nil_iff] at hpoints
    rcases hpoints with ⟨rfl, q, _, rfl, rfl, s, _, rfl, rfl, t, _, rfl, rfl, rfl⟩ |
      ⟨rfl, q, _, rfl, rfl, s, _, rfl, rfl, t, _, rfl, rfl, last, _, rfl, hlast, rfl⟩
    · simp only [List.forall_mem_cons] at hpath
      obtain ⟨hp, hq, hs, ht, -⟩ := hpath
      exact hrecognised hq hs ht htour (corners?_eq_some_iff.2 ⟨closed, .inl rfl⟩)
    · simp only [List.forall_mem_cons] at hpath
      obtain ⟨hp, hq, hs, ht, hdefined, -⟩ := hpath
      exact hrecognised hq hs ht htour (corners?_eq_some_iff.2
        ⟨closed, .inr ⟨last, (point_beq_iff hdefined hp).2 hlast, rfl⟩⟩)

omit [Scalar.OnLine α] in
theorem ofClosedPath?_eq_some_iff {r : Rectangle α} :
    ofClosedPath? path = some r ↔ path.getLast? = some .close ∧ ofPath? path = some r := by
  unfold ofClosedPath?
  split
  · next h => exact ⟨fun hr => ⟨h, hr⟩, And.right⟩
  · next h => exact iff_of_false nofun fun hr => h hr.1

/-- **The recognition of rectangles is sound and complete.** A path is found to be the rectangle
between four edges exactly if the edges lie apart and it is one subpath of lines, closed at most at
the very end, whose points visit the corners in turn, from any corner and in either direction, with
or without a return to the first; the rectangle that is found has no undefined edge. For strokes the
outline must be closed besides. -/
theorem recognised_iff (hpath : ∀ p ∈ Path.points path, PointDefined p) {R : Rectangle EReal} :
    (∀ r, ofPath? path = some r → r.Defined) ∧
    ((∃ r, ofPath? path = some r ∧ r.places = R) ↔
      R.x1 < R.x2 ∧ R.y1 < R.y2 ∧ ∃ p rest closed, path = .outline p rest closed ∧
        R.Visits ((p :: rest).map spot)) ∧
    ((∃ r, ofClosedPath? path = some r ∧ r.places = R) ↔
      R.x1 < R.x2 ∧ R.y1 < R.y2 ∧ ∃ p rest, path = .outline p rest true ∧
        R.Visits ((p :: rest).map spot)) := by
  have hopen := exists_ofPath?_iff hpath (R := R)
  refine ⟨fun r hr => defined_of_ofPath? hr, hopen, ?_⟩
  simp only [ofClosedPath?_eq_some_iff]
  constructor
  · rintro ⟨r, ⟨hlast, hr⟩, hplaces⟩
    obtain ⟨hwide, hhigh, p, rest, closed, rfl, hvisits⟩ := hopen.1 ⟨r, hr, hplaces⟩
    obtain rfl := (Path.getLast?_outline p rest closed).1 hlast
    exact ⟨hwide, hhigh, p, rest, rfl, hvisits⟩
  · rintro ⟨hwide, hhigh, p, rest, rfl, hvisits⟩
    obtain ⟨r, hr, hplaces⟩ := hopen.2 ⟨hwide, hhigh, p, rest, true, rfl, hvisits⟩
    exact ⟨r, ⟨(Path.getLast?_outline p rest true).2 rfl, hr⟩, hplaces⟩

end Edges

section Doubles

/-- A rectangle from its upper corner on the right, downwards first, with a return to that corner
and with zeros of both signs. -/
theorem recognised_iff_returning :
    let r : Rectangle Float := ⟨0, 0, 4, 3⟩
    let path : Path Float := .outline (4, 3) [(4, -0.0), (0, 0), (-0.0, 3), (4, 3)] true
    (∀ p ∈ Path.points path, PointDefined p) ∧
      (∃ s, ofPath? path = some s ∧ s.Defined ∧ s.places = r.places) ∧
      ∃ s, ofClosedPath? path = some s ∧ s.Defined ∧ s.places = r.places := by
  intro r path
  have hdefined : ∀ p ∈ Path.points path, PointDefined p := by
    unfold PointDefined
    decide
  have hzero : place (-0.0 : Float) = place (0 : Float) :=
    ((Scalar.OnLine.beq_iff (-0.0 : Float) 0).1 (by decide)).2.2
  have hwide : place (0 : Float) < place (4 : Float) :=
    (place_lt (by decide) (by decide)).1 (by decide)
  have hhigh : place (0 : Float) < place (3 : Float) :=
    (place_lt (by decide) (by decide)).1 (by decide)
  have hvisits : r.places.Visits (([(4, 3), (4, -0.0), (0, 0), (-0.0, 3), (4, 3)] :
      List (Float × Float)).map spot) := by
    refine visits_iff.2 ⟨_, _, _, _, tour_iff.2 ⟨spot ((4, 3) : Float × Float), spot (0, 0), false,
      rfl, .inr ⟨rfl, rfl⟩, .inr ⟨rfl, rfl⟩⟩, .inr ?_⟩
    simp only [List.map_cons, List.map_nil, spot, hzero]
  obtain ⟨hedges, hopen, hclosed⟩ := recognised_iff hdefined (R := r.places)
  obtain ⟨s, hs, hplaces⟩ := hopen.2 ⟨hwide, hhigh, _, _, true, rfl, hvisits⟩
  obtain ⟨t, ht, hplaces'⟩ := hclosed.2 ⟨hwide, hhigh, _, _, rfl, hvisits⟩
  exact ⟨hdefined, ⟨s, hs, hedges s hs, hplaces⟩, t, ht,
    hedges t (ofClosedPath?_eq_some_iff.1 ht).2, hplaces'⟩

end Doubles

end Rectangle

end PageSvg
