import PageSvg.Proofs.ClipHistory
import PageSvg.Proofs.Geometry.Interior

/-!
# Points of clip regions

A clip region is a set of points of the plane: those inside its shape and inside the shapes of all
regions around it. Although a rectangle in a rectangle is not cut out of it but takes its place, and
a region that is there already may be returned, cutting a rectangle out of a region leaves the
points of the region that lie inside the rectangle.
-/

namespace PageSvg

/-- Two shapes are the same, or rectangles whose edges compare as equal. -/
inductive ClipShape.Alike {α : Type} [Scalar α] : ClipShape α → ClipShape α → Prop
  | refl (shape : ClipShape α) : Alike shape shape
  | rectangle {r s : Rectangle α} (h : (r == s) = true) : Alike (.rectangle r) (.rectangle s)

namespace ClipForest

open Scalar.OnLine (place place_lt)

variable {α : Type} [Scalar α] {f g : ClipForest α} {i j : Nat} {r : ClipRegion α}
  {parent region : Option Nat} {p : ClipPiece α}

/-- Of what is cut out of its parent, the piece is told apart by its name: what is described as it
is has an equal shape, and what is named as it is has its key. -/
structure Tells (f : ClipForest α) (p : ClipPiece α) : Prop where
  shape : ∀ (i : Nat) (r : ClipRegion α), f.regions[i]? = some r → r.parent = p.parent →
    f.describe r.shape = f.describe p.shape → r.shape.Alike p.shape
  name : ∀ (i : Nat) (r : ClipRegion α), f.regions[i]? = some r → r.parent = p.parent →
    r.id = stableId "clip" (f.pieceKey p) → f.pieceKey ⟨r.parent, r.shape, r.evenOdd⟩ = f.pieceKey p

theorem Tells.alike (h : f.Tells p) (hr : f.regions[i]? = some r) (hparent : r.parent = p.parent)
    (hid : r.id = stableId "clip" (f.pieceKey p)) : r.shape.Alike p.shape :=
  h.shape i r hr hparent (samePiece_of_key_eq hparent (h.name i r hr hparent hid)).2.1

/-! ### Rectangles of a history -/

/-- No rectangle of a call has an undefined edge. -/
def CutsDefined (calls : List (ClipCall α)) : Prop :=
  ∀ call ∈ calls, ∀ r, call.cut = .rectangle r → r.Defined

/-- No rectangle of a region has an undefined edge. -/
def RegionsDefined (f : ClipForest α) : Prop :=
  ∀ (i : Nat) (s : ClipRegion α) (r : Rectangle α), f.regions[i]? = some s →
    s.shape = .rectangle r → r.Defined

theorem insertRectangle_eq (f : ClipForest α) (parent : Option Nat) (r : Rectangle α) :
    f.insertRectangle parent r = f.insertPiece (f.rectanglePiece parent r) :=
  f.cut_eq parent (.rectangle r)

theorem rectanglePiece_eq (f : ClipForest α) (parent : Option Nat) (r : Rectangle α) :
    (∃ i s a, parent = some i ∧ f.regions[i]? = some s ∧ s.shape = .rectangle a ∧
      f.rectanglePiece parent r = ⟨s.parent, .rectangle (r.common a), false⟩) ∨
    ((∀ i s a, parent = some i → f.regions[i]? = some s → s.shape ≠ .rectangle a) ∧
      f.rectanglePiece parent r = ⟨parent, .rectangle r, false⟩) := by
  unfold rectanglePiece
  split
  · next grandparent a _ _ hregion =>
    obtain ⟨i, rfl, hi⟩ := Option.bind_eq_some_iff.1 hregion
    exact .inl ⟨i, _, a, rfl, hi, rfl, rfl⟩
  · next hno =>
    refine .inr ⟨?_, rfl⟩
    rintro i ⟨id, grandparent, shape, evenOdd, referenced⟩ a rfl hi rfl
    exact hno id grandparent a evenOdd referenced hi

/-- A piece of defined rectangles is one. -/
theorem RegionsDefined.rectanglePiece (h : f.RegionsDefined) (parent : Option Nat)
    {r a : Rectangle α} (hr : r.Defined) (ha : (f.rectanglePiece parent r).shape = .rectangle a) :
    a.Defined := by
  rcases f.rectanglePiece_eq parent r with ⟨i, s, b, _, hs, hb, e⟩ | ⟨_, e⟩
  · rw [e] at ha
    obtain rfl := ClipShape.rectangle.inj ha
    exact hr.common (h i s b hs hb)
  · rw [e] at ha
    obtain rfl := ClipShape.rectangle.inj ha
    exact hr

section OnLine

variable [Scalar.OnLine α]

theorem RegionsDefined.piece (h : f.RegionsDefined) {cut : ClipCut α} {a : Rectangle α}
    (hcut : ∀ r, cut = .rectangle r → r.Defined)
    (ha : (f.piece parent cut).shape = .rectangle a) : a.Defined := by
  cases cut with
  | path p evenOdd =>
    unfold ClipForest.piece at ha
    dsimp only at ha
    split at ha
    · next r hr => exact h.rectanglePiece parent (Rectangle.defined_of_ofPath? hr) ha
    · cases ha
  | rectangle r => exact h.rectanglePiece parent (hcut r rfl) ha
  | text nodes => cases ha

/-- A history without undefined edges leaves none behind, by induction on the calls. -/
theorem Made.regionsDefined {precision : Nat} {calls : List (ClipCall α)} {marks : List Nat}
    (h : Made precision calls marks f) (hcalls : CutsDefined calls) : f.RegionsDefined := by
  induction h with
  | start =>
    intro i s r hs
    simp at hs
  | @cut calls marks f h parent hparent cut ih =>
    obtain ⟨hcut, hcalls⟩ := List.forall_mem_cons.1 hcalls
    intro i s a hs ha
    rw [f.cut_eq] at hs
    rcases f.insertPiece_cases (f.piece parent cut) with ⟨_, _, e, _⟩ | ⟨_, e⟩
    · rw [e] at hs
      exact ih hcalls i s a hs ha
    · rw [e] at hs
      rcases getElem?_added hs with hs | ⟨_, rfl⟩
      · exact ih hcalls i s a hs ha
      · exact (ih hcalls).piece hcut ha
  | @mark calls marks f h call hcall ih =>
    intro i s a hs ha
    obtain ⟨t, ht, hts⟩ := (f.grows_mark call.answer).back (f.mark_size call.answer) hs
    exact ih hcalls i t a ht (hts.shape ▸ ha)

/-! ### Points -/

/-- The points inside a shape. What the outlines of paths and text enclose is given by `inside`. -/
def shapePoints (inside : ClipShape α → Bool → Set (ℝ × ℝ)) (evenOdd : Bool) :
    ClipShape α → Set (ℝ × ℝ)
  | .rectangle r => r.interior
  | shape => inside shape evenOdd

variable {inside : ClipShape α → Bool → Set (ℝ × ℝ)}

/-- The points of a region: those inside its shape and inside the shapes of all regions around it.
All points lie in no region at all. -/
def area (inside : ClipShape α → Bool → Set (ℝ × ℝ)) (f : ClipForest α) (region : Option Nat) :
    Set (ℝ × ℝ) :=
  {x | ∀ i, region = some i → ∀ j, LiesIn f.regions i j → ∀ r, f.regions[j]? = some r →
    x ∈ shapePoints inside r.evenOdd r.shape}

theorem area_none : f.area inside none = Set.univ :=
  Set.eq_univ_of_forall fun _ _ h => nomatch h

theorem area_some (hr : f.regions[i]? = some r) :
    f.area inside (some i) = f.area inside r.parent ∩ shapePoints inside r.evenOdd r.shape := by
  ext x
  constructor
  · intro h
    refine ⟨fun k hk j hj s hs => ?_, h i rfl i .refl r hr⟩
    exact h i rfl j (.head ⟨r, hr, hk⟩ hj) s hs
  · rintro ⟨hparent, hshape⟩ k hk j hj s hs
    obtain rfl := Option.some.inj hk
    rcases Relation.ReflTransGen.cases_head hj with rfl | ⟨k, ⟨t, ht, hk⟩, hkj⟩
    · obtain rfl := Option.some.inj (hr.symm.trans hs)
      exact hshape
    · obtain rfl := Option.some.inj (hr.symm.trans ht)
      exact hparent k hk j hkj s hs

/-- The points of a region stay the same as the forest grows; by induction on its place, since the
region around it has a smaller one. -/
theorem Grows.area_eq (h : f.Grows g) (hf : f.Ordered) (hregion : f.Valid region) :
    g.area inside region = f.area inside region := by
  cases region with
  | none => rw [area_none, area_none]
  | some i =>
    induction i using Nat.strong_induction_on with
    | _ i ih =>
      obtain ⟨r, hr⟩ := getElem?_of_lt_size (hregion i rfl)
      obtain ⟨s, hs, hrs⟩ := h.kept i r hr
      have hparent : g.area inside r.parent = f.area inside r.parent := by
        cases hp : r.parent with
        | none => rw [area_none, area_none]
        | some k => exact ih k (hf.parent i r hr k hp) (hp ▸ hf.valid hr)
      rw [area_some hs, area_some hr, hrs.parent, hrs.shape, hrs.evenOdd, hparent]

/-! ### Cutting rectangles -/

/-- The region of a rectangular piece lies in the parent of the piece and is a rectangle with the
same points, also where it was there before. -/
theorem insertPiece_region (hp : f.Tells p) {a : Rectangle α} (ha : p.shape = .rectangle a) :
    ∃ s b, (f.insertPiece p).2.regions[(f.insertPiece p).1]? = some s ∧ s.parent = p.parent ∧
      s.shape = .rectangle b ∧ b.interior = a.interior := by
  rcases f.insertPiece_cases p with ⟨i, s, e, hs, hparent, hid⟩ | ⟨_, e⟩
  · rw [e]
    have halike := hp.alike hs hparent hid
    rw [ha] at halike
    generalize hshape : s.shape = shape at halike
    cases halike with
    | refl => exact ⟨s, a, hs, hparent, hshape, rfl⟩
    | rectangle h => exact ⟨s, _, hs, hparent, hshape, Rectangle.interior_congr h⟩
  · rw [e]
    exact ⟨_, a, Array.getElem?_push_size, rfl, ha, rfl⟩

theorem area_insertPiece (hf : f.Ordered) (hvalid : f.Valid p.parent) (hp : f.Tells p)
    {a : Rectangle α} (ha : p.shape = .rectangle a) :
    (f.insertPiece p).2.area inside (some (f.insertPiece p).1) =
      f.area inside p.parent ∩ a.interior := by
  obtain ⟨s, b, hs, hparent, hb, hba⟩ := insertPiece_region hp ha
  have hgrows : f.Grows (f.insertPiece p).2 := f.grows_insert ..
  rw [area_some hs, hparent, hb, shapePoints, hba, hgrows.area_eq hf hvalid]

/-- A rectangular piece has the points of the region that lie inside the rectangle. -/
theorem area_rectanglePiece (hf : f.RegionsDefined) {r a : Rectangle α} (hr : r.Defined)
    (ha : (f.rectanglePiece parent r).shape = .rectangle a) :
    f.area inside (f.rectanglePiece parent r).parent ∩ a.interior =
      f.area inside parent ∩ r.interior := by
  rcases f.rectanglePiece_eq parent r with ⟨i, s, b, rfl, hs, hb, e⟩ | ⟨_, e⟩
  · rw [e] at ha ⊢
    obtain rfl := ClipShape.rectangle.inj ha
    rw [Rectangle.interior_common hr (hf i s b hs hb), area_some hs, hb, shapePoints,
      Set.inter_comm r.interior, Set.inter_assoc]
  · rw [e] at ha ⊢
    obtain rfl := ClipShape.rectangle.inj ha
    rfl

/-- The regions around a place, itself included, are rectangles. -/
def RectanglesUp (f : ClipForest α) (region : Option Nat) : Prop :=
  ∀ i, region = some i → ∀ j, LiesIn f.regions i j → ∀ s, f.regions[j]? = some s →
    ∃ a, s.shape = .rectangle a

omit [Scalar.OnLine α] in
/-- Since no rectangle lies in a rectangle, there is nothing around a rectangle in rectangles. -/
theorem Records.parent_rectanglePiece {calls : List (ClipCall α)} {marks : List Nat}
    (h : f.Records calls marks) (hparent : f.Valid parent) (hup : f.RectanglesUp parent)
    (r : Rectangle α) : (f.rectanglePiece parent r).parent = none := by
  rcases f.rectanglePiece_eq parent r with ⟨i, s, a, rfl, hs, ha, e⟩ | ⟨hno, e⟩
  · rw [e]
    cases hk : s.parent with
    | none => rfl
    | some k =>
      obtain ⟨t, ht⟩ := getElem?_of_lt_size (h.ordered.valid hs k hk)
      obtain ⟨b, hb⟩ := hup i rfl k (.single ⟨s, hs, hk⟩) t ht
      exact absurd hb (h.flat i k s t a b hs ht hk ha)
  · rw [e]
    cases parent with
    | none => rfl
    | some i =>
      obtain ⟨s, hs⟩ := getElem?_of_lt_size (hparent i rfl)
      obtain ⟨a, ha⟩ := hup i rfl i .refl s hs
      exact absurd ha (hno i s a rfl hs)

/-- **Cutting a rectangle keeps the points inside it.** However the forest of clip regions came
about, a rectangle cut out of a region, or out of nothing, leaves the points of the region that lie
inside the rectangle, also where they do not meet or only touch; and in rectangles only, it is a
rectangle with nothing around it. No rectangle may have an undefined edge, and the names of what is
cut out of one region must tell its shapes apart. -/
theorem area_insertRectangle (inside : ClipShape α → Bool → Set (ℝ × ℝ)) {precision : Nat}
    {f : ClipForest α} {calls : List (ClipCall α)} {marks : List Nat}
    (h : Made precision calls marks f) (hcalls : CutsDefined calls) {parent : Option Nat}
    (hparent : f.Valid parent) {r : Rectangle α} (hr : r.Defined)
    (htells : f.Tells (f.rectanglePiece parent r)) :
    (f.insertRectangle parent r).2.area inside (some (f.insertRectangle parent r).1) =
        f.area inside parent ∩ r.interior ∧
      (f.insertRectangle parent r).2.area inside parent = f.area inside parent ∧
      (f.RectanglesUp parent → ∃ a,
        (f.insertRectangle parent r).2.plainRectangle? (f.insertRectangle parent r).1 = some a) := by
  have hrecords := h.records
  have hvalid : f.Valid (f.rectanglePiece parent r).parent :=
    hrecords.valid_piece hparent (.rectangle r)
  obtain ⟨a, ha⟩ : ∃ a, (f.rectanglePiece parent r).shape = .rectangle a := by
    rcases f.rectanglePiece_eq parent r with ⟨_, _, _, _, _, _, e⟩ | ⟨_, e⟩
    · exact ⟨_, congrArg ClipPiece.shape e⟩
    · exact ⟨_, congrArg ClipPiece.shape e⟩
  refine ⟨?_, (f.grows_insertRectangle parent r).area_eq hrecords.ordered hparent, fun hup => ?_⟩
  · rw [insertRectangle_eq, area_insertPiece hrecords.ordered hvalid htells ha,
      area_rectanglePiece (h.regionsDefined hcalls) hr ha]
  · obtain ⟨s, b, hs, hsparent, hb, _⟩ := insertPiece_region htells ha
    rw [← insertRectangle_eq] at hs
    rw [hrecords.parent_rectanglePiece hparent hup] at hsparent
    refine ⟨b, ?_⟩
    obtain ⟨id, grandparent, shape, evenOdd, referenced⟩ := s
    obtain rfl : grandparent = none := hsparent
    obtain rfl : shape = .rectangle b := hb
    unfold plainRectangle? get?
    rw [hs]

end OnLine

/-! ### Forests of one rectangle -/

/-- The forest of a single rectangle. -/
def single (precision : Nat) (r : Rectangle α) : ClipForest α :=
  ({ precision } : ClipForest α).added none (.rectangle r) false

theorem getElem?_single {precision : Nat} {a : Rectangle α} {s : ClipRegion α}
    (hs : (single precision a).regions[i]? = some s) :
    i = 0 ∧ s = ⟨stableId "clip" ((single precision a).pieceKey ⟨none, .rectangle a, false⟩), none,
      .rectangle a, false, false⟩ := by
  rcases getElem?_added hs with hs | ⟨rfl, rfl⟩
  · simp at hs
  · exact ⟨rfl, rfl⟩

theorem made_single (precision : Nat) (a : Rectangle α) :
    Made precision [⟨none, .rectangle a, 0⟩] [] (single precision a) := by
  have hcut : ({ precision } : ClipForest α).cut none (.rectangle a) = (0, single precision a) := by
    rw [cut_eq]
    rcases ({ precision } : ClipForest α).insertPiece_cases
        (({ precision } : ClipForest α).piece none (.rectangle a)) with ⟨i, s, _, hs, _⟩ | ⟨_, e⟩
    · simp at hs
    · exact e
  have hmade := Made.cut (.start : Made precision [] [] ({ precision } : ClipForest α))
    (fun i e => nomatch (e : none = some i)) (.rectangle a)
  rwa [hcut] at hmade

/-- A second rectangle that is given the place of the first changes nothing. -/
theorem insertRectangle_single {precision : Nat} {a r : Rectangle α}
    (h : ((single precision a).insertRectangle none r).1 = 0) :
    (single precision a).insertRectangle none r = (0, single precision a) := by
  rcases (single precision a).insert_cases none (.rectangle r) false with
    ⟨_, _, -, -, -, e⟩ | ⟨_, e⟩
  · have hsame : ((single precision a).insertRectangle none r).2 = single precision a :=
      congrArg Prod.snd e
    exact Prod.ext h hsame
  · exact absurd (h.symm.trans (congrArg Prod.fst e)) (Nat.zero_ne_one)

theorem tells_single {precision : Nat} {a b : Rectangle α}
    (hshape : (single precision a).describe (.rectangle a) =
      (single precision a).describe (.rectangle b) → (a == b) = true)
    (hname : stableId "clip" ((single precision a).pieceKey ⟨none, .rectangle a, false⟩) =
        stableId "clip" ((single precision a).pieceKey ⟨none, .rectangle b, false⟩) →
      (single precision a).pieceKey ⟨none, .rectangle a, false⟩ =
        (single precision a).pieceKey ⟨none, .rectangle b, false⟩) :
    (single precision a).Tells ⟨none, .rectangle b, false⟩ where
  shape i s hs _ hdescribe := by
    obtain ⟨_, rfl⟩ := getElem?_single hs
    exact .rectangle (hshape hdescribe)
  name i s hs _ hid := by
    obtain ⟨_, rfl⟩ := getElem?_single hs
    exact hname hid

section Points

variable [Scalar.OnLine α] {inside : ClipShape α → Bool → Set (ℝ × ℝ)}

theorem area_single (precision : Nat) (a : Rectangle α) :
    (single precision a).area inside (some 0) = a.interior := by
  have hregion : (single precision a).regions[0]? = some _ := Array.getElem?_push_size
  rw [area_some hregion, area_none, Set.univ_inter]
  rfl

end Points

section Doubles

/-- A square is cut by a square that covers one of its corners. -/
theorem area_insertRectangle_squares :
    let f : ClipForest Float := single 3 ⟨0, 0, 10, 10⟩
    let r : Rectangle Float := ⟨5, 5, 20, 20⟩
    let answer := f.insertRectangle (some 0) r
    f.Valid (some 0) ∧ r.Defined ∧ f.Tells (f.rectanglePiece (some 0) r) ∧
      f.RectanglesUp (some 0) ∧
      answer.2.area (fun _ _ => ∅) (some answer.1) =
        f.area (fun _ _ => ∅) (some 0) ∩ r.interior ∧
      ∃ a, answer.2.plainRectangle? answer.1 = some a := by
  intro f r answer
  have hvalid : f.Valid (some 0) := fun i hi => by
    obtain rfl := Option.some.inj hi
    decide +kernel
  have hcalls : CutsDefined [⟨none, .rectangle (⟨0, 0, 10, 10⟩ : Rectangle Float), 0⟩] := by
    intro call hcall s hs
    obtain rfl := List.mem_singleton.1 hcall
    obtain rfl := ClipCut.rectangle.inj hs
    decide +kernel
  have hr : r.Defined := by decide +kernel
  have htells : f.Tells (f.rectanglePiece (some 0) r) := by
    refine tells_single (b := r.common ⟨0, 0, 10, 10⟩) ?_ ?_
    · decide +kernel
    · decide +kernel
  have hup : f.RectanglesUp (some 0) := fun i _ j _ s hs => by
    obtain ⟨_, rfl⟩ := getElem?_single hs
    exact ⟨_, rfl⟩
  obtain ⟨harea, _, hplain⟩ :=
    area_insertRectangle (fun _ _ => ∅) (made_single 3 _) hcalls hvalid hr htells
  exact ⟨hvalid, hr, htells, hup, harea, hplain hup⟩

/-- Two rectangles whose keys have one name are taken for one; and an undefined edge is forgotten
when the rectangle that has it is cut by another. -/
theorem area_insertRectangle_exceptions :
    (let f : ClipForest Float := single 3 ⟨0, 0, 966, 70⟩
      let r : Rectangle Float := ⟨0, 0, 1152, 1184⟩
      let answer := f.insertRectangle none r
      CutsDefined [⟨none, .rectangle (⟨0, 0, 966, 70⟩ : Rectangle Float), 0⟩] ∧ r.Defined ∧
        f.describe (.rectangle ⟨0, 0, 966, 70⟩) ≠ f.describe (.rectangle r) ∧
        answer.2.area (fun _ _ => ∅) (some answer.1) ≠ f.area (fun _ _ => ∅) none ∩ r.interior) ∧
    (let f : ClipForest Float := single 3 ⟨0 / 0, 0, 0 / 0, 10⟩
      let r : Rectangle Float := ⟨0, 0, 5, 5⟩
      let answer := f.insertRectangle (some 0) r
      f.Valid (some 0) ∧ r.Defined ∧ f.Tells (f.rectanglePiece (some 0) r) ∧
        answer.2.area (fun _ _ => ∅) (some answer.1) ≠
          f.area (fun _ _ => ∅) (some 0) ∩ r.interior) := by
  constructor
  · intro f r answer
    refine ⟨fun call hcall s hs => ?_, by decide +kernel, by decide +kernel, fun harea => ?_⟩
    · obtain rfl := List.mem_singleton.1 hcall
      obtain rfl := ClipCut.rectangle.inj hs
      decide +kernel
    · -- The second rectangle is wider, and has points beyond the first.
      have hanswer : answer = (0, f) := insertRectangle_single (by decide +kernel)
      rw [hanswer, area_single, area_none, Set.univ_inter] at harea
      obtain ⟨x, _, hx, hy⟩ := (⟨966, 0, 1152, 1184⟩ : Rectangle Float).interior_nonempty
        (by decide +kernel) (by decide +kernel) (by decide +kernel)
      have hleft : place (0 : Float) < place (966 : Float) :=
        (place_lt (by decide +kernel) (by decide +kernel)).1 (by decide +kernel)
      have hmem : x ∈ r.interior := ⟨by decide +kernel, ⟨hleft.trans hx.1, hx.2⟩, hy⟩
      rw [← harea] at hmem
      exact (hmem.2.1.2.trans hx.1).false
  · intro f r answer
    have hvalid : f.Valid (some 0) := fun i hi => by
      obtain rfl := Option.some.inj hi
      decide +kernel
    have hr : r.Defined := by decide +kernel
    have hpiece : f.rectanglePiece (some 0) r =
        ⟨none, .rectangle (r.common ⟨0 / 0, 0, 0 / 0, 10⟩), false⟩ := rfl
    have htells : f.Tells (f.rectanglePiece (some 0) r) := by
      refine tells_single (b := r.common ⟨0 / 0, 0, 0 / 0, 10⟩) ?_ ?_
      · decide +kernel
      · decide +kernel
    refine ⟨hvalid, hr, htells, fun harea => ?_⟩
    -- There are no points to begin with, and the common part has some.
    obtain ⟨x, hx⟩ := (r.common ⟨0 / 0, 0, 0 / 0, 10⟩).interior_nonempty
      (by decide +kernel) (by decide +kernel) (by decide +kernel)
    have hanswer : answer = f.insertPiece (f.rectanglePiece (some 0) r) :=
      f.insertRectangle_eq (some 0) r
    rw [hanswer, hpiece, area_insertPiece (made_single 3 _).records.ordered
      (ClipForest.valid_none _) (hpiece ▸ htells) rfl, area_none, Set.univ_inter,
      area_single] at harea
    rw [harea] at hx
    exact absurd hx.1.1.x1 (by decide +kernel)

end Doubles

end ClipForest

end PageSvg
