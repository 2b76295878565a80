import Mathlib.Logic.Relation
import PageSvg.Proofs.Clip
import PageSvg.Proofs.Keyed

/-!
# The history of a clip forest

A forest of clip regions comes about by calls that cut regions out of regions returned before, and
by calls that mark some of them. What a call asks for is its piece: the parent, the shape and the
fill rule of the region it returns. A path that is a rectangle counts as one, and a rectangle inside
a rectangle is the common part of the two, cut out of what lies around.

As long as no two pieces have one name, equal pieces are one region and different pieces are
different regions; the regions that are written are the marked ones and what lies around them.
-/

namespace PageSvg

/-- What a region is cut by when it is asked for. -/
inductive ClipCut (α : Type)
  | path (p : Path α) (evenOdd : Bool)
  | rectangle (r : Rectangle α)
  | text (nodes : List Node)

/-- A parent, a shape and a fill rule. -/
structure ClipPiece (α : Type) where
  parent : Option Nat
  shape : ClipShape α
  evenOdd : Bool

/-- A call that cut a region out of a parent, and the region that it returned. -/
structure ClipCall (α : Type) where
  parent : Option Nat
  cut : ClipCut α
  answer : Nat

namespace ClipForest

variable {α : Type} {f g : ClipForest α} {i j : Nat} {r s : ClipRegion α}

/-! ### Regions around a region -/

/-- The place `j` is the place `i` or lies in it. -/
def LiesIn (regions : Array (ClipRegion α)) : Nat → Nat → Prop :=
  Relation.ReflTransGen fun j i => ∃ r, regions[j]? = some r ∧ r.parent = some i

theorem Grows.liesIn (h : f.Grows g) (hij : LiesIn f.regions j i) : LiesIn g.regions j i := by
  refine Relation.ReflTransGen.mono (fun j i hji => ?_) j i hij
  obtain ⟨r, hr, hi⟩ := hji
  obtain ⟨s, hs, hrs⟩ := h.kept j r hr
  exact ⟨s, hs, hrs.parent.trans hi⟩

theorem liesIn_of_marked {regions : Array (ClipRegion α)} {k : Nat} {region : ClipRegion α}
    (hk : regions[k]? = some region)
    (h : LiesIn (regions.setIfInBounds k { region with referenced := true }) j i) :
    LiesIn regions j i := by
  refine Relation.ReflTransGen.mono (fun j i hji => ?_) j i h
  obtain ⟨r, hr, hi⟩ := hji
  rcases getElem?_marked hk hr with ⟨rfl, rfl⟩ | ⟨_, hr⟩
  · exact ⟨region, hk, hi⟩
  · exact ⟨r, hr, hi⟩

/-- The walk marks nothing but the places around its start. -/
theorem liesIn_of_markGo (regions : Array (ClipRegion α)) (fuel : Nat) (start : Option Nat)
    (hs : (mark.go regions fuel start)[i]? = some s) (hreferenced : s.referenced = true) :
    (∃ r, regions[i]? = some r ∧ r.referenced = true) ∨
      ∃ k, start = some k ∧ LiesIn regions k i := by
  fun_induction mark.go regions fuel start with
  | case5 regions fuel k region hregion _ ih =>
    rcases ih hs with ⟨r, hr, hmarked⟩ | ⟨m, hparent, hm⟩
    · rcases getElem?_marked hregion hr with ⟨rfl, rfl⟩ | ⟨_, hr⟩
      · exact .inr ⟨i, rfl, .refl⟩
      · exact .inl ⟨r, hr, hmarked⟩
    · exact .inr ⟨k, rfl, .head ⟨region, hregion, hparent⟩ (liesIn_of_marked hregion hm)⟩
  | _ => exact .inl ⟨s, hs, hreferenced⟩

/-! ### Pieces -/

variable [Scalar α]

/-- The piece of a rectangle: inside a rectangle, the common part cut out of what lies around. -/
def rectanglePiece (f : ClipForest α) (parent : Option Nat) (r : Rectangle α) : ClipPiece α :=
  match parent.bind f.get? with
  | some ⟨_, grandparent, .rectangle s, _, _⟩ =>
    ⟨grandparent, .rectangle ((r.intersect? s).getD (.ofCorners r.x1 r.y1 r.x1 r.y1)), false⟩
  | _ => ⟨parent, .rectangle r, false⟩

/-- What a cut asks for. -/
def piece (f : ClipForest α) (parent : Option Nat) : ClipCut α → ClipPiece α
  | .path p evenOdd =>
    match Rectangle.ofPath? p with
    | some r => f.rectanglePiece parent r
    | none => ⟨parent, .path p, evenOdd⟩
  | .rectangle r => f.rectanglePiece parent r
  | .text nodes => ⟨parent, .text nodes, false⟩

/-- Cuts a region out of a parent. -/
def cut (f : ClipForest α) (parent : Option Nat) : ClipCut α → Nat × ClipForest α
  | .path p evenOdd => f.insertPath parent p evenOdd
  | .rectangle r => f.insertRectangle parent r
  | .text nodes => f.insertText parent nodes

/-- The region of a piece. -/
def insertPiece (f : ClipForest α) (p : ClipPiece α) : Nat × ClipForest α :=
  f.insert p.parent p.shape p.evenOdd

/-- What the name of the region of a piece is a digest of. -/
def pieceKey (f : ClipForest α) (p : ClipPiece α) : String :=
  f.regionKey p.parent p.shape p.evenOdd

/-- The piece that a call asked for. -/
def asked (f : ClipForest α) (call : ClipCall α) : ClipPiece α := f.piece call.parent call.cut

/-- The pieces have one parent, one description of their shapes and one fill rule. -/
def SamePiece (f : ClipForest α) (p q : ClipPiece α) : Prop :=
  p.parent = q.parent ∧ f.describe p.shape = f.describe q.shape ∧ p.evenOdd = q.evenOdd

theorem cut_eq (f : ClipForest α) (parent : Option Nat) (cut : ClipCut α) :
    f.cut parent cut = f.insertPiece (f.piece parent cut) := by
  have hrectangle (r : Rectangle α) :
      f.insertRectangle parent r = f.insertPiece (f.rectanglePiece parent r) := by
    unfold insertRectangle insertPiece rectanglePiece
    rcases parent.bind f.get? with _ | ⟨_, _, _ | _ | _, _, _⟩ <;> rfl
  cases cut with
  | path p evenOdd =>
    unfold ClipForest.cut piece insertPath
    dsimp only
    cases Rectangle.ofPath? p with
    | some r => exact hrectangle r
    | none => rfl
  | rectangle r => exact hrectangle r
  | text nodes => rfl

/-- As the forest grows, calls ask for the same pieces. -/
theorem Grows.piece_eq (h : f.Grows g) {parent : Option Nat} (hparent : f.Valid parent)
    (cut : ClipCut α) : g.piece parent cut = f.piece parent cut := by
  have hrectangle (r : Rectangle α) : g.rectanglePiece parent r = f.rectanglePiece parent r := by
    cases parent with
    | none => rfl
    | some i =>
      obtain ⟨r, hr⟩ := getElem?_of_lt_size (hparent i rfl)
      obtain ⟨s, hs, hrs⟩ := h.kept i r hr
      obtain ⟨id, parent, shape, evenOdd, referenced⟩ := r
      obtain ⟨id', parent', shape', evenOdd', referenced'⟩ := s
      obtain ⟨rfl, rfl, rfl, rfl, _⟩ := hrs
      unfold rectanglePiece
      simp only [Option.bind_some, get?, hr, hs]
      cases shape' <;> rfl
  cases cut with
  | path p evenOdd =>
    unfold piece
    dsimp only
    cases Rectangle.ofPath? p with
    | some r => exact hrectangle r
    | none => rfl
  | rectangle r => exact hrectangle r
  | text nodes => rfl

/-- The region of a piece is one that is there and has its parent and its name, or a new one. -/
theorem insertPiece_cases (f : ClipForest α) (p : ClipPiece α) :
    (∃ i r, f.insertPiece p = (i, f) ∧ f.regions[i]? = some r ∧ r.parent = p.parent ∧
      r.id = stableId "clip" (f.pieceKey p)) ∨
    ((∀ (i : Nat) (r : ClipRegion α), f.regions[i]? = some r → r.parent = p.parent →
        r.id ≠ f.regionId p.parent p.shape p.evenOdd) ∧
      f.insertPiece p = (f.regions.size, f.added p.parent p.shape p.evenOdd)) := by
  cases hfound : f.regions.findIdx? fun region =>
      region.parent == p.parent && region.id == f.regionId p.parent p.shape p.evenOdd with
  | some i =>
    obtain ⟨hlt, hsame, _⟩ := Array.findIdx?_eq_some_iff_getElem.1 hfound
    simp only [Bool.and_eq_true, beq_iff_eq] at hsame
    refine .inl ⟨i, f.regions[i], ?_, Array.getElem?_eq_getElem hlt, hsame.1, hsame.2⟩
    unfold insertPiece insert
    dsimp only
    rw [hfound]
  | none =>
    refine .inr ⟨fun i r hr hparent hid => ?_, ?_⟩
    · have hmem : r ∈ f.regions := Array.mem_iff_getElem?.2 ⟨i, hr⟩
      have hnot := Array.findIdx?_eq_none_iff.1 hfound r hmem
      simp [hparent, hid] at hnot
    · unfold insertPiece insert
      dsimp only
      rw [hfound]
      rfl

/-! ### Histories -/

/-- The forest came about by the calls, with the last one first, and by marking regions; each
parent and each marked region was returned before. -/
inductive Made (precision : Nat) : List (ClipCall α) → List Nat → ClipForest α → Prop
  | start : Made precision [] [] { precision }
  | cut {calls marks f} (h : Made precision calls marks f) {parent : Option Nat}
      (hparent : ∀ i, parent = some i → ∃ call ∈ calls, call.answer = i) (cut : ClipCut α) :
      Made precision (⟨parent, cut, (f.cut parent cut).1⟩ :: calls) marks (f.cut parent cut).2
  | mark {calls marks f} (h : Made precision calls marks f) {call : ClipCall α}
      (hcall : call ∈ calls) : Made precision calls (call.answer :: marks) (f.mark call.answer)

/-- What a history leaves behind. -/
structure Records (f : ClipForest α) (calls : List (ClipCall α)) (marks : List Nat) : Prop where
  ordered : f.Ordered
  parents : ∀ call ∈ calls, f.Valid call.parent
  answered : ∀ call ∈ calls, ∃ r, f.regions[call.answer]? = some r ∧
    r.parent = (f.asked call).parent ∧ r.id = stableId "clip" (f.pieceKey (f.asked call))
  sought : ∀ (i : Nat) (r : ClipRegion α), f.regions[i]? = some r → ∃ call ∈ calls,
    call.answer = i ∧ f.regionKey r.parent r.shape r.evenOdd = f.pieceKey (f.asked call)
  flat : ∀ (i j : Nat) (r s : ClipRegion α) (a b : Rectangle α), f.regions[i]? = some r →
    f.regions[j]? = some s → r.parent = some j → r.shape = .rectangle a → s.shape ≠ .rectangle b
  marked : ∀ m ∈ marks, ∃ r, f.regions[m]? = some r ∧ r.referenced = true
  around : ∀ (i : Nat) (r : ClipRegion α), f.regions[i]? = some r → r.referenced = true →
    ∃ m ∈ marks, LiesIn f.regions m i

namespace Records

variable {calls : List (ClipCall α)} {marks : List Nat} {parent : Option Nat} {p : ClipPiece α}

theorem start (precision : Nat) : Records ({ precision } : ClipForest α) [] [] := by
  have hnone {i : Nat} {r : ClipRegion α} : ({ precision } : ClipForest α).regions[i]? ≠ some r := by
    simp
  exact
    { ordered := ⟨fun _ _ hr => absurd hr hnone, fun _ _ hr => absurd hr hnone,
        fun _ _ _ _ hr => absurd hr hnone, fun _ _ hr => absurd hr hnone⟩
      parents := fun _ hcall => nomatch hcall
      answered := fun _ hcall => nomatch hcall
      sought := fun _ _ hr => absurd hr hnone
      flat := fun _ _ _ _ _ _ hr => absurd hr hnone
      marked := fun _ hm => nomatch hm
      around := fun _ _ hr => absurd hr hnone }

section Cuts

variable (h : f.Records calls marks)

include h

theorem valid_piece (hparent : f.Valid parent) (cut : ClipCut α) :
    f.Valid (f.piece parent cut).parent := by
  have hrectangle (r : Rectangle α) : f.Valid (f.rectanglePiece parent r).parent := by
    unfold rectanglePiece
    split
    · next grandparent s _ _ hregion =>
      obtain ⟨i, rfl, hi⟩ := Option.bind_eq_some_iff.1 hregion
      exact h.ordered.valid hi
    · exact hparent
  cases cut with
  | path p evenOdd =>
    unfold piece
    dsimp only
    split
    · exact hrectangle _
    · exact hparent
  | rectangle r => exact hrectangle r
  | text nodes => exact hparent

/-- A piece that is a rectangle is not cut out of a rectangle. -/
theorem flat_piece (cut : ClipCut α) {a b : Rectangle α}
    (hshape : (f.piece parent cut).shape = .rectangle a)
    (hj : (f.piece parent cut).parent = some j) (hs : f.regions[j]? = some s) :
    s.shape ≠ .rectangle b := by
  have hrectangle (r : Rectangle α) (hparent : (f.rectanglePiece parent r).parent = some j) :
      s.shape ≠ .rectangle b := by
    unfold rectanglePiece at hparent
    split at hparent
    · next grandparent c _ _ hregion =>
      obtain ⟨i, rfl, hi⟩ := Option.bind_eq_some_iff.1 hregion
      exact h.flat i j _ s c b hi hs hparent rfl
    · next hno =>
      intro hrectangle
      obtain ⟨id, grandparent, shape, evenOdd, referenced⟩ := s
      cases hrectangle
      refine hno id grandparent b evenOdd referenced ?_
      cases hparent
      exact hs
  cases cut with
  | path p evenOdd =>
    unfold piece at hshape hj
    dsimp only at hshape hj
    split at hj
    · exact hrectangle _ hj
    · next hpath =>
      rw [hpath] at hshape
      cases hshape
  | rectangle r => exact hrectangle r hj
  | text nodes => cases hshape

theorem regionKey_eq (hgrows : f.Grows g) (hr : f.regions[i]? = some r) :
    g.regionKey r.parent r.shape r.evenOdd = f.regionKey r.parent r.shape r.evenOdd :=
  hgrows.regionKey_eq (h.ordered.valid hr)

theorem asked_eq (hgrows : f.Grows g) {call : ClipCall α} (hcall : call ∈ calls) :
    g.asked call = f.asked call := hgrows.piece_eq (h.parents call hcall) call.cut

theorem pieceKey_eq (hgrows : f.Grows g) {call : ClipCall α} (hcall : call ∈ calls) :
    g.pieceKey (g.asked call) = f.pieceKey (f.asked call) := by
  obtain ⟨r, hr, hparent, _⟩ := h.answered call hcall
  rw [h.asked_eq hgrows hcall]
  refine hgrows.regionKey_eq ?_
  rw [← hparent]
  exact h.ordered.valid hr

theorem answered_grows (hgrows : f.Grows g) (call : ClipCall α) (hcall : call ∈ calls) :
    ∃ r, g.regions[call.answer]? = some r ∧ r.parent = (g.asked call).parent ∧
      r.id = stableId "clip" (g.pieceKey (g.asked call)) := by
  obtain ⟨r, hr, hparent, hid⟩ := h.answered call hcall
  obtain ⟨s, hs, hrs⟩ := hgrows.kept _ r hr
  rw [h.pieceKey_eq hgrows hcall, h.asked_eq hgrows hcall]
  exact ⟨s, hs, hrs.parent.trans hparent, hrs.id.trans hid⟩

theorem marked_grows (hgrows : f.Grows g) (m : Nat) (hm : m ∈ marks) :
    ∃ r, g.regions[m]? = some r ∧ r.referenced = true := by
  obtain ⟨r, hr, hreferenced⟩ := h.marked m hm
  obtain ⟨s, hs, hrs⟩ := hgrows.kept m r hr
  exact ⟨s, hs, hrs.referenced hreferenced⟩

/-- A piece that is there already is found. -/
theorem found (hparent : f.Valid parent) {cut : ClipCut α} {answer : Nat}
    (hanswer : ∃ r, f.regions[answer]? = some r ∧ r.parent = (f.piece parent cut).parent ∧
      r.id = stableId "clip" (f.pieceKey (f.piece parent cut))) :
    f.Records (⟨parent, cut, answer⟩ :: calls) marks where
  ordered := h.ordered
  parents := List.forall_mem_cons.2 ⟨hparent, h.parents⟩
  answered := List.forall_mem_cons.2 ⟨hanswer, h.answered⟩
  sought i r hr := by
    obtain ⟨call, hcall, hi, hkey⟩ := h.sought i r hr
    exact ⟨call, List.mem_cons_of_mem _ hcall, hi, hkey⟩
  flat := h.flat
  marked := h.marked
  around := h.around

/-- A piece that is new becomes the last region. -/
theorem added (hparent : f.Valid parent) (cut : ClipCut α) (hp : f.piece parent cut = p)
    (hnew : ∀ (i : Nat) (r : ClipRegion α), f.regions[i]? = some r → r.parent = p.parent →
      r.id ≠ f.regionId p.parent p.shape p.evenOdd) :
    (f.added p.parent p.shape p.evenOdd).Records
      (⟨parent, cut, f.regions.size⟩ :: calls) marks := by
  have hvalid : f.Valid p.parent := hp ▸ h.valid_piece hparent cut
  have hgrows := f.grows_added p.parent p.shape p.evenOdd
  have hasked : (f.added p.parent p.shape p.evenOdd).asked ⟨parent, cut, f.regions.size⟩ = p :=
    (hgrows.piece_eq hparent cut).trans hp
  have hlast : (f.added p.parent p.shape p.evenOdd).regions[f.regions.size]? =
      some ⟨f.regionId p.parent p.shape p.evenOdd, p.parent, p.shape, p.evenOdd, false⟩ := by
    simp [ClipForest.added]
  have hname : f.regionId p.parent p.shape p.evenOdd =
      stableId "clip" ((f.added p.parent p.shape p.evenOdd).pieceKey p) :=
    congrArg (stableId "clip") (hgrows.regionKey_eq hvalid).symm
  refine ⟨h.ordered.added hvalid hnew,
    List.forall_mem_cons.2 ⟨hgrows.valid hparent, fun call hcall =>
      hgrows.valid (h.parents call hcall)⟩,
    List.forall_mem_cons.2 ⟨⟨_, hlast, ?_⟩, h.answered_grows hgrows⟩, fun i r hr => ?_,
    fun i j r s a b hr hs hj ha => ?_, h.marked_grows hgrows, fun i r hr hreferenced => ?_⟩
  · rw [hasked]
    exact ⟨rfl, hname⟩
  · rcases getElem?_added hr with hr | ⟨rfl, rfl⟩
    · obtain ⟨call, hcall, hi, he⟩ := h.sought i r hr
      refine ⟨call, List.mem_cons_of_mem _ hcall, hi, ?_⟩
      rw [h.regionKey_eq hgrows hr, h.pieceKey_eq hgrows hcall, he]
    · refine ⟨_, List.mem_cons_self, rfl, ?_⟩
      rw [hasked]
      rfl
  · -- The parent of a region is an older one.
    have hold {j : Nat} (hs : (f.added p.parent p.shape p.evenOdd).regions[j]? = some s)
        (hj : j < f.regions.size) : f.regions[j]? = some s := by
      rcases getElem?_added hs with hs | ⟨rfl, _⟩
      · exact hs
      · exact absurd hj (lt_irrefl _)
    rcases getElem?_added hr with hr | ⟨rfl, rfl⟩
    · exact h.flat i j r s a b hr (hold hs (h.ordered.valid hr j hj)) hj ha
    · subst hp
      exact h.flat_piece cut ha hj (hold hs (hvalid j hj))
  · rcases getElem?_added hr with hr | ⟨rfl, rfl⟩
    · obtain ⟨m, hm, hlies⟩ := h.around i r hr hreferenced
      exact ⟨m, hm, hgrows.liesIn hlies⟩
    · cases hreferenced

/-- A call that cuts a region leaves the records in order. -/
theorem cut (hparent : f.Valid parent) (cut : ClipCut α) :
    (f.cut parent cut).2.Records (⟨parent, cut, (f.cut parent cut).1⟩ :: calls) marks := by
  rw [f.cut_eq]
  rcases f.insertPiece_cases (f.piece parent cut) with ⟨i, r, e, hr⟩ | ⟨hnew, e⟩
  · rw [e]
    exact h.found hparent ⟨r, hr⟩
  · rw [e]
    exact h.added hparent cut rfl hnew

end Cuts

/-- Marking a region leaves the records in order. -/
theorem mark (h : f.Records calls marks) {call : ClipCall α} (hcall : call ∈ calls) :
    (f.mark call.answer).Records calls (call.answer :: marks) := by
  obtain ⟨target, htarget, _⟩ := h.answered call hcall
  have hgrows := f.grows_mark call.answer
  -- A region only differs in its mark.
  have hback {i : Nat} {s : ClipRegion α} (hs : (f.mark call.answer).regions[i]? = some s) :=
    hgrows.back (f.mark_size call.answer) hs
  refine ⟨h.ordered.mark (lt_size_of_getElem? htarget),
    fun call hcall => hgrows.valid (h.parents call hcall), h.answered_grows hgrows,
    fun i s hs => ?_, fun i j s t a b hs ht hj ha hb => ?_, ?_, fun i s hs hreferenced => ?_⟩
  · obtain ⟨r, hr, hrs⟩ := hback hs
    obtain ⟨call', hcall', hi, hkey⟩ := h.sought i r hr
    refine ⟨call', hcall', hi, ?_⟩
    rw [hrs.parent, hrs.shape, hrs.evenOdd, h.regionKey_eq hgrows hr, h.pieceKey_eq hgrows hcall',
      hkey]
  · obtain ⟨r, hr, hrs⟩ := hback hs
    obtain ⟨q, hq, hqt⟩ := hback ht
    exact h.flat i j r q a b hr hq (hrs.parent ▸ hj) (hrs.shape ▸ ha) (hqt.shape ▸ hb)
  · rw [List.forall_mem_cons]
    exact ⟨mark_referenced (lt_size_of_getElem? htarget), h.marked_grows hgrows⟩
  · rcases liesIn_of_markGo _ _ _ hs hreferenced with ⟨r, hr, hreferenced⟩ | ⟨k, hk, hlies⟩
    · obtain ⟨m, hm, hlies⟩ := h.around i r hr hreferenced
      exact ⟨m, List.mem_cons_of_mem _ hm, hgrows.liesIn hlies⟩
    · cases hk
      exact ⟨_, List.mem_cons_self, hgrows.liesIn hlies⟩

end Records

/-- Every history keeps the records in order, by induction on the calls. -/
theorem Made.records {precision : Nat} {calls : List (ClipCall α)} {marks : List Nat}
    (h : Made precision calls marks f) : f.Records calls marks := by
  induction h with
  | start => exact .start precision
  | cut _ hparent cut ih =>
    refine ih.cut (fun i hi => ?_) cut
    obtain ⟨call, hcall, rfl⟩ := hparent i hi
    obtain ⟨r, hr, _⟩ := ih.answered call hcall
    exact lt_size_of_getElem? hr
  | mark _ hcall ih => exact ih.mark hcall

theorem Made.cut_eq {precision : Nat} {calls : List (ClipCall α)} {marks : List Nat}
    (h : Made precision calls marks f) {parent : Option Nat} (hparent : ∀ i, parent = some i → ∃ call ∈ calls, call.answer = i)
    {cut : ClipCut α} {i : Nat} (hi : (f.cut parent cut).1 = i) :
    Made precision (⟨parent, cut, i⟩ :: calls) marks (f.cut parent cut).2 := hi ▸ h.cut hparent cut

/-- Each region of a forest was returned by a call. -/
theorem Made.returned {precision : Nat} {calls : List (ClipCall α)} {marks : List Nat}
    (h : Made precision calls marks f) {i : Nat} (hi : i < f.regions.size) :
    ∃ call ∈ calls, call.answer = i := by
  obtain ⟨r, hr⟩ := getElem?_of_lt_size hi
  obtain ⟨call, hcall, hanswer, _⟩ := h.records.sought i r hr
  exact ⟨call, hcall, hanswer⟩

omit [Scalar α] in
theorem valid_none (f : ClipForest α) : f.Valid none := fun _ e => nomatch e

theorem answer_lt_size {precision : Nat} {calls : List (ClipCall α)} {marks : List Nat}
    (h : Made precision calls marks f) {call : ClipCall α} (hcall : call ∈ calls) :
    call.answer < f.regions.size := by
  obtain ⟨r, hr, _⟩ := h.records.answered call hcall
  exact lt_size_of_getElem? hr

theorem grows_cut (f : ClipForest α) (parent : Option Nat) (cut : ClipCut α) :
    f.Grows (f.cut parent cut).2 := by
  cases cut with
  | path p evenOdd => exact f.grows_insertPath parent p evenOdd
  | rectangle r => exact f.grows_insertRectangle parent r
  | text nodes => exact f.grows_insertText parent nodes

/-! ### What histories have in common -/

/-- What holds of a forest with a history. -/
structure Arranged (f : ClipForest α) (calls : List (ClipCall α)) (marks : List Nat) : Prop where
  /-- Parents have smaller indexes. -/
  parent : ∀ (i j : Nat) (r : ClipRegion α), f.regions[i]? = some r → r.parent = some j → j < i
  /-- No rectangle is cut out of a rectangle. -/
  flat : ∀ (i j : Nat) (r s : ClipRegion α) (a b : Rectangle α), f.regions[i]? = some r →
    f.regions[j]? = some s → r.parent = some j → r.shape = .rectangle a → s.shape ≠ .rectangle b
  /-- Different regions have different names. -/
  named : ∀ (i j : Nat) (r s : ClipRegion α), f.regions[i]? = some r → f.regions[j]? = some s →
    r.id = s.id → i = j
  /-- A call returns a region that is the piece it asked for. -/
  answered : ∀ x ∈ calls, ∃ r, f.regions[x.answer]? = some r ∧
    f.SamePiece ⟨r.parent, r.shape, r.evenOdd⟩ (f.asked x)
  /-- Calls return one region if and only if they asked for one piece. -/
  same : ∀ x ∈ calls, ∀ y ∈ calls, x.answer = y.answer ↔ f.SamePiece (f.asked x) (f.asked y)
  /-- What lies around a region in use is in use. -/
  upward : ∀ (i j : Nat) (r : ClipRegion α), f.regions[i]? = some r → r.referenced = true →
    r.parent = some j → ∃ s, f.regions[j]? = some s ∧ s.referenced = true
  /-- The regions that are written are the marked ones and what lies around them, once each and
  after their parents. -/
  written : ∃ places : List Nat, places.Nodup ∧
    (∀ i, i ∈ places ↔ ∃ m ∈ marks, LiesIn f.regions m i) ∧
    (∀ (k i j : Nat) (r : ClipRegion α), places[k]? = some i → f.regions[i]? = some r →
      r.parent = some j → ∃ l < k, places[l]? = some j) ∧
    f.toNodes.map some = places.map fun i => (f.get? i).map f.regionNode
  /-- What is written refers only to what is written before. -/
  cited : ∀ (k : Nat) (n : Node), f.toNodes[k]? = some n → ∀ value,
    n.get? "clip-path" = some value → ∃ l m id, l < k ∧ f.toNodes[l]? = some m ∧
      m.get? "id" = some id ∧ value = Node.reference id

/-! ### Keys of pieces -/

/-- Pieces of one parent that have one key are the same. -/
theorem samePiece_of_key_eq {p q : ClipPiece α} (hparent : p.parent = q.parent)
    (hkey : f.pieceKey p = f.pieceKey q) : f.SamePiece p q := by
  unfold pieceKey regionKey at hkey
  rw [← String.toList_inj, hparent] at hkey
  simp only [String.toList_append, List.append_assoc, List.append_right_inj] at hkey
  -- The fill rule stands at the end, and both rules have seven letters.
  obtain ⟨hdescribe, hrule⟩ := List.append_inj' hkey (by
    cases p.evenOdd <;> cases q.evenOdd <;> decide)
  refine ⟨hparent, String.toList_inj.1 hdescribe, ?_⟩
  cases hp : p.evenOdd <;> cases hq : q.evenOdd <;> rw [hp, hq] at hrule
  · exact absurd hrule (by decide)
  · exact absurd hrule (by decide)

theorem SamePiece.key_eq {p q : ClipPiece α} (h : f.SamePiece p q) :
    f.pieceKey p = f.pieceKey q := by
  obtain ⟨hparent, hshape, hrule⟩ := h
  unfold pieceKey regionKey
  rw [hparent, hshape, hrule]

/-! ### Places of written regions -/

/-- The places of the regions in use, in order. -/
def places (f : ClipForest α) : List Nat :=
  (List.range f.regions.size).filter fun i => f.regions[i]?.any (·.referenced)

omit [Scalar α] in
theorem mem_places : i ∈ f.places ↔ ∃ r, f.regions[i]? = some r ∧ r.referenced = true := by
  rw [places, List.mem_filter, List.mem_range]
  constructor
  · rintro ⟨hi, hreferenced⟩
    obtain ⟨r, hr⟩ := getElem?_of_lt_size hi
    rw [hr] at hreferenced
    exact ⟨r, hr, hreferenced⟩
  · rintro ⟨r, hr, hreferenced⟩
    exact ⟨lt_size_of_getElem? hr, by rw [hr]; exact hreferenced⟩

omit [Scalar α] in
theorem pairwise_places (f : ClipForest α) : f.places.Pairwise (· < ·) :=
  List.pairwise_lt_range.filter _

theorem toNodes_eq_places (f : ClipForest α) :
    f.toNodes.map some = f.places.map fun i => (f.get? i).map f.regionNode := by
  have hlist (l : List (ClipRegion α)) (g : ClipRegion α → Node) :
      ((l.filter (·.referenced)).map g).map some =
        ((List.range l.length).filter fun i => l[i]?.any (·.referenced)).map
          fun i => l[i]?.map g := by
    induction l with
    | nil => rfl
    | cons r rest ih =>
      rw [List.length_cons, List.range_succ_eq_map, List.filter_cons, List.filter_cons,
        List.filter_map]
      cases hr : r.referenced with
      | true => simpa [hr, Function.comp_def] using ih
      | false => simpa [hr, Function.comp_def] using ih
  have h := hlist f.regions.toList f.regionNode
  simpa [toNodes, places, get?] using h

theorem get?_id_regionNode (f : ClipForest α) (r : ClipRegion α) :
    (f.regionNode r).get? "id" = some r.id := by
  rw [regionNode, Node.get?, Keyed.get?_cons, if_pos rfl]

theorem get?_clipPath_regionNode (f : ClipForest α) (r : ClipRegion α) :
    (f.regionNode r).get? "clip-path" = r.parent.map fun j => Node.reference (f.id j) := by
  rw [regionNode, Node.get?, Keyed.get?_cons, if_neg (by decide)]
  cases r.parent with
  | none => rfl
  | some j => rw [Keyed.get?_cons, if_pos rfl]; rfl

namespace Records

variable {calls : List (ClipCall α)} {marks : List Nat}

theorem mem_places_iff (h : f.Records calls marks) :
    i ∈ f.places ↔ ∃ m ∈ marks, LiesIn f.regions m i := by
  rw [mem_places]
  constructor
  · rintro ⟨r, hr, hreferenced⟩
    exact h.around i r hr hreferenced
  · rintro ⟨m, hm, hlies⟩
    -- From the marked region upwards, all regions are in use.
    induction hlies with
    | refl => exact h.marked m hm
    | tail _ hparent ih =>
      obtain ⟨s, hs, hreferenced⟩ := ih
      obtain ⟨r, hr, hj⟩ := hparent
      obtain rfl := Option.some.inj (hs.symm.trans hr)
      exact h.ordered.upward.around hs hreferenced hj

/-- A place that is written is so at some position. -/
theorem getElem?_toNodes {k : Nat} {n : Node} (hn : f.toNodes[k]? = some n) :
    ∃ i r, f.places[k]? = some i ∧ f.regions[i]? = some r ∧ n = f.regionNode r := by
  have hk : (f.toNodes.map some)[k]? = some (some n) := by rw [List.getElem?_map, hn]; rfl
  rw [toNodes_eq_places, List.getElem?_map, Option.map_eq_some_iff] at hk
  obtain ⟨i, hi, hr⟩ := hk
  obtain ⟨r, hregion, rfl⟩ := Option.map_eq_some_iff.1 hr
  exact ⟨i, r, hi, hregion, rfl⟩

theorem toNodes_getElem? {k : Nat} (hi : f.places[k]? = some i) (hr : f.regions[i]? = some r) :
    f.toNodes[k]? = some (f.regionNode r) := by
  have hk : (f.toNodes.map some)[k]? = some (some (f.regionNode r)) := by
    rw [toNodes_eq_places, List.getElem?_map, hi]
    show some ((f.get? i).map f.regionNode) = _
    rw [get?, hr]
    rfl
  rw [List.getElem?_map] at hk
  obtain ⟨n, hn, e⟩ := Option.map_eq_some_iff.1 hk
  rw [hn, Option.some.inj e]

omit [Scalar α] in
theorem lt_of_places {k l : Nat} (hi : f.places[k]? = some i) (hj : f.places[l]? = some j)
    (hji : j < i) : l < k := by
  obtain ⟨hk, rfl⟩ := List.getElem?_eq_some_iff.1 hi
  obtain ⟨hl, rfl⟩ := List.getElem?_eq_some_iff.1 hj
  by_contra hlk
  rcases Nat.lt_or_eq_of_le (Nat.le_of_not_lt hlk) with hlt | rfl
  · exact absurd hji (List.pairwise_iff_getElem.1 f.pairwise_places k l hk hl hlt).not_gt
  · exact lt_irrefl _ hji

/-- The parent of a region that is written is written before it. -/
theorem parent_written (h : f.Records calls marks) {k : Nat} (hi : f.places[k]? = some i)
    (hr : f.regions[i]? = some r) (hj : r.parent = some j) :
    ∃ l s, l < k ∧ f.places[l]? = some j ∧ f.regions[j]? = some s := by
  obtain ⟨r', hr', hreferenced⟩ := mem_places.1 (List.mem_of_getElem? hi)
  obtain rfl := Option.some.inj (hr.symm.trans hr')
  obtain ⟨s, hs, hreferenced⟩ := h.ordered.upward.around hr hreferenced hj
  obtain ⟨l, hl⟩ := List.mem_iff_getElem?.1 (mem_places.2 ⟨s, hs, hreferenced⟩)
  exact ⟨l, s, lt_of_places hi hl (h.ordered.parent i r hr j hj), hl, hs⟩

end Records

/-- **What histories have in common**, as long as no two pieces that were
asked for have one name. -/
theorem Made.arranged {precision : Nat} {calls : List (ClipCall α)} {marks : List Nat}
    (h : Made precision calls marks f)
    (hinj : Set.InjOn (stableId "clip") {key | ∃ call ∈ calls, f.pieceKey (f.asked call) = key}) :
    f.Arranged calls marks := by
  have hrecords := h.records
  have hkeys : f.keys ⊆ {key | ∃ call ∈ calls, f.pieceKey (f.asked call) = key} := by
    rintro key ⟨i, r, hr, rfl⟩
    obtain ⟨call, hcall, _, hkey⟩ := hrecords.sought i r hr
    exact ⟨call, hcall, hkey.symm⟩
  refine ⟨fun i j r hr hj => hrecords.ordered.parent i r hr j hj, hrecords.flat,
    fun i j r s hr hs hid => hrecords.ordered.eq_of_id_eq (hinj.mono hkeys) hr hs hid,
    fun x hx => ?_, fun x hx y hy => ?_, fun i j r hr hreferenced hj =>
      hrecords.ordered.upward.around hr hreferenced hj,
    ⟨f.places, f.pairwise_places.imp Nat.ne_of_lt, fun i => hrecords.mem_places_iff,
      fun k i j r hi hr hj => ?_, f.toNodes_eq_places⟩,
    fun k n hn value hvalue => ?_⟩
  · obtain ⟨r, hr, hparent, hid⟩ := hrecords.answered x hx
    refine ⟨r, hr, samePiece_of_key_eq hparent (hinj (hkeys ⟨_, r, hr, rfl⟩) ⟨x, hx, rfl⟩ ?_)⟩
    rw [← hid, hrecords.ordered.named _ r hr, regionId_eq]
  · obtain ⟨r, hr, hxparent, hxid⟩ := hrecords.answered x hx
    obtain ⟨s, hs, hyparent, hyid⟩ := hrecords.answered y hy
    constructor
    · intro hsame
      rw [hsame, hs] at hr
      obtain rfl := Option.some.inj hr
      exact samePiece_of_key_eq (hxparent.symm.trans hyparent)
        (hinj ⟨x, hx, rfl⟩ ⟨y, hy, rfl⟩ (hxid.symm.trans hyid))
    · intro hsame
      refine hrecords.ordered.distinct _ _ r s hr hs ?_ ?_
      · rw [hxparent, hyparent, hsame.1]
      · rw [hxid, hyid, hsame.key_eq]
  · obtain ⟨l, _, hlk, hl, _⟩ := hrecords.parent_written hi hr hj
    exact ⟨l, hlk, hl⟩
  · obtain ⟨i, r, hi, hr, rfl⟩ := Records.getElem?_toNodes hn
    rw [get?_clipPath_regionNode, Option.map_eq_some_iff] at hvalue
    obtain ⟨j, hj, rfl⟩ := hvalue
    obtain ⟨l, s, hlk, hl, hs⟩ := hrecords.parent_written hi hr hj
    refine ⟨l, f.regionNode s, s.id, hlk, Records.toNodes_getElem? hl hs,
      f.get?_id_regionNode s, ?_⟩
    rw [id_of_getElem? hs]

end ClipForest

end PageSvg
