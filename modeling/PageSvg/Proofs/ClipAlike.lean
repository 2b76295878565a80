import PageSvg.Proofs.ClipHistory

/-!
# Regions that are cut alike

The clip regions of one forest are compared with those of another, by their names, their shapes and
what they are cut out of; their places do not matter. Cutting regions alike in both forests gives
regions that are alike, as long as one name always stands for one shape.
-/

namespace PageSvg.ClipForest

variable {α : Type} {f f' g g' : ClipForest α} {p p' q q' : Option Nat} {i j : Nat}

/-- Regions of one parent and one name are the same region. -/
def Distinct (f : ClipForest α) : Prop :=
  ∀ (i j : Nat) (r s : ClipRegion α), f.regions[i]? = some r → f.regions[j]? = some s →
    r.parent = s.parent → r.id = s.id → i = j

/-- Regions of one name in the two forests are cut by one shape. -/
def Consistent (f g : ClipForest α) : Prop :=
  ∀ (i j : Nat) (r s : ClipRegion α), f.regions[i]? = some r → g.regions[j]? = some s →
    s.id = r.id → s.shape = r.shape

/-- The regions, or the whole area, are alike: of one name, cut by one shape out of regions that are
alike. -/
inductive CutAlike (f g : ClipForest α) : Option Nat → Option Nat → Prop
  | whole : CutAlike f g none none
  | cut {i j : Nat} {r s : ClipRegion α} (hr : f.regions[i]? = some r) (hs : g.regions[j]? = some s)
      (id : s.id = r.id) (shape : s.shape = r.shape) (parent : CutAlike f g r.parent s.parent) :
      CutAlike f g (some i) (some j)

/-! ### Growing forests -/

theorem Consistent.of_grows (hf : f.Grows f') (hg : g.Grows g') (h : f'.Consistent g') :
    f.Consistent g := by
  intro i j r s hr hs hid
  obtain ⟨r', hr', hrr'⟩ := hf.kept i r hr
  obtain ⟨s', hs', hss'⟩ := hg.kept j s hs
  rw [← hrr'.shape, ← hss'.shape]
  exact h i j r' s' hr' hs' (by rw [hss'.id, hrr'.id, hid])

namespace CutAlike

theorem mono (hf : f.Grows f') (hg : g.Grows g') (h : CutAlike f g p q) : CutAlike f' g' p q := by
  induction h with
  | whole => exact .whole
  | cut hr hs id shape _ ih =>
    obtain ⟨r', hr', hrr'⟩ := hf.kept _ _ hr
    obtain ⟨s', hs', hss'⟩ := hg.kept _ _ hs
    refine .cut hr' hs' (by rw [hss'.id, hrr'.id, id]) (by rw [hss'.shape, hrr'.shape, shape]) ?_
    rw [hrr'.parent, hss'.parent]
    exact ih

/-- A region of the first forest is like one of the second at most. -/
theorem right_unique (hg : g.Distinct) (h : CutAlike f g p q) (h' : CutAlike f g p q') :
    q = q' := by
  induction h generalizing q' with
  | whole =>
    cases h'
    rfl
  | cut hr hs id _ _ ih =>
    cases h' with
    | cut hr' hs' id' _ parent' =>
      obtain rfl := Option.some.inj (hr.symm.trans hr')
      exact congrArg some (hg _ _ _ _ hs hs' (ih parent') (id.trans id'.symm))

theorem left_unique (hf : f.Distinct) (h : CutAlike f g p q) (h' : CutAlike f g p' q) :
    p = p' := by
  induction h generalizing p' with
  | whole =>
    cases h'
    rfl
  | cut hr hs id _ _ ih =>
    cases h' with
    | cut hr' hs' id' _ parent' =>
      obtain rfl := Option.some.inj (hs.symm.trans hs')
      exact congrArg some (hf _ _ _ _ hr hr' (ih parent') (id.symm.trans id'))

/-- Regions are the same in one forest if those like them are the same in the other. -/
theorem eq_iff (hf : f.Distinct) (hg : g.Distinct) (h : CutAlike f g p q)
    (h' : CutAlike f g p' q') : p = p' ↔ q = q' := by
  constructor
  · rintro rfl
    exact h.right_unique hg h'
  · rintro rfl
    exact h.left_unique hf h'

/-! ### What regions that are alike have in common -/

theorem isNone_eq (h : CutAlike f g p q) : q.isNone = p.isNone := by
  cases h <;> rfl

theorem id_eq (h : CutAlike f g (some i) (some j)) : g.id j = f.id i := by
  cases h with
  | cut hr hs id => rw [id_of_getElem? hr, id_of_getElem? hs, id]

theorem ids_eq (h : CutAlike f g p q) : (q.map g.id).getD "" = (p.map f.id).getD "" := by
  cases h with
  | whole => rfl
  | cut hr hs id shape parent => exact (cut hr hs id shape parent).id_eq

theorem plainRectangle?_eq (h : CutAlike f g p q) :
    q.bind g.plainRectangle? = p.bind f.plainRectangle? := by
  cases h with
  | whole => rfl
  | @cut i j r s hr hs id shape parent =>
    obtain ⟨_, r_parent, r_shape, _, _⟩ := r
    obtain ⟨_, s_parent, s_shape, _, _⟩ := s
    dsimp only at shape parent
    subst shape
    show g.plainRectangle? j = f.plainRectangle? i
    unfold plainRectangle? get?
    rw [hr, hs]
    cases parent with
    | whole => cases s_shape <;> rfl
    | cut => rfl

end CutAlike

/-! ### Distinct regions -/

theorem distinct_empty (precision : Nat) : ({ precision } : ClipForest α).Distinct :=
  fun _ _ _ _ hr => absurd hr (by simp)

variable [Scalar α]

theorem Distinct.cut (h : f.Distinct) (parent : Option Nat) (cut : ClipCut α) :
    (f.cut parent cut).2.Distinct := by
  rw [cut_eq]
  rcases f.insertPiece_cases (f.piece parent cut) with ⟨i, r, e, _⟩ | ⟨hnew, e⟩
  · rwa [e]
  · rw [e]
    intro i j r s hr hs hparent hid
    rcases getElem?_added hr with hr | ⟨rfl, rfl⟩
    · rcases getElem?_added hs with hs | ⟨rfl, rfl⟩
      · exact h i j r s hr hs hparent hid
      · exact absurd hid (hnew i r hr hparent)
    · rcases getElem?_added hs with hs | ⟨rfl, rfl⟩
      · exact absurd hid.symm (hnew j s hs hparent.symm)
      · rfl

theorem Distinct.mark (h : f.Distinct) (i : Nat) : (f.mark i).Distinct := by
  have hgrows := f.grows_mark i
  intro j k r s hr hs hparent hid
  obtain ⟨r', hr', hrr'⟩ := hgrows.back (f.mark_size i) hr
  obtain ⟨s', hs', hss'⟩ := hgrows.back (f.mark_size i) hs
  exact h j k r' s' hr' hs' (by rw [← hrr'.parent, ← hss'.parent, hparent])
    (by rw [← hrr'.id, ← hss'.id, hid])

/-! ### Cutting -/

/-- The piece that is asked for is made of the same shape and rule, out of a
parent that is alike. -/
theorem CutAlike.piece (h : CutAlike f g p q) (cut : ClipCut α) :
    (g.piece q cut).shape = (f.piece p cut).shape ∧
      (g.piece q cut).evenOdd = (f.piece p cut).evenOdd ∧
      CutAlike f g (f.piece p cut).parent (g.piece q cut).parent := by
  have hrectangle (r : Rectangle α) :
      (g.rectanglePiece q r).shape = (f.rectanglePiece p r).shape ∧
        (g.rectanglePiece q r).evenOdd = (f.rectanglePiece p r).evenOdd ∧
        CutAlike f g (f.rectanglePiece p r).parent (g.rectanglePiece q r).parent := by
    cases h with
    | whole => exact ⟨rfl, rfl, .whole⟩
    | @cut i j r' s' hr hs id shape parent =>
      have hself := CutAlike.cut hr hs id shape parent
      obtain ⟨_, _, _, _, _⟩ := r'
      obtain ⟨_, _, s_shape, _, _⟩ := s'
      dsimp only at shape parent
      subst shape
      unfold rectanglePiece
      simp only [Option.bind_some, get?, hr, hs]
      cases s_shape with
      | rectangle s => exact ⟨rfl, rfl, parent⟩
      | path path => exact ⟨rfl, rfl, hself⟩
      | text nodes => exact ⟨rfl, rfl, hself⟩
  cases cut with
  | path path evenOdd =>
    unfold ClipForest.piece
    dsimp only
    cases Rectangle.ofPath? path with
    | some r => exact hrectangle r
    | none => exact ⟨rfl, rfl, h⟩
  | rectangle r => exact hrectangle r
  | text nodes => exact ⟨rfl, rfl, h⟩

/-- A piece is found or added as a region of its parent and its name. -/
theorem exists_insertPiece (f : ClipForest α) (piece : ClipPiece α) :
    ∃ r, (f.insertPiece piece).2.regions[(f.insertPiece piece).1]? = some r ∧
      r.parent = piece.parent ∧ r.id = stableId "clip" (f.pieceKey piece) := by
  rcases f.insertPiece_cases piece with ⟨i, r, e, hr⟩ | ⟨_, e⟩
  · rw [e]
    exact ⟨r, hr⟩
  · rw [e]
    exact ⟨⟨f.regionId piece.parent piece.shape piece.evenOdd, piece.parent, piece.shape,
      piece.evenOdd, false⟩, by simp [added], rfl, rfl⟩

/-- **Regions that are alike are cut alike** by one shape. -/
theorem CutAlike.cut_alike (h : CutAlike f g p q) (hprecision : g.precision = f.precision)
    (cut : ClipCut α) (hconsistent : (f.cut p cut).2.Consistent (g.cut q cut).2) :
    CutAlike (f.cut p cut).2 (g.cut q cut).2 (some (f.cut p cut).1) (some (g.cut q cut).1) := by
  obtain ⟨hshape, hrule, hparent⟩ := h.piece cut
  have hgrows := f.grows_cut p cut
  have hgrows' := g.grows_cut q cut
  rw [f.cut_eq] at hgrows
  rw [g.cut_eq] at hgrows'
  rw [f.cut_eq, g.cut_eq] at hconsistent ⊢
  obtain ⟨r, hr, hrparent, hrid⟩ := f.exists_insertPiece (f.piece p cut)
  obtain ⟨s, hs, hsparent, hsid⟩ := g.exists_insertPiece (g.piece q cut)
  have hkey : g.pieceKey (g.piece q cut) = f.pieceKey (f.piece p cut) := by
    have hdescribe (shape : ClipShape α) : g.describe shape = f.describe shape := by
      cases shape <;> simp only [describe, hprecision]
    unfold pieceKey regionKey
    rw [hparent.ids_eq, hshape, hrule, hdescribe]
  have hid : s.id = r.id := by rw [hrid, hsid, hkey]
  refine .cut hr hs hid (hconsistent _ _ _ _ hr hs hid) ?_
  rw [hrparent, hsparent]
  exact hparent.mono hgrows hgrows'

end PageSvg.ClipForest
