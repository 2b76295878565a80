import PageSvg.Proofs.Canvas.Reachability
import PageSvg.Proofs.Canvas.SharedCache
import PageSvg.Proofs.ClipAlike
import PageSvg.Proofs.Layout.Classes

/-!
# Orderly canvases

What holds of the canvas of a page all the time, on every level of nesting, unless somebody asks to
stop: regions are told apart by their parents and names, classes are named by their declarations,
and whatever pages share was found in the library.
-/

namespace PageSvg

open Draw

variable {α : Type}

/-- Regions, rules and shared resources are as drawing leaves them, and there is no request to
stop. -/
structure Canvas.Orderly (s : Setting α) (c : Canvas α) : Prop where
  precision : c.clips.precision = s.options.precision
  distinct : c.clips.Distinct
  named : c.definitions.Named
  found : ∀ k, c.cache = some k → k.FoundIn s.library
  running : c.cancellation.onset = none

namespace Canvas.Orderly

variable {s : Setting α} {c d : Canvas α}

/-- The context does not matter. -/
theorem within (h : c.Orderly s) (hd : d = { c with context := d.context }) : d.Orderly s := by
  rw [hd]
  exact ⟨h.precision, h.distinct, h.named, h.found, h.running⟩

theorem insertNew (h : c.Orderly s) (id : String) (node : Node) :
    Orderly s { c with definitions := c.definitions.insertNew id node } :=
  ⟨h.precision, h.distinct, h.named.insertNew id node, h.found, h.running⟩

theorem withCache (h : c.Orderly s) {k : Option (ResourceCache α)}
    (hk : ∀ l, k = some l → l.FoundIn s.library) : Orderly s { c with cache := k } :=
  ⟨h.precision, h.distinct, h.named, hk, h.running⟩

variable [Scalar α]

theorem cut (h : c.Orderly s) (parent : Option Nat) (cut : ClipCut α) :
    Orderly s { c with clips := (c.clips.cut parent cut).2 } :=
  ⟨(c.clips.grows_cut parent cut).precision.trans h.precision, h.distinct.cut parent cut, h.named,
    h.found, h.running⟩

theorem mark (h : c.Orderly s) (i : Nat) : Orderly s { c with clips := c.clips.mark i } :=
  ⟨h.precision, h.distinct.mark i, h.named, h.found, h.running⟩

/-! ### Searching -/

section Searching

variable {n : Nesting α} (hlibrary : s.library.Coherent (· = ·))

include hlibrary

/-- The font of a name is that of the page. -/
theorem findFont (h : c.Orderly s) (name : String) :
    ∃ k : Option (ResourceCache α), (∀ l, k = some l → l.FoundIn s.library) ∧
      c.findFont ⟨s, n⟩ name =
        (((s.library.set c.context.resources).fonts.get? name).getD .standIn,
          { c with cache := k }) := by
  cases hcache : c.cache with
  | none =>
    have hown : c.findFont ⟨s, n⟩ name =
        (((s.library.set c.context.resources).fonts.get? name).getD .standIn, c) := by
      unfold Canvas.findFont
      dsimp only
      rw [hcache]
      rfl
    exact ⟨c.cache, h.found, hown⟩
  | some k =>
    obtain ⟨k', hk', _, hfound⟩ := c.findFont_own (n := n) hcache (h.found k hcache) hlibrary name
    exact ⟨some k', fun _ e => Option.some.inj e ▸ hk', hfound⟩

omit [Scalar α] in
/-- The colour space of a name is that of the page. -/
theorem findColorSpace (h : c.Orderly s) (name : String) :
    ∃ k : Option (ResourceCache α), (∀ l, k = some l → l.FoundIn s.library) ∧
      c.findColorSpace ⟨s, n⟩ name =
        (s.ownColorSpace? c.context.resources name, { c with cache := k }) := by
  cases hcache : c.cache with
  | none =>
    have hown : c.findColorSpace ⟨s, n⟩ name =
        (s.ownColorSpace? c.context.resources name, c) := by
      unfold Canvas.findColorSpace Setting.ownColorSpace?
      cases ColorSpace.predefined? (α := α) name with
      | some space => rfl
      | none =>
        dsimp only
        rw [hcache]
        rfl
    exact ⟨c.cache, h.found, hown⟩
  | some k =>
    obtain ⟨k', hk', _, hfound, hspace⟩ :=
      c.findColorSpace_own (n := n) hcache (h.found k hcache) hlibrary (fun _ => rfl) name
    exact ⟨some k', fun _ e => Option.some.inj e ▸ hk', Prod.ext (eq_of_rel hspace) hfound⟩

end Searching

/-! ### Steps -/

variable {n : Nesting α} (hlibrary : s.library.Coherent (· = ·))

omit hlibrary in
theorem apply (h : c.Orderly s) (a : Adjustment α) (ha : a.searches = false)
    (env : Environment α) : (a.apply env c).Orderly s := by
  have hself : a.apply env c = (a.apply env c).onto c := a.apply_onto (c := c) ha env c
  have hpage : (a.apply env c).onto c = { c with context := ((a.apply env c).onto c).context } := rfl
  rw [← hself] at hpage
  exact h.within hpage

include hlibrary in
theorem adjust (h : c.Orderly s) (a : Adjustment α) : (a.apply ⟨s, n⟩ c).Orderly s := by
  by_cases ha : a.searches = true
  · cases a with
    | selectFont name size =>
      obtain ⟨k, hk, hfound⟩ := h.findFont (n := n) hlibrary name
      show (c.selectFont ⟨s, n⟩ name size).Orderly s
      unfold Canvas.selectFont
      rw [hfound]
      exact ((h.withCache hk).apply (.font _ size) rfl ⟨s, n⟩).within rfl
    | colorSpace target name =>
      obtain ⟨k, hk, hfound⟩ := h.findColorSpace (n := n) hlibrary name
      show (c.setColorSpace ⟨s, n⟩ target name).Orderly s
      unfold Canvas.setColorSpace
      split
      · exact h
      · rw [hfound]
        exact (h.withCache hk).within rfl
    | _ => cases ha
  · exact h.apply a (Bool.not_eq_true _ ▸ ha) ⟨s, n⟩

theorem restore (h : c.Orderly s) : c.restore.Orderly s := by
  unfold Canvas.restore
  split
  · exact h
  · dsimp only
    split
    · exact h.within rfl
    · exact h.within rfl

theorem append (h : c.Orderly s) (o : Options α) (node : Node) (bounds : Option (Rectangle α)) :
    (c.append o node bounds).Orderly s := by
  unfold Canvas.append
  dsimp only
  split
  · exact h.within rfl
  · split
    · exact h.within rfl
    · exact (h.mark _).within rfl

theorem formRegion (h : c.Orderly s) (viewport : Rectangle α) (parent : Option Nat)
    (box : Option (Rectangle α)) (m : Matrix α) :
    (c.formRegion viewport parent box m).2.Orderly s := by
  unfold Canvas.formRegion Canvas.clipToBox
  split
  · exact h
  · dsimp only
    split
    · exact h
    · exact h.cut parent (.path _ false)

end Canvas.Orderly

/-! ### Reached states -/

section Reached

variable [Scalar α]

/-- Each step keeps the canvas orderly. -/
theorem kept_orderly {s : Setting α} (hlibrary : s.library.Coherent (· = ·)) (deep : Prop) :
    Kept s deep (Canvas.Orderly s) fun _ _ => True where
  look h := ⟨h.precision, h.distinct, h.named, h.found, h.running⟩
  adjust a _ h := h.adjust hlibrary a
  save h := h.within rfl
  restore h := h.restore
  setSoftMask _ h := h.within rfl
  layout _ h := h.within rfl
  outlines _ h := h.within rfl
  style hn _ scale h := by
    refine matches_currentStyle hn ⟨rfl, h⟩ rfl ?_ scale
    rintro _ c textStyle ⟨rfl, h⟩
    exact ⟨rfl, h.within rfl⟩
  push _ h := h.within rfl
  append node bounds h := h.append s.options node bounds
  classes _ hnamed h := ⟨h.precision, h.distinct, hnamed h.named, h.found, h.running⟩
  insert _ _ _ h := h.insertNew _ _
  insertCell _ _ _ _ h := h.insertNew _ _
  clipTo evenOdd _ h := (h.cut _ (.path _ evenOdd)).within rfl
  clipToText nodes h := (h.cut _ (.text nodes)).within rfl
  formRegion parent box placement _ h := h.formRegion s.viewport parent box placement
  activeForms _ _ h := ⟨h.precision, h.distinct, h.named, h.found, h.running⟩
  startCell _ _ _ _ := trivial
  startGlyph _ _ := trivial
  startForm _ _ _ := trivial
  startPage _ _ _ _ _ := trivial

theorem invariant_orderly {s : Setting α} (hlibrary : s.library.Coherent (· = ·)) :
    Invariant s (fun _ _ => Canvas.Orderly s) fun _ _ => True where
  kept level _ := kept_orderly hlibrary (level ≠ 0)
  enter _ _ _ h _ := ⟨h.precision, h.distinct, h.named, h.found, h.running⟩
  leave _ _ h := ⟨h.precision, h.distinct, h.named, h.found, h.running⟩

/-- Every state that a page passes through is orderly. -/
theorem Converter.orderly_of_reaches {v : Converter α} {p : Page α} {outer : List (Context α)}
    {c : Canvas α} (hlibrary : v.library.Coherent (· = ·)) (hcache : v.cache.FoundIn v.library)
    (hrunning : v.cancellation.onset = none) (h : v.Reaches p outer c) :
    c.Orderly (p.setting v.options v.library) := by
  have hstart : (v.canvas p).Orderly (p.setting v.options v.library) := by
    refine ⟨rfl, ClipForest.distinct_empty _, fun _ hrule => absurd hrule List.not_mem_nil, ?_,
      hrunning⟩
    rintro k e
    exact Option.some.inj e ▸ hcache
  obtain ⟨_, hc⟩ := (invariant_orderly hlibrary).of_reaches hstart h
  exact hc

end Reached

end PageSvg
