import PageSvg.Proofs.Canvas.Reachability
import PageSvg.Proofs.ClipHistory
import PageSvg.Proofs.Number.Rational

/-!
# Regions that are held

In every state that a page passes through, the forest of clip regions has come about by cutting and
marking, and every region that a context holds is one of the forest: the one in force, those of
saved states and the one whose group is open, in the context and in all contexts around it.
-/

namespace PageSvg

variable {α : Type}

/-- The context holds a region: in force, in a saved state, or with its group open. -/
def Context.Holds (k : Context α) (i : Nat) : Prop :=
  k.graphics.clip = some i ∨ (∃ g ∈ k.saved, g.clip = some i) ∨ k.openClip = some i

variable [Scalar α]

/-- The forest has a history, and all regions that the contexts hold are regions of it. -/
structure Canvas.Held (precision : Nat) (outer : List (Context α)) (c : Canvas α) : Prop where
  made : ∃ calls marks, ClipForest.Made precision calls marks c.clips
  context : ∀ i, c.context.Holds i → i < c.clips.regions.size
  outer : ∀ k ∈ outer, ∀ i, k.Holds i → i < c.clips.regions.size

namespace Canvas.Held

variable {precision : Nat} {outer : List (Context α)} {c d : Canvas α}

/-- Nothing changes for a canvas of the same forest that holds no more regions. -/
theorem of_holds (h : c.Held precision outer) (hclips : d.clips = c.clips)
    (hholds : ∀ i, d.context.Holds i → c.context.Holds i) : d.Held precision outer where
  made := hclips ▸ h.made
  context i hi := hclips ▸ h.context i (hholds i hi)
  outer := hclips ▸ h.outer

/-- The forest may grow by calls. -/
theorem of_grows (h : c.Held precision outer) (hgrows : c.clips.Grows d.clips)
    (hmade : ∃ calls marks, ClipForest.Made precision calls marks d.clips)
    (hholds : ∀ i, d.context.Holds i → c.context.Holds i ∨ i < d.clips.regions.size) :
    d.Held precision outer where
  made := hmade
  context i hi := (hholds i hi).elim (fun hi => (h.context i hi).trans_le hgrows.size_le) id
  outer k hk i hi := (h.outer k hk i hi).trans_le hgrows.size_le

theorem valid_clip (h : c.Held precision outer) : c.clips.Valid c.graphics.clip :=
  fun i hi => h.context i (.inl hi)

section Cutting

variable (h : c.Held precision outer) {parent : Option Nat} (hparent : c.clips.Valid parent)

include h hparent

theorem made_cut (cut : ClipCut α) :
    (∃ calls marks, ClipForest.Made precision calls marks (c.clips.cut parent cut).2) ∧
      (c.clips.cut parent cut).1 < (c.clips.cut parent cut).2.regions.size := by
  obtain ⟨calls, marks, hmade⟩ := h.made
  have hcut := hmade.cut (fun i hi => hmade.returned (hparent i hi)) cut
  exact ⟨⟨_, marks, hcut⟩, ClipForest.answer_lt_size hcut List.mem_cons_self⟩

/-- The canvas with a region cut that it does not hold yet. -/
theorem cut (cut : ClipCut α) :
    ({ c with clips := (c.clips.cut parent cut).2 } : Canvas α).Held precision outer :=
  h.of_grows (c.clips.grows_cut parent cut) (h.made_cut hparent cut).1 fun _ hi => .inl hi

/-- The canvas clipped to the region. -/
theorem clip (cut : ClipCut α) :
    (({ c with clips := (c.clips.cut parent cut).2 } : Canvas α).mapGraphics fun g =>
    { g with clip := some (c.clips.cut parent cut).1 }).Held precision outer := by
  obtain ⟨hmade, hlt⟩ := h.made_cut hparent cut
  refine h.of_grows (c.clips.grows_cut parent cut) hmade fun i hi => ?_
  rcases hi with hi | hi | hi
  · cases hi
    exact .inr hlt
  · exact .inl (.inr (.inl hi))
  · exact .inl (.inr (.inr hi))

theorem formRegion (viewport : Rectangle α) (box : Option (Rectangle α)) (m : Matrix α) :
    (c.formRegion viewport parent box m).2.Held precision outer ∧
      (c.formRegion viewport parent box m).2.clips.Valid
        (c.formRegion viewport parent box m).1 := by
  unfold Canvas.formRegion Canvas.clipToBox
  split
  · exact ⟨h, hparent⟩
  · dsimp only
    split
    · exact ⟨h, hparent⟩
    · next box _ =>
      refine ⟨h.cut hparent (.path (Path.transform m box.toPath) false), fun i hi => ?_⟩
      cases hi
      exact (h.made_cut hparent (.path (Path.transform m box.toPath) false)).2

end Cutting

theorem restore (h : c.Held precision outer) : c.restore.Held precision outer := by
  cases hsaved : c.context.saved with
  | nil =>
    unfold Canvas.restore
    rw [hsaved]
    exact h
  | cons g rest =>
    have hg : g ∈ c.context.saved := hsaved ▸ List.mem_cons_self
    have hholds (i : Nat) (textStyle : Option (α × TextStyle α))
        (hi : ({ c.context with graphics := g, saved := rest, textStyle } : Context α).Holds i) :
        c.context.Holds i := by
      rcases hi with hi | ⟨g', hg', hi⟩ | hi
      · exact .inr (.inl ⟨g, hg, hi⟩)
      · exact .inr (.inl ⟨g', hsaved ▸ List.mem_cons_of_mem _ hg', hi⟩)
      · exact .inr (.inr hi)
    unfold Canvas.restore
    rw [hsaved]
    dsimp only
    split
    · exact h.of_holds rfl fun i => hholds i _
    · exact h.of_holds rfl fun i => hholds i _

theorem push (h : c.Held precision outer) (node : Node) : (c.push node).Held precision outer := by
  refine h.of_holds rfl fun i hi => ?_
  rcases hi with hi | hi | hi
  · exact .inl hi
  · exact .inr (.inl hi)
  · cases hi

theorem append (h : c.Held precision outer) (o : Options α) (node : Node)
    (bounds : Option (Rectangle α)) : (c.append o node bounds).Held precision outer := by
  unfold Canvas.append
  dsimp only
  cases hclip : c.graphics.clip with
  | none => exact h.push _
  | some region =>
    dsimp only
    split
    · exact h.push _
    · obtain ⟨calls, marks, hmade⟩ := h.made
      have hregion := h.valid_clip region hclip
      obtain ⟨call, hcall, rfl⟩ := hmade.returned hregion
      unfold mapContext
      dsimp only
      rw [Context.pushClipped_eq]
      refine h.of_grows (c.clips.grows_mark _) ⟨calls, _, hmade.mark hcall⟩ fun i hi => ?_
      rcases hi with hi | hi | hi
      · exact .inl (.inl hi)
      · exact .inl (.inr (.inl hi))
      · -- The group that is open now is that of the region in force.
        obtain rfl : call.answer = i := Option.some.inj ((Call.snd_addTo ..).symm.trans hi)
        exact .inr (hregion.trans_le (c.clips.grows_mark _).size_le)

end Canvas.Held

/-! ### Reached states -/

/-- Each step keeps the regions that are held valid; nested content begins in a valid region. -/
theorem kept_held (s : Setting α) (deep : Prop) (outer : List (Context α)) :
    Kept s deep (Canvas.Held s.options.precision outer) fun clips g => clips.Valid g.clip where
  look h := h.of_holds rfl fun _ hi => hi
  adjust {c n} a _ h := by
    have ha := a.adjusts ⟨s, n⟩ c
    refine h.of_holds ha.clips fun i hi => ?_
    rcases hi with hi | hi | hi
    · exact .inl (ha.clip ▸ hi)
    · exact .inr (.inl (ha.saved ▸ hi))
    · exact .inr (.inr ((congrArg Prod.snd ha.drawn).symm.trans hi))
  save h := h.of_holds rfl fun i hi => by
    rcases hi with hi | ⟨g, hg, hi⟩ | hi
    · exact .inl hi
    · rcases List.mem_cons.1 hg with rfl | hg
      · exact .inl hi
      · exact .inr (.inl ⟨g, hg, hi⟩)
    · exact .inr (.inr hi)
  restore h := h.restore
  setSoftMask _ h := h.of_holds rfl fun _ hi => hi
  layout _ h := h.of_holds rfl fun _ hi => hi
  outlines _ h := h.of_holds rfl fun _ hi => hi
  style hn _ scale h := by
    refine matches_currentStyle hn ⟨rfl, h⟩ rfl ?_ scale
    rintro _ c textStyle ⟨rfl, h⟩
    exact ⟨rfl, h.of_holds rfl fun _ hi => hi⟩
  push node h := h.push node
  append node bounds h := h.append s.options node bounds
  classes _ _ h := h.of_holds rfl fun _ hi => hi
  insert _ _ _ h := h.of_holds rfl fun _ hi => hi
  insertCell _ _ _ _ h := h.of_holds rfl fun _ hi => hi
  clipTo evenOdd _ h := h.clip h.valid_clip (.path _ evenOdd)
  clipToText nodes h := h.clip h.valid_clip (.text nodes)
  formRegion parent box placement hparent h := by
    rcases hparent with rfl | rfl
    · exact (h.formRegion (ClipForest.valid_none _) s.viewport box placement).1
    · exact (h.formRegion h.valid_clip s.viewport box placement).1
  activeForms _ _ h := h.of_holds rfl fun _ hi => hi
  startCell t paint _ _ := t.clip_cellState paint ▸ ClipForest.valid_none _
  startGlyph _ h := h.valid_clip
  startForm box ctm h := (h.formRegion h.valid_clip s.viewport box ctm).2
  startPage parent box ctm hparent h := by
    rcases hparent with rfl | rfl
    · exact (h.formRegion (ClipForest.valid_none _) s.viewport box ctm).2
    · exact (h.formRegion h.valid_clip s.viewport box ctm).2

theorem invariant_held (s : Setting α) :
    Invariant s (fun _ outer => Canvas.Held s.options.precision outer)
      fun clips g => clips.Valid g.clip where
  kept level outer := kept_held s (level ≠ 0) outer
  enter graphics resources locked h hG := by
    refine ⟨h.made, fun i hi => ?_, fun k hk => ?_⟩
    · rcases hi with hi | ⟨_, hg, _⟩ | hi
      · exact hG i hi
      · exact absurd hg List.not_mem_nil
      · cases hi
    · rcases List.mem_cons.1 hk with rfl | hk
      · exact h.context
      · exact h.outer k hk
  leave _ _ h := ⟨h.made, h.outer _ List.mem_cons_self,
    fun k hk => h.outer k (List.mem_cons_of_mem _ hk)⟩

/-- A page begins in a state that holds no region. -/
theorem Converter.held_canvas (v : Converter α) (p : Page α) :
    (v.canvas p).Held v.options.precision [] := by
  refine ⟨⟨[], [], .start⟩, fun i hi => ?_, fun k hk => nomatch hk⟩
  rcases hi with hi | ⟨_, hg, _⟩ | hi
  · cases hi
  · exact absurd hg List.not_mem_nil
  · cases hi

theorem Converter.held_of_reaches {v : Converter α} {p : Page α} {outer : List (Context α)}
    {c : Canvas α} (h : v.Reaches p outer c) : c.Held v.options.precision outer := by
  obtain ⟨_, hc⟩ := (invariant_held _).of_reaches (v.held_canvas p) h
  exact hc

/-- **Regions are coherent.** However a forest of clip regions comes about, it is arranged,
unless two pieces that were asked for have one name. The forest of every state that a page passes
through has come about in this way, and the regions that the context and the contexts around it
hold are regions of it. -/
theorem regions_coherent :
    (∀ (precision : Nat) (f : ClipForest α) (calls : List (ClipCall α)) (marks : List Nat),
      ClipForest.Made precision calls marks f →
      Set.InjOn (stableId "clip") {key | ∃ call ∈ calls, f.pieceKey (f.asked call) = key} →
      f.Arranged calls marks) ∧
    ∀ (v : Converter α) (p : Page α) (outer : List (Context α)) (c : Canvas α),
      v.Reaches p outer c →
      (∃ calls marks, ClipForest.Made v.options.precision calls marks c.clips) ∧
        ∀ k ∈ c.context :: outer, ∀ i, k.Holds i → i < c.clips.size := by
  refine ⟨fun precision f calls marks h hinj => h.arranged hinj, fun v p outer c h => ?_⟩
  have hheld := Converter.held_of_reaches h
  exact ⟨hheld.made, List.forall_mem_cons.2 ⟨hheld.context, hheld.outer⟩⟩

section Example

attribute [local instance] Scalar.rational

/-- A square is cut, then a larger square in it, which comes to the square itself, and then text,
which is marked; and a page without content begins in a state that holds no region. -/
theorem regions_coherent_squares :
    (∃ (f : ClipForest ℚ) (calls : List (ClipCall ℚ)), ClipForest.Made 3 calls [1] f ∧
      calls.map (·.answer) = [1, 0, 0] ∧ f.Arranged calls [1]) ∧
    ∃ (v : Converter ℚ) (p : Page ℚ), v.Reaches p [] (v.canvas p) ∧
      ∀ k ∈ [(v.canvas p).context], ∀ i, k.Holds i → i < (v.canvas p).clips.size := by
  let square : ClipCut ℚ := .rectangle ⟨0, 0, 10, 10⟩
  let larger : ClipCut ℚ := .rectangle ⟨0, 0, 20, 20⟩
  let outlines : ClipCut ℚ := .text []
  let f₁ := (({ precision := 3 } : ClipForest ℚ).cut none square).2
  let f₂ := (f₁.cut (some 0) larger).2
  let f₃ := (f₂.cut (some 0) outlines).2
  have ha₁ : (({ precision := 3 } : ClipForest ℚ).cut none square).1 = 0 := by decide +kernel
  have ha₂ : (f₁.cut (some 0) larger).1 = 0 := by decide +kernel
  have ha₃ : (f₂.cut (some 0) outlines).1 = 1 := by decide +kernel
  have h₁ : ClipForest.Made 3 [⟨none, square, 0⟩] [] f₁ :=
    .cut_eq .start (fun _ e => nomatch (e : none = _)) ha₁
  have h₂ : ClipForest.Made 3 [⟨some 0, larger, 0⟩, ⟨none, square, 0⟩] [] f₂ :=
    .cut_eq h₁ (fun _ e => ⟨_, List.mem_cons_self, Option.some.inj e⟩) ha₂
  have h₃ : ClipForest.Made 3 [⟨some 0, outlines, 1⟩, ⟨some 0, larger, 0⟩, ⟨none, square, 0⟩] [] f₃ :=
    .cut_eq h₂ (fun _ e => ⟨_, List.mem_cons_self, Option.some.inj e⟩) ha₃
  have h₄ := h₃.mark List.mem_cons_self
  refine ⟨⟨_, _, h₄, rfl, regions_coherent.1 _ _ _ _ h₄ ?_⟩, ?_⟩
  · -- There are two keys, and their names differ.
    have hkeys : ∀ call ∈ [⟨some 0, outlines, 1⟩, ⟨some 0, larger, 0⟩, ⟨none, square, 0⟩],
        (f₃.mark 1).pieceKey ((f₃.mark 1).asked call) ∈
          ["|R0 0 10 10|nonzero", stableId "clip" "|R0 0 10 10|nonzero" ++ "|T[]|nonzero"] := by
      decide +kernel
    have hnames : ∀ x ∈ ["|R0 0 10 10|nonzero",
          stableId "clip" "|R0 0 10 10|nonzero" ++ "|T[]|nonzero"],
        ∀ y ∈ ["|R0 0 10 10|nonzero",
          stableId "clip" "|R0 0 10 10|nonzero" ++ "|T[]|nonzero"],
        stableId "clip" x = stableId "clip" y → x = y := by
      decide +kernel
    rintro _ ⟨x, hx, rfl⟩ _ ⟨y, hy, rfl⟩ hid
    exact hnames _ (hkeys x hx) _ (hkeys y hy) hid
  · let p : Page ℚ := ⟨⟨0, 0, 10, 10⟩, 0, [], 0, []⟩
    let v : Converter ℚ := { options := .standard, library := #[] }
    have hreaches : v.Reaches p [] (v.canvas p) := v.reaches_canvas rfl rfl
    exact ⟨v, p, hreaches, (regions_coherent.2 v p [] _ hreaches).2⟩

end Example

end PageSvg
