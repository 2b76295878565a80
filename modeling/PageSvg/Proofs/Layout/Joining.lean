import PageSvg.Proofs.Geometry.Placement
import PageSvg.Proofs.Layout.Letters

/-!
# Runs that join

A run that begins where the last one ends and has its style is laid out as the end of that one: the
position changes nothing, no gap is left, and the two texts become one with the sum of the widths.
-/

namespace PageSvg

deriving instance ReflBEq for Rgb

deriving instance ReflBEq for TextStroke

deriving instance ReflBEq for TextStyle

attribute [local instance] Scalar.real

attribute [local instance (high)] Zero.toOfNat0 One.toOfNat1 instOfNatAtLeastTwo
  DivInvMonoid.toDiv

namespace Line

theorem tolerance_nonneg : 0 ≤ (tolerance : ℝ) := by
  unfold tolerance
  norm_num

theorem close_of_abs_sub_le {x y : ℝ} (h : |x - y| ≤ tolerance) : close x y = true := by
  unfold close
  rw [Scalar.abs_real, Scalar.max_real, Scalar.one_real]
  refine decide_eq_true (h.trans (le_mul_of_one_le_right tolerance_nonneg ?_))
  exact le_add_of_nonneg_right (le_max_of_le_left (abs_nonneg x))

theorem close_self (x : ℝ) : close x x = true :=
  close_of_abs_sub_le (by rw [sub_self, abs_zero]; exact tolerance_nonneg)

theorem continues_self (l : Line ℝ) : l.continues l = true := by
  have hrest : l.transform.approxEq l.transform tolerance = true := by
    -- Entries are compared as places and scales of lines are.
    simp only [Matrix.approxEq, Bool.and_eq_true]
    exact ⟨⟨⟨⟨⟨close_self _, close_self _⟩, close_self _⟩, close_self _⟩, close_self _⟩,
      close_self _⟩
  unfold continues
  rw [close_self, close_self, hrest]
  rfl

end Line

namespace TextLayout

variable {o : Options ℝ} {t : TextLayout ℝ} {line : Line ℝ} {m : Matrix ℝ} {text more : String}
  {width further space : ℝ} {style : TextStyle ℝ}

/-- The last paragraph can go on along a line. -/
structure Continues (t : TextLayout ℝ) (line : Line ℝ) : Prop where
  same : t.line.any (·.continues line) = true
  text : t.endsInGlyphs = false

/-- Where a matrix has moved to, a paragraph can go on. -/
theorem continues_position (o : Options ℝ) (t : TextLayout ℝ) (m : Matrix ℝ) :
    let p := m.splitPlacement
    (t.position o m).Continues ⟨p.scale, p.y, p.rest⟩ ∧ (t.position o m).cursor = p.x := by
  intro p
  unfold position
  dsimp only
  split
  · next h =>
    simp only [Bool.and_eq_true, Bool.not_eq_true'] at h
    exact ⟨⟨h.1.1, h.2⟩, rfl⟩
  · exact ⟨⟨Line.continues_self _, rfl⟩, rfl⟩

/-- A run in an open line adds to the last paragraph. -/
theorem addText_eq (hline : t.line.isSome = true) (htext : text ≠ "") :
    t.addText o text width style = { t with
      recent := t.recent.modifyHead fun p =>
        { p with recent := addSpan p.recent text width (leadingSpace o t.pending style) style }
      cursor := t.cursor + width
      pending := 0 } := by
  rw [addText_of_isSome_line hline htext, Scalar.zero_real]

theorem Continues.isSome_line (h : t.Continues line) : t.line.isSome = true := by
  obtain ⟨_, hline, -⟩ := (Option.any_eq_true _ _).1 h.same
  rw [hline]
  rfl

/-- After a run the paragraph can go on. -/
theorem Continues.addText (h : t.Continues line) (htext : text ≠ "") :
    (t.addText o text width style).Continues line := by
  rw [addText_eq h.isSome_line htext]
  refine ⟨h.same, ?_⟩
  have hglyphs := h.text
  obtain ⟨recent, _, _, _⟩ := t
  cases recent with
  | nil => rfl
  | cons p rest => exact hglyphs

/-- A position on the line near the end of the last run adds to the gap. -/
theorem Continues.position_of_near (h : t.Continues line) {x : ℝ}
    (hm : m.splitPlacement = ⟨line.scale, x, line.y, line.transform⟩)
    (hnear : |x - t.cursor| < o.textMergeDistance) :
    t.position o m = { t with pending := t.pending + (x - t.cursor), cursor := x } := by
  have hgoes : (t.line.any (·.continues ⟨line.scale, line.y, line.transform⟩) &&
      decide (Scalar.abs (x - t.cursor) < o.textMergeDistance) && !t.endsInGlyphs) = true := by
    rw [h.same, h.text, Scalar.abs_real, decide_eq_true hnear]
    rfl
  unfold position
  dsimp only
  rw [hm]
  exact if_pos hgoes

/-- A position at the end of the last run changes nothing. -/
theorem Continues.position_eq (h : t.Continues line) (hmerge : 0 < o.textMergeDistance)
    (hm : m.splitPlacement = ⟨line.scale, t.cursor, line.y, line.transform⟩) :
    t.position o m = t := by
  rw [h.position_of_near hm (by rwa [sub_self, abs_zero]), sub_self, add_zero]

/-- No space is left where there is no gap. -/
theorem leadingSpace_zero (o : Options ℝ) (style : TextStyle ℝ) : leadingSpace o 0 style = 0 := by
  unfold leadingSpace
  dsimp only
  split_ifs
  · exact Scalar.zero_real
  · rfl

/-- The extra spaces of a run, and of a second run that follows without one. -/
theorem spaces_append (space : ℝ) (htext : text ≠ "") (hmore : more ≠ "") :
    (space :: List.replicate (text.length - 1) 0) ++ (0 :: List.replicate (more.length - 1) 0) =
      space :: List.replicate ((text ++ more).length - 1) (0 : ℝ) := by
  have hlength {text : String} (h : text ≠ "") : 0 < text.length :=
    Nat.pos_of_ne_zero fun h0 => h (String.length_eq_zero_iff.1 h0)
  have hpos := hlength htext
  have hpos' := hlength hmore
  rw [← List.replicate_succ, List.cons_append, ← List.replicate_add, String.length_append]
  congr 2
  omega

/-- A run joins the last span if that has its style. -/
theorem addSpan_of_beq {last : Span ℝ} (h : (last.style == style) = true) (rest : List (Span ℝ))
    (text : String) (width space : ℝ) :
    addSpan (last :: rest) text width space style =
      { last with
        text := last.text ++ text
        width := last.width + width
        spaces := last.spaces ++ space :: List.replicate (text.length - 1) 0 } :: rest := by
  unfold addSpan
  dsimp only
  rw [if_pos h, Scalar.zero_real]

/-- A run is a span of its own where no span before it has its style. -/
theorem addSpan_of_new {spans : List (Span ℝ)}
    (h : ∀ last ∈ spans.head?, ¬(last.style == style) = true) (text : String) (width space : ℝ) :
    addSpan spans text width space style =
      ⟨text, width, space :: List.replicate (text.length - 1) 0, style⟩ :: spans := by
  cases spans with
  | nil => rw [addSpan, Scalar.zero_real]
  | cons last rest => rw [addSpan, if_neg (h last rfl), Scalar.zero_real]

/-- A run in the style of the last one joins it. -/
theorem addSpan_addSpan (spans : List (Span ℝ)) (htext : text ≠ "") (hmore : more ≠ "") :
    addSpan (addSpan spans text width space style) more further 0 style =
      addSpan spans (text ++ more) (width + further) space style := by
  have hspaces := spaces_append space htext hmore
  -- Whether the run is new or has joined the last span, what follows joins it.
  by_cases h : ∀ last ∈ spans.head?, ¬(last.style == style) = true
  · rw [addSpan_of_new h, addSpan_of_new h, addSpan_of_beq (beq_self_eq_true style), hspaces]
  · push Not at h
    obtain ⟨last, hlast, hstyle⟩ := h
    obtain ⟨rest, rfl⟩ := List.head?_eq_some_iff.1 hlast
    have hjoined : ((⟨last.text ++ text, last.width + width,
        last.spaces ++ space :: List.replicate (text.length - 1) 0, last.style⟩ : Span ℝ).style ==
          style) = true := hstyle
    rw [addSpan_of_beq hstyle, addSpan_of_beq hstyle, addSpan_of_beq hjoined]
    dsimp only
    rw [String.append_assoc, add_assoc, List.append_assoc, hspaces]

/-- A run that follows another one in its style joins it. -/
theorem Continues.addText_addText (h : t.Continues line) (htext : text ≠ "") (hmore : more ≠ "") :
    (t.addText o text width style).addText o more further style =
      t.addText o (text ++ more) (width + further) style := by
  have happend : text ++ more ≠ "" := by
    intro hempty
    have hlength := congrArg String.length hempty
    rw [String.length_append] at hlength
    exact htext (String.length_eq_zero_iff.1 (Nat.eq_zero_of_add_eq_zero_right hlength))
  rw [addText_eq (h.addText htext).isSome_line hmore, addText_eq h.isSome_line htext,
    addText_eq h.isSome_line happend]
  dsimp only
  rw [List.modifyHead_modifyHead, leadingSpace_zero, add_assoc]
  congr 2
  funext p
  exact congrArg (fun recent => { p with recent }) (addSpan_addSpan p.recent htext hmore)

/-- **A run that begins where the last one ends joins it.** -/
theorem addText_position_addText (hmerge : 0 < o.textMergeDistance) {m' : Matrix ℝ}
    (hm : m'.splitPlacement = { m.splitPlacement with x := m.splitPlacement.x + width })
    (htext : text ≠ "") (hmore : more ≠ "") :
    (((t.position o m).addText o text width style).position o m').addText o more further style =
      (t.position o m).addText o (text ++ more) (width + further) style := by
  obtain ⟨hcontinues, hcursor⟩ := continues_position o t m
  have hend : ((t.position o m).addText o text width style).cursor =
      m.splitPlacement.x + width := by
    rw [addText_eq hcontinues.isSome_line htext, hcursor]
  rw [(hcontinues.addText htext).position_eq hmerge (hm.trans (by rw [hend])),
    hcontinues.addText_addText htext hmore]

/-- The first position begins a paragraph. -/
theorem position_empty (o : Options ℝ) (m : Matrix ℝ) :
    (empty : TextLayout ℝ).position o m =
      let p := m.splitPlacement
      ⟨[{ x := p.x, y := p.y, transform := p.rest }], some ⟨p.scale, p.y, p.rest⟩, p.x, 0⟩ := by
  unfold position
  dsimp only
  rw [Scalar.zero_real]
  rfl

/-- The first run, at the position of a matrix that is its own rest. -/
theorem addText_position_empty (hm : m.splitPlacement = ⟨1, 0, 0, m⟩) (htext : text ≠ "") :
    (empty.position o m).addText o text width style =
      { recent := [{
          x := 0
          y := 0
          transform := m
          recent := [⟨text, width, 0 :: List.replicate (text.length - 1) 0, style⟩] }]
        line := some ⟨1, 0, m⟩
        cursor := width
        pending := 0 } := by
  rw [position_empty, hm, addText_eq rfl htext, List.modifyHead_cons]
  dsimp only [addSpan]
  rw [leadingSpace_zero, Scalar.zero_real, zero_add]

/-- Where matrices are their own rests a second run begins where the first one has begun: the gap
before it is the width of the first, taken back. -/
theorem addText_position_addText_of_rest {m' : Matrix ℝ} (hm : m.splitPlacement = ⟨1, 0, 0, m⟩)
    (hm' : m'.splitPlacement = ⟨1, 0, 0, m'⟩) (hsame : m.approxEq m' Line.tolerance = true)
    (hnear : |width| < o.textMergeDistance) (hgap : leadingSpace o (-width) style = -width)
    (htext : text ≠ "") (hmore : more ≠ "") :
    (((empty.position o m).addText o text width style).position o m').addText o more further style =
      { recent := [{
          x := 0
          y := 0
          transform := m
          recent := [⟨text ++ more, width + further, (0 :: List.replicate (text.length - 1) 0) ++
            (-width :: List.replicate (more.length - 1) 0), style⟩] }]
        line := some ⟨1, 0, m⟩
        cursor := further
        pending := 0 } := by
  have hline : Line.continues (⟨1, 0, m⟩ : Line ℝ) ⟨1, 0, m'⟩ = true := by
    unfold Line.continues
    rw [Line.close_self, Line.close_self, hsame]
    rfl
  have hback (recent : List (Paragraph ℝ)) (h : (⟨recent, some ⟨1, 0, m⟩, width, 0⟩ :
        TextLayout ℝ).endsInGlyphs = false) :
      (⟨recent, some ⟨1, 0, m⟩, width, 0⟩ : TextLayout ℝ).position o m' =
        ⟨recent, some ⟨1, 0, m⟩, 0, -width⟩ := by
    have hdistance : decide (Scalar.abs (0 - width) < o.textMergeDistance) = true := by
      rw [zero_sub, Scalar.abs_real, abs_neg]
      exact decide_eq_true hnear
    unfold position
    dsimp only
    rw [hm']
    dsimp only
    rw [Option.any_some, hline, hdistance, h, Bool.not_false, Bool.and_self, Bool.and_self,
      if_pos rfl, zero_sub, zero_add]
  rw [addText_position_empty hm htext, hback _ rfl, addText_eq rfl hmore,
    List.modifyHead_cons]
  dsimp only [addSpan]
  rw [if_pos (beq_self_eq_true style), hgap, zero_add, Scalar.zero_real]

end TextLayout

end PageSvg
