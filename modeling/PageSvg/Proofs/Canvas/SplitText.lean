import PageSvg.Proofs.Canvas.Matching
import PageSvg.Proofs.Canvas.Quiet
import PageSvg.Proofs.Layout.Joining

/-!
# Where a string is cut

A string that is shown in two parts, one after the other, is laid out as the whole: the second part
begins where the first one ends, and joins it. This holds for fonts that decode byte by byte, with
and without word spacing, as long as the scale of the text is not negligible; where it is, the
second part is taken for a step back to the beginning of the first.
-/

namespace PageSvg

open Draw

/-! ### Pieces -/

/-- No piece is empty. -/
theorem ne_nil_of_mem_splitAfterSpaces {bytes piece : List UInt8}
    (h : piece ∈ splitAfterSpaces bytes) : piece ≠ [] := by
  induction bytes generalizing piece with
  | nil => cases h
  | cons x rest ih =>
    rw [splitAfterSpaces] at h
    split at h
    · rcases List.mem_cons.1 h with rfl | h
      · exact List.cons_ne_nil _ _
      · exact ih h
    · split at h
      · obtain rfl := List.mem_singleton.1 h
        exact List.cons_ne_nil _ _
      · next hrest =>
        rw [hrest] at ih
        rcases List.mem_cons.1 h with rfl | h
        · exact List.cons_ne_nil _ _
        · exact ih (List.mem_cons_of_mem _ h)

/-- A string is cut behind its spaces and nowhere else: the pieces of two strings are the pieces of
both together, unless the first one does not end with a space; then its last piece and the first
piece of the other one are one piece. -/
theorem splitAfterSpaces_append (a b : List UInt8) :
    splitAfterSpaces (a ++ b) = splitAfterSpaces a ++ splitAfterSpaces b ∨
      ∃ init p q rest, splitAfterSpaces a = init ++ [p] ∧ splitAfterSpaces b = q :: rest ∧
        splitAfterSpaces (a ++ b) = init ++ (p ++ q) :: rest ∧
        p ≠ [] ∧ q ≠ [] ∧ p.count 0x20 = 0 := by
  have hempty {rest : List UInt8} (hrest : splitAfterSpaces rest = []) : rest = [] := by
    cases rest with
    | nil => rfl
    | cons x rest =>
      rw [splitAfterSpaces] at hrest
      split at hrest
      · cases hrest
      · split at hrest <;> cases hrest
  induction a with
  | nil => exact .inl rfl
  | cons x a ih =>
    by_cases hx : x = 0x20
    · -- A space ends a piece, whatever follows.
      have hcut (l : List UInt8) : splitAfterSpaces (x :: l) = [x] :: splitAfterSpaces l := by
        rw [splitAfterSpaces, if_pos hx]
      rw [List.cons_append, hcut, hcut]
      rcases ih with hsplit | ⟨init, p, q, rest, ha, hb, hab, hnonempty⟩
      · exact .inl (congrArg _ hsplit)
      · exact .inr ⟨[x] :: init, p, q, rest, congrArg _ ha, hb, congrArg _ hab, hnonempty⟩
    · have hfirst {l : List UInt8} {p : List UInt8} {rest : List (List UInt8)}
          (hl : splitAfterSpaces l = p :: rest) : splitAfterSpaces (x :: l) = (x :: p) :: rest := by
        rw [splitAfterSpaces, if_neg hx, hl]
      have hcount {p : List UInt8} (hp : p.count 0x20 = 0) : (x :: p).count 0x20 = 0 := by
        rw [List.count_cons_of_ne hx, hp]
      rw [List.cons_append]
      cases ha : splitAfterSpaces a with
      | nil =>
        obtain rfl := hempty ha
        have hone : splitAfterSpaces [x] = [[x]] := by rw [splitAfterSpaces, if_neg hx, ha]
        cases hb : splitAfterSpaces b with
        | nil =>
          obtain rfl := hempty hb
          exact .inl (List.append_nil _).symm
        | cons q rest =>
          refine .inr ⟨[], [x], q, rest, hone, rfl, hfirst hb, List.cons_ne_nil _ _, ?_, hcount rfl⟩
          exact ne_nil_of_mem_splitAfterSpaces (hb ▸ List.mem_cons_self)
      | cons first pieces =>
        rw [hfirst ha]
        rw [ha] at ih
        rcases ih with hsplit | ⟨init, p, q, rest, ha', hb, hab, hp, hq, hspaces⟩
        · exact .inl (hfirst hsplit)
        · cases init with
          | nil =>
            obtain ⟨rfl, rfl⟩ := List.cons.inj ha'
            exact .inr ⟨[], x :: first, q, rest, rfl, hb, hfirst hab, List.cons_ne_nil _ _, hq,
              hcount hspaces⟩
          | cons piece init =>
            obtain ⟨rfl, rfl⟩ := List.cons.inj ha'
            exact .inr ⟨(x :: first) :: init, p, q, rest, rfl, hb, hfirst hab, hp, hq, hspaces⟩

/-- A font decodes byte by byte, and no byte to nothing. -/
structure Font.DecodesEach (f : Font ℝ) : Prop where
  text : ∀ a b, (f.decode (a ++ b)).text = (f.decode a).text ++ (f.decode b).text
  width : ∀ a b, (f.decode (a ++ b)).width = (f.decode a).width + (f.decode b).width
  glyphCount : ∀ a b,
    (f.decode (a ++ b)).glyphCount = (f.decode a).glyphCount + (f.decode b).glyphCount
  shows : ∀ a, a ≠ [] → (f.decode a).text ≠ ""

attribute [local instance] Scalar.real

attribute [local instance (high)] Zero.toOfNat0 One.toOfNat1 instOfNatAtLeastTwo
  DivInvMonoid.toDiv NNRatCast.toOfScientific

theorem glyphAdvance_append {f : Font ℝ} (hf : f.DecodesEach) (t : TextState ℝ) (a b : List UInt8) :
    glyphAdvance t (f.decode (a ++ b)) =
      glyphAdvance t (f.decode a) + glyphAdvance t (f.decode b) := by
  unfold glyphAdvance
  rw [hf.width, hf.glyphCount]
  have hcount : Scalar.ofInt (((f.decode a).glyphCount + (f.decode b).glyphCount : ℕ) : ℤ) =
      (Scalar.ofInt ((f.decode a).glyphCount : ℤ) +
        Scalar.ofInt ((f.decode b).glyphCount : ℤ) : ℝ) := by
    show (((_ : ℕ) : ℤ) : ℝ) = ((_ : ℤ) : ℝ) + ((_ : ℤ) : ℝ)
    push_cast
    rfl
  rw [hcount]
  ring

/-! ### Runs -/

section Runs

variable {env : Environment ℝ} {font : Font ℝ} {c d e : Canvas ℝ} {scale : ℝ} {style : TextStyle ℝ}

/-- A style that is known for the scale is used again. -/
theorem currentStyle_of_known (hc : c.context.textStyle = some (scale, style)) :
    currentStyle env scale c = .ok style c := by
  unfold currentStyle
  rw [getBind_apply, hc]
  dsimp only
  rw [if_pos (beq_self_eq_true scale)]
  rfl

/-- There is a style for every scale, and it is known from then on. -/
theorem exists_currentStyle (h : env.Isolates) (c : Canvas ℝ) (scale : ℝ) :
    ∃ style d, currentStyle env scale c = .ok style d ∧
      d.context = { c.context with textStyle := some (scale, style) } := by
  obtain ⟨style, d, hstyle, hd⟩ := exists_lastStyle h scale c
  refine ⟨style, d, hstyle, ?_⟩
  rcases hd with ⟨rfl, last, hlast, hscale⟩ | ⟨-, hcontext⟩
  · rw [← eq_of_beq hscale, ← hlast]
  · exact hcontext

namespace Canvas

/-- The canvas with its text moved to where the next glyph is drawn. -/
noncomputable def positioned (o : Options ℝ) (c : Canvas ℝ) : Canvas ℝ :=
  c.mapContext fun k => { k with layout := k.layout.position o c.graphics.textPosition }

/-- The canvas after a run of text. -/
noncomputable def withRun (o : Options ℝ) (c : Canvas ℝ) (text : String) (width : ℝ)
    (style : TextStyle ℝ) (advance : ℝ) : Canvas ℝ :=
  (c.mapContext fun k => { k with layout := k.layout.addText o text width style }).advance advance

/-- From `c` to `d` text moves along its line, and nothing else of the graphics state changes. -/
def MovesAlong (c d : Canvas ℝ) : Prop := ∃ x, d.graphics = (c.advance x).graphics

theorem advance_eq (c : Canvas ℝ) (x : ℝ) :
    c.advance x = c.mapText fun t => { t with matrix := (Matrix.shift x 0).multiply t.matrix } := by
  unfold advance
  rw [Scalar.zero_real]

theorem textPosition_advance (c : Canvas ℝ) (x : ℝ) :
    (c.advance x).graphics.textPosition = (Matrix.shift x 0).multiply c.graphics.textPosition := by
  let rise := GraphicsState.glyphFlip.multiply (.shift 0 c.graphics.text.rise)
  -- Turning glyphs over and raising them does not change the direction of the line.
  have hcommutes : rise.multiply (Matrix.shift x 0) = (Matrix.shift x 0).multiply rise := by
    unfold rise GraphicsState.glyphFlip Matrix.shift Matrix.multiply
    simp [Scalar.zero_real, Scalar.one_real]
  rw [advance_eq]
  unfold GraphicsState.textPosition
  rw [Scalar.zero_real]
  show (rise.multiply ((Matrix.shift x 0).multiply c.graphics.text.matrix)).multiply
    c.graphics.ctm = (Matrix.shift x 0).multiply ((rise.multiply c.graphics.text.matrix).multiply
      c.graphics.ctm)
  rw [← Matrix.multiply_assoc rise, hcommutes, Matrix.multiply_assoc (Matrix.shift x 0),
    Matrix.multiply_assoc (Matrix.shift x 0)]

theorem advance_zero (c : Canvas ℝ) : c.advance 0 = c := by
  have hshift (m : Matrix ℝ) : (Matrix.shift 0 0).multiply m = m := by
    rw [Matrix.shift_multiply]
    simp
  rw [advance_eq]
  simp only [hshift]
  rfl

theorem advance_advance (c : Canvas ℝ) (x y : ℝ) :
    (c.advance x).advance y = c.advance (x + y) := by
  simp only [advance_eq, ← Matrix.shift_multiply_shift]
  rfl

theorem MovesAlong.refl (c : Canvas ℝ) : c.MovesAlong c := ⟨0, by rw [advance_zero]⟩

theorem graphics_advance_congr (h : d.graphics = e.graphics) (x : ℝ) :
    (d.advance x).graphics = (e.advance x).graphics := by
  rw [advance_eq, advance_eq]
  exact congrArg (fun g : GraphicsState ℝ => { g with
    text := { g.text with matrix := (Matrix.shift x 0).multiply g.text.matrix } }) h

theorem MovesAlong.trans (h : c.MovesAlong d) (h' : d.MovesAlong e) : c.MovesAlong e := by
  obtain ⟨x, hx⟩ := h
  obtain ⟨y, hy⟩ := h'
  exact ⟨x + y, by rw [hy, graphics_advance_congr hx, advance_advance]⟩

/-- Moving along its line does not scale text. -/
theorem MovesAlong.meanScale_textPosition (h : c.MovesAlong d) :
    d.graphics.textPosition.meanScale = c.graphics.textPosition.meanScale := by
  obtain ⟨x, hx⟩ := h
  rw [hx, textPosition_advance, Matrix.meanScale_shift]

theorem MovesAlong.currentFont (h : c.MovesAlong d) :
    d.graphics.currentFont = c.graphics.currentFont := by
  obtain ⟨x, hx⟩ := h
  rw [hx]
  rfl

theorem MovesAlong.wordSpacing (h : c.MovesAlong d) :
    d.graphics.text.wordSpacing = c.graphics.text.wordSpacing := by
  obtain ⟨x, hx⟩ := h
  rw [hx]
  rfl

end Canvas

/-- A piece is a run at the position of its first glyph, in the style in force there. -/
theorem showPiece_apply (piece : List UInt8) (spaces : Nat)
    (hstyle : currentStyle env c.graphics.textPosition.splitPlacement.scale
      (c.positioned env.options) = .ok style d) :
    showPiece env font piece spaces c =
      let t := c.graphics.text
      let advance := glyphAdvance t (font.decode piece)
      .ok () (d.withRun env.options (font.decode piece).text
        (advance * c.graphics.textPosition.splitPlacement.scale) style
        (advance + t.wordSpacing * Scalar.ofInt spaces * GraphicsState.textScale t)) := by
  unfold showPiece
  dsimp only
  rw [getBind_apply, setBind_apply, bind_apply]
  unfold Canvas.positioned at hstyle
  rw [hstyle]
  rfl

/-- Shows pieces of a string, each with word spacing for its spaces. -/
noncomputable def showPieces (env : Environment ℝ) (font : Font ℝ) (pieces : List (List UInt8)) :
    Draw ℝ Unit :=
  pieces.forM fun piece => showPiece env font piece (piece.count 0x20)

section Shown

variable (h : env.Isolates)

include h

/-- A piece moves text along its line. -/
theorem exists_showPiece (font : Font ℝ) (piece : List UInt8) (spaces : Nat) (c : Canvas ℝ) :
    ∃ d, showPiece env font piece spaces c = .ok () d ∧ c.MovesAlong d := by
  obtain ⟨style, d, hstyle, hd⟩ := exists_currentStyle h (c.positioned env.options)
    c.graphics.textPosition.splitPlacement.scale
  have hgraphics : d.graphics = c.graphics := congrArg (·.graphics) hd
  exact ⟨_, showPiece_apply piece spaces hstyle, _, Canvas.graphics_advance_congr hgraphics _⟩

/-- **A piece that is shown in two parts joins**, unless the scale of the text is negligible. The
first part has no space: behind a space the piece ends. -/
theorem showPiece_append (hfont : font.DecodesEach)
    (hscale : Matrix.singularBound < c.graphics.textPosition.meanScale)
    (hmerge : 0 < env.options.textMergeDistance) {p q : List UInt8} (hp : p ≠ []) (hq : q ≠ [])
    (spaces : Nat) :
    (showPiece env font p 0 >>= fun _ => showPiece env font q spaces) c =
      showPiece env font (p ++ q) spaces c := by
  let o := env.options
  let m := c.graphics.textPosition
  let scale := m.splitPlacement.scale
  let t := c.graphics.text
  let advance := glyphAdvance t (font.decode p)
  let gaps := t.wordSpacing * Scalar.ofInt spaces * GraphicsState.textScale t
  obtain ⟨style, d, hstyle, hd⟩ := exists_currentStyle h (c.positioned o) scale
  let e := d.withRun o (font.decode p).text (advance * scale) style advance
  have hfirst : showPiece env font p 0 c = .ok () e := by
    have hnone : (Scalar.ofInt ((0 : ℕ) : ℤ) : ℝ) = 0 := Int.cast_zero
    rw [showPiece_apply p 0 hstyle]
    dsimp only
    rw [hnone, mul_zero, zero_mul, add_zero]
  have hgraphics : d.graphics = c.graphics := congrArg (·.graphics) hd
  have hmoved : e.graphics = (c.advance advance).graphics :=
    Canvas.graphics_advance_congr hgraphics advance
  have hsplit : e.graphics.textPosition.splitPlacement =
      { m.splitPlacement with x := m.splitPlacement.x + advance * scale } := by
    rw [hmoved, Canvas.textPosition_advance, Matrix.splitPlacement_shift hscale]
  -- The second part begins where the first one ends, on the same line and in the same style.
  have hknown : currentStyle env e.graphics.textPosition.splitPlacement.scale (e.positioned o) =
      .ok style (e.positioned o) := by
    refine currentStyle_of_known ?_
    rw [hsplit]
    exact congrArg (·.textStyle) hd
  have hsecond : showPiece env font q spaces e =
      .ok () ((e.positioned o).withRun o (font.decode q).text
        (glyphAdvance t (font.decode q) * scale) style
        (glyphAdvance t (font.decode q) + gaps)) := by
    rw [showPiece_apply q spaces hknown, hsplit, hmoved]
    rfl
  have hlayout : d.context.layout = c.context.layout.position o m := congrArg (·.layout) hd
  have hwhole : (font.decode (p ++ q)).text = (font.decode p).text ++ (font.decode q).text :=
    hfont.text p q
  have hadvance : glyphAdvance t (font.decode (p ++ q)) =
      advance + glyphAdvance t (font.decode q) := glyphAdvance_append hfont t p q
  have hjoin : ((d.context.layout.addText o (font.decode p).text (advance * scale) style).position o
        e.graphics.textPosition).addText o (font.decode q).text
          (glyphAdvance t (font.decode q) * scale) style =
      d.context.layout.addText o (font.decode (p ++ q)).text
        (glyphAdvance t (font.decode (p ++ q)) * scale) style := by
    rw [hlayout, hwhole, hadvance, add_mul]
    exact TextLayout.addText_position_addText hmerge hsplit (hfont.shows p hp) (hfont.shows q hq)
  rw [bind_apply, hfirst, showPiece_apply (p ++ q) spaces hstyle]
  dsimp only
  rw [hsecond]
  congr 1
  calc (e.positioned o).withRun o (font.decode q).text (glyphAdvance t (font.decode q) * scale) style
        (glyphAdvance t (font.decode q) + gaps)
      = ((d.mapContext fun k => { k with
          layout := ((d.context.layout.addText o (font.decode p).text (advance * scale)
            style).position o e.graphics.textPosition).addText o (font.decode q).text
              (glyphAdvance t (font.decode q) * scale) style }).advance advance).advance
          (glyphAdvance t (font.decode q) + gaps) := rfl
    _ = (d.mapContext fun k => { k with
          layout := d.context.layout.addText o (font.decode (p ++ q)).text
            (glyphAdvance t (font.decode (p ++ q)) * scale) style }).advance
          (glyphAdvance t (font.decode (p ++ q)) + gaps) := by
        rw [hjoin, Canvas.advance_advance, hadvance, add_assoc]
    _ = _ := rfl

omit h in
theorem showPieces_cons (font : Font ℝ) (piece : List UInt8) (rest : List (List UInt8))
    (c : Canvas ℝ) :
    showPieces env font (piece :: rest) c =
      (showPiece env font piece (piece.count 0x20) >>= fun _ => showPieces env font rest) c := rfl

omit h in
/-- After some pieces the others are shown. -/
theorem showPieces_append {pieces : List (List UInt8)}
    (hpieces : showPieces env font pieces c = .ok () d) (rest : List (List UInt8)) :
    showPieces env font (pieces ++ rest) c = showPieces env font rest d := by
  induction pieces generalizing c with
  | nil =>
    obtain ⟨-, rfl⟩ := EStateM.Result.ok.inj hpieces
    rfl
  | cons piece pieces ih =>
    rw [showPieces_cons] at hpieces
    obtain ⟨_, e, hpiece, hrest⟩ := (bind_eq_ok _).1 hpieces
    rw [List.cons_append, showPieces_cons, bind_apply, hpiece]
    exact ih hrest

/-- Pieces move text along its line. -/
theorem exists_showPieces (font : Font ℝ) (pieces : List (List UInt8)) (c : Canvas ℝ) :
    ∃ d, showPieces env font pieces c = .ok () d ∧ c.MovesAlong d := by
  induction pieces generalizing c with
  | nil => exact ⟨c, rfl, .refl c⟩
  | cons piece rest ih =>
    obtain ⟨d, hpiece, hd⟩ := exists_showPiece h font piece (piece.count 0x20) c
    obtain ⟨e, hrest, he⟩ := ih d
    refine ⟨e, ?_, hd.trans he⟩
    rw [showPieces_cons, bind_apply, hpiece]
    exact hrest

/-- The pieces of two strings join where the strings meet. -/
theorem showPieces_splitAfterSpaces_append (hfont : font.DecodesEach)
    (hscale : Matrix.singularBound < c.graphics.textPosition.meanScale)
    (hmerge : 0 < env.options.textMergeDistance) (a b : List UInt8)
    (ha : showPieces env font (splitAfterSpaces a) c = .ok () d) :
    showPieces env font (splitAfterSpaces b) d =
      showPieces env font (splitAfterSpaces (a ++ b)) c := by
  rcases splitAfterSpaces_append a b with hsplit | ⟨init, p, q, rest, hsa, hb, hab, hp, hq, hcount⟩
  · rw [hsplit, showPieces_append ha]
  · obtain ⟨e, hinit, he⟩ := exists_showPieces h font init c
    have hjoin := showPiece_append h hfont (he.meanScale_textPosition ▸ hscale) hmerge hp hq
      (q.count 0x20)
    rw [hsa, showPieces_append hinit, showPieces_cons, hcount] at ha
    obtain ⟨_, f, hlast, hnil⟩ := (bind_eq_ok _).1 ha
    obtain rfl : d = f := (EStateM.Result.ok.inj hnil).2.symm
    rw [bind_apply, hlast] at hjoin
    have hjoin : showPiece env font q (q.count 0x20) d =
        showPiece env font (p ++ q) (q.count 0x20) e := hjoin
    rw [hab, hb, showPieces_append hinit, showPieces_cons, showPieces_cons, List.count_append, hcount,
      zero_add, bind_apply, bind_apply, hjoin]

end Shown

/-- A string is shown in pieces where word spacing applies. -/
theorem showText_apply (hplain : c.graphics.currentFont.procedures = none) (bytes : List UInt8) :
    showText env bytes c =
      if (!(c.graphics.text.wordSpacing == 0) && c.graphics.currentFont.wordSpacing) = true then
        showPieces env c.graphics.currentFont (splitAfterSpaces bytes) c
      else showPiece env c.graphics.currentFont bytes 0 c := by
  unfold showText
  rw [getBind_apply, hplain, Scalar.zero_real]
  dsimp only
  split_ifs <;> rfl

/-- **A string can be shown in two parts.** -/
theorem showText_append (h : env.Isolates) (hplain : c.graphics.currentFont.procedures = none)
    (hfont : c.graphics.currentFont.DecodesEach)
    (hscale : Matrix.singularBound < c.graphics.textPosition.meanScale)
    (hmerge : 0 < env.options.textMergeDistance) {a b : List UInt8} (ha : a ≠ []) (hb : b ≠ []) :
    ∃ d e, showText env a c = .ok () d ∧ showText env b d = .ok () e ∧
      showText env (a ++ b) c = .ok () e := by
  let font := c.graphics.currentFont
  have hsecond {d : Canvas ℝ} (hd : c.MovesAlong d) : showText env b d =
      if (!(c.graphics.text.wordSpacing == 0) && font.wordSpacing) = true then
        showPieces env font (splitAfterSpaces b) d
      else showPiece env font b 0 d := by
    rw [showText_apply (hd.currentFont ▸ hplain), hd.currentFont, hd.wordSpacing]
  rw [showText_apply hplain, showText_apply hplain]
  by_cases hsplit : (!(c.graphics.text.wordSpacing == 0) && font.wordSpacing) = true
  · obtain ⟨d, hfirst, hd⟩ := exists_showPieces h font (splitAfterSpaces a) c
    obtain ⟨e, hrest, -⟩ := exists_showPieces h font (splitAfterSpaces b) d
    refine ⟨d, e, ?_, ?_, ?_⟩
    · rw [if_pos hsplit, hfirst]
    · rw [hsecond hd, if_pos hsplit, hrest]
    · rw [if_pos hsplit, ← hrest,
        showPieces_splitAfterSpaces_append h hfont hscale hmerge a b hfirst]
  · obtain ⟨d, hfirst, hd⟩ := exists_showPiece h font a 0 c
    obtain ⟨e, hrest, -⟩ := exists_showPiece h font b 0 d
    have hjoin := showPiece_append h hfont hscale hmerge ha hb 0
    rw [bind_apply, hfirst] at hjoin
    refine ⟨d, e, ?_, ?_, ?_⟩
    · rw [if_neg hsplit, hfirst]
    · rw [hsecond hd, if_neg hsplit, hrest]
    · rw [if_neg hsplit, ← hrest]
      exact hjoin.symm

end Runs

section Operations

variable {env : Environment ℝ} {c d : Canvas ℝ}

theorem execute_show {bytes : List UInt8} (h : showText env bytes c = .ok () d) :
    execute env ⟨"Tj", [.string bytes]⟩ c = .ok true d := by
  show (showText env bytes >>= fun _ => pure true) c = _
  rw [bind_apply, h]
  rfl

set_option maxRecDepth 2000 in
theorem execute_showAdjusted (items : List (Operand ℝ)) :
    execute env ⟨"TJ", [.array items]⟩ c = (showAdjusted env items >>= fun _ => pure true) c := rfl

/-- A string in an array is shown, and then the rest. -/
theorem showAdjusted_string {bytes : List UInt8} (h : showText env bytes c = .ok () d)
    (rest : List (Operand ℝ)) :
    showAdjusted env (.string bytes :: rest) c = showAdjusted env rest d := by
  rw [showAdjusted]
  dsimp only
  rw [bind_apply, h]

/-- After some items of an array the others are shown. -/
theorem showAdjusted_append {items : List (Operand ℝ)} (h : showAdjusted env items c = .ok () d)
    (rest : List (Operand ℝ)) :
    showAdjusted env (items ++ rest) c = showAdjusted env rest d := by
  induction items generalizing c with
  | nil =>
    obtain ⟨-, rfl⟩ := EStateM.Result.ok.inj h
    rfl
  | cons item items ih =>
    -- Whatever the first item does, the others come after it.
    obtain ⟨x, hx⟩ : ∃ x : Draw ℝ Unit, ∀ rest, showAdjusted env (item :: rest) =
        (x >>= fun _ => showAdjusted env rest) := by
      cases item with
      | string bytes => exact ⟨showText env bytes, fun _ => rfl⟩
      | integer n => exact ⟨_, fun _ => rfl⟩
      | real y => exact ⟨_, fun _ => rfl⟩
      | _ => exact ⟨pure (), fun _ => rfl⟩
    rw [hx] at h
    obtain ⟨_, e, hitem, hrest⟩ := (bind_eq_ok _).1 h
    rw [List.cons_append, hx, bind_apply, hitem]
    exact ih hrest

end Operations

/-- **Where a string is cut does not matter.** Two strings that are shown one after the other, by
two operations or as neighbours in an array, leave the canvas that their concatenation leaves
when it is shown at once: the same matrix of text, the same paragraphs, spans and spaces. The
font decodes byte by byte, runs that are near each other are merged, and the mean scale of the
text is not negligible. -/
theorem strings_join (s : Setting ℝ) (level : Nat) (c : Canvas ℝ) (a b : List UInt8)
    (hplain : c.graphics.currentFont.procedures = none)
    (hfont : c.graphics.currentFont.DecodesEach)
    (hscale : Matrix.singularBound < c.graphics.textPosition.meanScale)
    (hmerge : 0 < s.options.textMergeDistance) (ha : a ≠ []) (hb : b ≠ []) :
    let env : Environment ℝ := { toSetting := s, nested := s.nested level }
    ∃ e, execute env ⟨"Tj", [.string (a ++ b)]⟩ c = .ok true e ∧
      (∃ d, execute env ⟨"Tj", [.string a]⟩ c = .ok true d ∧
        execute env ⟨"Tj", [.string b]⟩ d = .ok true e) ∧
      ∀ before rest start, execute env ⟨"TJ", [.array before]⟩ start = .ok true c →
        execute env ⟨"TJ", [.array (before ++ .string a :: .string b :: rest)]⟩ start =
          execute env ⟨"TJ", [.array rest]⟩ e := by
  intro env
  obtain ⟨d, e, hfirst, hsecond, hwhole⟩ :=
    showText_append (s.nested_isolates level) hplain hfont hscale hmerge ha hb
  refine ⟨e, execute_show hwhole, ⟨d, execute_show hfirst, execute_show hsecond⟩,
    fun before rest start hbefore => ?_⟩
  have hbefore : showAdjusted env before start = .ok () c := by
    rw [execute_showAdjusted] at hbefore
    obtain ⟨_, _, hshown, hdone⟩ := (bind_eq_ok _).1 hbefore
    obtain ⟨-, rfl⟩ := EStateM.Result.ok.inj hdone
    exact hshown
  rw [execute_showAdjusted, execute_showAdjusted, bind_apply, bind_apply,
    showAdjusted_append hbefore, showAdjusted_string hfirst, showAdjusted_string hsecond]

section Example

/-- The font for missing fonts decodes byte by byte. -/
theorem Font.decodesEach_standIn : (Font.standIn : Font ℝ).DecodesEach where
  text a b := by
    show String.ofList ((a ++ b).map _) = _
    rw [List.map_append, String.ofList_append]
    rfl
  width a b := by
    show ((((a ++ b).length : ℕ) : ℤ) : ℝ) * _ = ((a.length : ℤ) : ℝ) * _ + ((b.length : ℤ) : ℝ) * _
    rw [List.length_append]
    push_cast
    ring
  glyphCount a b := List.length_append
  shows a ha h := by
    have hlength : (String.ofList (a.map fun b => Char.ofNat b.toNat)).length = 0 := by
      rw [show String.ofList (a.map fun b => Char.ofNat b.toNat) = "" from h]
      rfl
    rw [String.length_ofList, List.length_map] at hlength
    exact ha (List.length_eq_zero_iff.1 hlength)

/-- A canvas on which text of one unit is about to be shown, under a scale. -/
noncomputable def typedAt (scale wordSpacing : ℝ) : Canvas ℝ where
  context :=
    { Context.start (GraphicsState.initial .identity) 0 with
      graphics := { GraphicsState.initial .identity with
        text := { TextState.standard with
          matrix := ⟨scale, 0, 0, scale, 0, 0⟩
          font := some .standIn
          fontSize := 1
          wordSpacing := wordSpacing } } }
  clips := { precision := (Options.standard : Options ℝ).precision }

theorem textPosition_typedAt (scale wordSpacing : ℝ) :
    (typedAt scale wordSpacing).graphics.textPosition = ⟨scale, 0, 0, -scale, 0, 0⟩ := by
  unfold typedAt Canvas.graphics GraphicsState.textPosition GraphicsState.glyphFlip Matrix.shift
  simp [Matrix.multiply, GraphicsState.initial, TextState.standard, Matrix.identity,
    Scalar.zero_real, Scalar.one_real]

theorem meanScale_typedAt {scale : ℝ} (h : 0 ≤ scale) (wordSpacing : ℝ) :
    (typedAt scale wordSpacing).graphics.textPosition.meanScale = scale := by
  have hdet : |scale * -scale - 0 * 0| = scale ^ 2 := by
    rw [mul_zero, sub_zero, mul_neg, abs_neg, ← pow_two, abs_of_nonneg (sq_nonneg _)]
  rw [textPosition_typedAt]
  show √|scale * -scale - 0 * 0| = scale
  rw [hdet, Real.sqrt_sq h]

/-- A word is cut, before a space that has a gap of its own. -/
theorem strings_join_words :
    let s : Setting ℝ := ⟨.standard, #[], .identity, ⟨0, 0, 20, 20⟩⟩
    let env : Environment ℝ := ⟨s, s.nested 0⟩
    let c := typedAt 1 2
    c.graphics.currentFont.procedures = none ∧ c.graphics.currentFont.DecodesEach ∧
      Matrix.singularBound < c.graphics.textPosition.meanScale ∧
      0 < s.options.textMergeDistance ∧
      ∃ d e, execute env ⟨"Tj", [.string [0x61]]⟩ c = .ok true d ∧
        execute env ⟨"Tj", [.string [0x62, 0x20, 0x63]]⟩ d = .ok true e ∧
        execute env ⟨"Tj", [.string [0x61, 0x62, 0x20, 0x63]]⟩ c = .ok true e := by
  intro s env c
  have hscale : Matrix.singularBound < c.graphics.textPosition.meanScale := by
    rw [meanScale_typedAt zero_le_one]
    exact Matrix.singularBound_lt_one
  have hmerge : (0 : ℝ) < s.options.textMergeDistance := by
    show (0 : ℝ) < ((20 : ℤ) : ℝ)
    norm_num
  obtain ⟨e, hwhole, ⟨d, hfirst, hsecond⟩, -⟩ :=
    strings_join s 0 c [0x61] [0x62, 0x20, 0x63] rfl Font.decodesEach_standIn hscale hmerge
      (List.cons_ne_nil _ _) (List.cons_ne_nil _ _)
  exact ⟨rfl, Font.decodesEach_standIn, hscale, hmerge, d, e, hfirst, hsecond, hwhole⟩

/-- The extra spaces of the spans of each paragraph. -/
def Canvas.textSpaces (c : Canvas ℝ) : List (List (List ℝ)) :=
  c.context.layout.paragraphs.map fun p => p.spans.map (·.spaces)

/-- A negligible scale is left in the matrix, wherever on the line. -/
theorem splitPlacement_typedAt (x : ℝ) :
    let m := ((typedAt 1e-13 0).advance x).graphics.textPosition
    m.splitPlacement = ⟨1, 0, 0, m⟩ := by
  refine Matrix.splitPlacement_of_negligible ?_
  rw [Canvas.textPosition_advance, Matrix.meanScale_shift, meanScale_typedAt (by norm_num)]
  unfold Matrix.singularBound
  norm_num

/-- Under a negligible scale a string of the canvas above is half a unit wide for each byte. -/
theorem showText_of_negligible {env : Environment ℝ} {c d : Canvas ℝ} {style : TextStyle ℝ} {x : ℝ}
    (hc : c.graphics = ((typedAt 1e-13 0).advance x).graphics)
    (hstyle : currentStyle env 1 (c.positioned env.options) = .ok style d) (bytes : List UInt8) :
    showText env bytes c = .ok () (d.withRun env.options
      (Font.standIn.decode bytes : DecodedText ℝ).text (bytes.length / 2) style
      (bytes.length / 2)) := by
  have hplacement : c.graphics.textPosition.splitPlacement = ⟨1, 0, 0, c.graphics.textPosition⟩ := by
    rw [hc]
    exact splitPlacement_typedAt x
  have hadvance : glyphAdvance c.graphics.text (Font.standIn.decode bytes) = bytes.length / 2 := by
    rw [hc]
    show (((bytes.length : ℤ) : ℝ) * ((500 : ℤ) : ℝ) / ((1000 : ℤ) : ℝ) * 1 +
      ((0 : ℤ) : ℝ) * ((bytes.length : ℤ) : ℝ)) * (((100 : ℤ) : ℝ) / ((100 : ℤ) : ℝ)) = _
    push_cast
    ring
  have hspacing : c.graphics.text.wordSpacing = 0 := by rw [hc]; rfl
  have hfont : c.graphics.currentFont = .standIn := by rw [hc]; rfl
  have hnone : (Scalar.ofInt ((0 : ℕ) : ℤ) : ℝ) = 0 := Int.cast_zero
  rw [showText_apply (by rw [hfont]; rfl), hspacing, hfont, beq_self_eq_true, Bool.not_true,
    Bool.false_and, if_neg Bool.false_ne_true,
    showPiece_apply bytes 0 (by rw [hplacement]; exact hstyle), hplacement]
  dsimp only
  rw [hadvance, hnone, mul_zero, zero_mul, add_zero, mul_one]

/-- Under a negligible scale the second string is drawn over the first one. -/
theorem strings_overlap :
    let s : Setting ℝ := ⟨.standard, #[], .identity, ⟨0, 0, 20, 20⟩⟩
    let env : Environment ℝ := ⟨s, s.nested 0⟩
    let c := typedAt 1e-13 0
    c.graphics.textPosition.determinant ≠ 0 ∧
      c.graphics.currentFont.procedures = none ∧ c.graphics.currentFont.DecodesEach ∧
      0 < s.options.textMergeDistance ∧
      ∃ d e w, execute env ⟨"Tj", [.string [0x61]]⟩ c = .ok true d ∧
        execute env ⟨"Tj", [.string [0x62]]⟩ d = .ok true e ∧
        execute env ⟨"Tj", [.string [0x61, 0x62]]⟩ c = .ok true w ∧
        e.textSpaces = [[[0, -(1 / 2)]]] ∧ w.textSpaces = [[[0, 0]]] := by
  intro s env c
  let o := s.options
  have hdet : c.graphics.textPosition.determinant ≠ 0 := by
    rw [textPosition_typedAt]
    show (1e-13 * -1e-13 - 0 * 0 : ℝ) ≠ 0
    norm_num
  have hmerge : o.textMergeDistance = 20 := by
    show ((20 : ℤ) : ℝ) = 20
    norm_num
  obtain ⟨style, d, hstyle, hsize, hd⟩ : ∃ style d,
      currentStyle env 1 (c.positioned o) = .ok style d ∧ style.size = 1 ∧
        d.context = { (c.positioned o).context with textStyle := some (1, style) } := by
    refine ⟨_, _, rfl, ?_, rfl⟩
    show |(1 : ℝ) * 1| = 1
    norm_num
  let text (bytes : List UInt8) : String := (Font.standIn.decode bytes : DecodedText ℝ).text
  let m := c.graphics.textPosition
  have hstart : c.graphics = (c.advance 0).graphics := by rw [Canvas.advance_zero]
  let e := d.withRun o (text [0x61]) (1 / 2) style (1 / 2)
  have he : e.graphics = (c.advance (1 / 2)).graphics :=
    Canvas.graphics_advance_congr (congrArg (·.graphics) hd) _
  have hknown : currentStyle env 1 (e.positioned o) = .ok style (e.positioned o) :=
    currentStyle_of_known (congrArg (·.textStyle) hd)
  have hone (x : UInt8) : (([x].length : ℕ) : ℝ) / 2 = 1 / 2 := by norm_num
  have hfirst : showText env [0x61] c = .ok () e := by
    rw [showText_of_negligible hstart hstyle, hone]
  have hsecond : showText env [0x62] e =
      .ok () ((e.positioned o).withRun o (text [0x62]) (1 / 2) style (1 / 2)) := by
    rw [showText_of_negligible he hknown, hone]
  have hwhole : showText env [0x61, 0x62] c =
      .ok () (d.withRun o (text [0x61, 0x62]) 1 style 1) := by
    have htwo : ((([0x61, 0x62] : List UInt8).length : ℕ) : ℝ) / 2 = 1 := by norm_num
    rw [showText_of_negligible hstart hstyle, htwo]
  have hlayout : d.context.layout = TextLayout.empty.position o m := congrArg (·.layout) hd
  have hm : m.splitPlacement = ⟨1, 0, 0, m⟩ := by
    have hzero := splitPlacement_typedAt 0
    rwa [Canvas.advance_zero] at hzero
  have hm' : e.graphics.textPosition.splitPlacement = ⟨1, 0, 0, e.graphics.textPosition⟩ := by
    rw [he]
    exact splitPlacement_typedAt (1 / 2)
  have hsame : m.approxEq e.graphics.textPosition Line.tolerance = true := by
    have hmove : |(0 : ℝ) - (1 / 2 * 1e-13 + 0 * 0 + 0)| ≤ Line.tolerance := by
      unfold Line.tolerance
      norm_num
    have hstay : |(0 : ℝ) - (1 / 2 * 0 + 0 * -1e-13 + 0)| ≤ Line.tolerance := by
      unfold Line.tolerance
      norm_num
    rw [he, Canvas.textPosition_advance, Matrix.shift_multiply]
    unfold m
    rw [textPosition_typedAt]
    simp only [Matrix.approxEq, Bool.and_eq_true]
    exact ⟨⟨⟨⟨⟨Line.close_self _, Line.close_self _⟩, Line.close_self _⟩, Line.close_self _⟩,
      Line.close_of_abs_sub_le hmove⟩, Line.close_of_abs_sub_le hstay⟩
  have hgap : TextLayout.leadingSpace o (-(1 / 2)) style = -(1 / 2) := by
    unfold TextLayout.leadingSpace
    rw [hsize, Scalar.max_real, Scalar.abs_real]
    refine if_neg ?_
    show ¬|-(1 / 2 : ℝ)| < max (0.02 * 1) 0.1
    norm_num
  have hlength (bytes : List UInt8) : (text bytes).length = bytes.length := by
    show (String.ofList _).length = _
    rw [String.length_ofList, List.length_map]
  have htext (bytes : List UInt8) (hbytes : bytes ≠ []) : text bytes ≠ "" :=
    Font.decodesEach_standIn.shows bytes hbytes
  have hjoin : (((TextLayout.empty.position o m).addText o (text [0x61]) (1 / 2) style).position o
      e.graphics.textPosition).addText o (text [0x62]) (1 / 2) style = _ :=
    TextLayout.addText_position_addText_of_rest hm hm' hsame (by rw [hmerge]; norm_num) hgap
      (htext _ (List.cons_ne_nil _ _)) (htext _ (List.cons_ne_nil _ _))
  refine ⟨hdet, rfl, Font.decodesEach_standIn, by rw [hmerge]; norm_num, _, _, _, execute_show hfirst,
    execute_show hsecond, execute_show hwhole, ?_, ?_⟩
  · show ((d.context.layout.addText o (text [0x61]) (1 / 2) style).position o
      e.graphics.textPosition |>.addText o (text [0x62]) (1 / 2) style).paragraphs.map _ = _
    rw [hlayout, hjoin, hlength, hlength]
    rfl
  · show (d.context.layout.addText o (text [0x61, 0x62]) 1 style).paragraphs.map _ = _
    rw [hlayout, TextLayout.addText_position_empty hm (htext _ (List.cons_ne_nil _ _)), hlength]
    rfl

end Example

end PageSvg
