import PageSvg.Converter
import PageSvg.Proofs.Canvas.Recall
import PageSvg.Proofs.Layout.Tidied

/-!
# What the style of text depends on

Of a graphics state, the style of text depends on the font, the state of text, the paints, the line
width and how much the current matrix stretches lengths. States that compare as equal agree in that,
up to the sign of zeros, as long as fonts of one identity look the same.
-/

namespace PageSvg

open Scalar

variable {α : Type} [Scalar α]

/-! ### Fonts -/

/-- The fonts that drawing can come upon: the stand-in and the fonts of a library, of its sets of
parameters and of what earlier pages found. -/
inductive Font.Supplied (library : Library α) (found : ResourceCache α) : Font α → Prop
  | standIn : Supplied library found .standIn
  | resource {set : ResourceSet α} {entry : String × Font α} (hset : set ∈ library)
      (hentry : entry ∈ set.fonts) : Supplied library found entry.2
  | parameter {set : ResourceSet α} {entry : String × GraphicsParameters α} {f : Font α} {size : α}
      (hset : set ∈ library) (hentry : entry ∈ set.parameters)
      (hfont : entry.2.font = some (f, size)) : Supplied library found f
  | found {entry : Nat × Font α} (hentry : entry ∈ found.fonts) : Supplied library found entry.2

/-- Two fonts look the same. -/
def Font.LooksAs (f g : Font α) : Prop :=
  f.family = g.family ∧ f.bold = g.bold ∧ f.italic = g.italic

/-- Fonts of one identity look the same. -/
def Font.Coherent (library : Library α) (found : ResourceCache α) : Prop :=
  ∀ f g : Font α, f.Supplied library found → g.Supplied library found → f.id = g.id → f.LooksAs g

/-! ### Styling -/

/-- What the style of text depends on. -/
structure Styling (α : Type) where
  family : String
  bold : Bool
  italic : Bool
  size : α
  charSpacing : α
  scaling : α
  mode : RenderMode
  fill : Rgb α
  fillPattern : Option String
  fillAlpha : α
  stroke : Rgb α
  strokeAlpha : α
  lineWidth : α
  /-- How much the current matrix stretches lengths. -/
  stretch : α

/-- What the style of text depends on in a state, up to the sign of zeros. -/
def GraphicsState.styling (g : GraphicsState α) : Styling α where
  family := g.currentFont.family
  bold := g.currentFont.bold
  italic := g.currentFont.italic
  size := tidy g.text.fontSize
  charSpacing := tidy g.text.charSpacing
  scaling := tidy g.text.scaling
  mode := g.text.mode
  fill := g.fill.rgb.tidied
  fillPattern := g.fill.pattern
  fillAlpha := tidy g.fill.alpha
  stroke := g.stroke.rgb.tidied
  strokeAlpha := tidy g.stroke.alpha
  lineWidth := tidy g.lineWidth
  stretch := g.ctm.meanScale

/-- Text states are compared part by part. -/
theorem TextState.parts_of_beq {t t' : TextState α} (h : (t == t') = true) :
    (t.matrix == t'.matrix) = true ∧ (t.lineMatrix == t'.lineMatrix) = true ∧
      (t.leading == t'.leading) = true ∧ (t.font == t'.font) = true ∧
      (t.fontName == t'.fontName) = true ∧ (t.fontSize == t'.fontSize) = true ∧
      (t.charSpacing == t'.charSpacing) = true ∧ (t.wordSpacing == t'.wordSpacing) = true ∧
      (t.scaling == t'.scaling) = true ∧ (t.rise == t'.rise) = true ∧ t.mode = t'.mode := by
  have h : (t.matrix == t'.matrix && (t.lineMatrix == t'.lineMatrix && (t.leading == t'.leading &&
      (t.font == t'.font && (t.fontName == t'.fontName && (t.fontSize == t'.fontSize &&
      (t.charSpacing == t'.charSpacing && (t.wordSpacing == t'.wordSpacing &&
      (t.scaling == t'.scaling && (t.rise == t'.rise && t.mode == t'.mode)))))))))) = true := h
  simpa only [Bool.and_eq_true, beq_iff_eq] using h

/-- Graphics states are compared part by part, and styles of text depend on these parts. -/
theorem GraphicsState.parts_of_beq {g g' : GraphicsState α} (h : (g == g') = true) :
    (g.ctm == g'.ctm) = true ∧ (g.fill == g'.fill) = true ∧ (g.stroke == g'.stroke) = true ∧
      (g.lineWidth == g'.lineWidth) = true ∧ (g.text == g'.text) = true := by
  have h : (g.ctm == g'.ctm && (g.fill == g'.fill && (g.stroke == g'.stroke &&
      (g.lineWidth == g'.lineWidth && (g.lineCap == g'.lineCap && (g.lineJoin == g'.lineJoin &&
      (g.miterLimit == g'.miterLimit && (g.dash == g'.dash && (g.blendMode == g'.blendMode &&
      (g.softMask == g'.softMask && (g.clip == g'.clip &&
      (g.renderingIntent == g'.renderingIntent && (g.flatness == g'.flatness &&
      g.text == g'.text))))))))))))) = true := h
  simp only [Bool.and_eq_true] at h
  obtain ⟨hctm, hfill, hstroke, hwidth, _, _, _, _, _, _, _, _, _, htext⟩ := h
  exact ⟨hctm, hfill, hstroke, hwidth, htext⟩

section Alike

variable [ZerosAlike α] {g g' : GraphicsState α}

theorem Matrix.meanScale_congr {m m' : Matrix α} (h : (m == m') = true) :
    m.meanScale = m'.meanScale := by
  have h : (m.a == m'.a && (m.b == m'.b && (m.c == m'.c && (m.d == m'.d &&
      (m.e == m'.e && m.f == m'.f))))) = true := h
  simp only [Bool.and_eq_true] at h
  obtain ⟨ha, hb, hc, hd, _⟩ := h
  unfold meanScale determinant
  exact congrArg Scalar.sqrt (abs_congr (sub_congr
    (mul_congr (tidy_of_beq ha) (tidy_of_beq hd)) (mul_congr (tidy_of_beq hb) (tidy_of_beq hc))))

theorem Paint.alike_of_beq {p p' : Paint α} (h : (p == p') = true) :
    p.rgb.tidied = p'.rgb.tidied ∧ p.pattern = p'.pattern ∧ tidy p.alpha = tidy p'.alpha := by
  have h : (p.rgb == p'.rgb && (p.space == p'.space && (p.components == p'.components &&
      (p.pattern == p'.pattern && p.alpha == p'.alpha)))) = true := h
  simp only [Bool.and_eq_true] at h
  obtain ⟨hrgb, _, _, hpattern, halpha⟩ := h
  exact ⟨Rgb.tidied_of_beq hrgb, eq_of_beq hpattern, tidy_of_beq halpha⟩

/-- States that compare as equal give the same styling, if their fonts look the same. -/
theorem GraphicsState.styling_of_beq (h : (g == g') = true)
    (hfonts : (g.text.font == g'.text.font) = true → g.currentFont.LooksAs g'.currentFont) :
    g.styling = g'.styling := by
  obtain ⟨hctm, hfill, hstroke, hwidth, htext⟩ := parts_of_beq h
  obtain ⟨_, _, _, hfont, _, hsize, hspacing, _, hscaling, _, hmode⟩ := TextState.parts_of_beq htext
  obtain ⟨hfillRgb, hpattern, hfillAlpha⟩ := Paint.alike_of_beq hfill
  obtain ⟨hstrokeRgb, _, hstrokeAlpha⟩ := Paint.alike_of_beq hstroke
  obtain ⟨hfamily, hbold, hitalic⟩ := hfonts hfont
  unfold styling
  rw [hfamily, hbold, hitalic, tidy_of_beq hsize, tidy_of_beq hspacing, tidy_of_beq hscaling, hmode,
    hfillRgb, hpattern, hfillAlpha, hstrokeRgb, hstrokeAlpha, tidy_of_beq hwidth,
    Matrix.meanScale_congr hctm]

section Styled

variable (s : Setting α) (resources : SetId) (h : g.styling = g'.styling)

include h

theorem Setting.patternId_congr (name : String) (transform : Option (Matrix α)) :
    s.patternId? resources name g.fill transform = s.patternId? resources name g'.fill transform := by
  have hcolor (t : Tiling α) : t.color g.fill = t.color g'.fill := by
    unfold Tiling.color
    rw [Rgb.css_congr (congrArg (·.fill) h : g.fill.rgb.tidied = g'.fill.rgb.tidied)]
  have hid (placement : Matrix α) (pattern : Pattern α) :
      pattern.definitionId? s.options placement g.fill =
        pattern.definitionId? s.options placement g'.fill := by
    cases pattern with
    | tiling t =>
      unfold Pattern.definitionId? Tiling.definitionId?
      dsimp only
      rw [hcolor]
    | shading _ _ => rfl
  unfold patternId?
  simp only [hid]

/-- The definition that text is filled with is the same for the same styling. -/
theorem Setting.fillId_congr : s.fillId? resources g = s.fillId? resources g' := by
  have hmode : g.text.mode = g'.text.mode := congrArg (·.mode) h
  have hpattern : g.fill.pattern = g'.fill.pattern := congrArg (·.fillPattern) h
  unfold fillId?
  rw [hmode, hpattern]
  simp only [s.patternId_congr resources h]

omit [ZerosAlike α] in
theorem Setting.patternColor_congr (name : String) :
    (s.patternColor resources name g.fill).tidied =
      (s.patternColor resources name g'.fill).tidied := by
  have hrgb : g.fill.rgb.tidied = g'.fill.rgb.tidied := congrArg (·.fill) h
  unfold patternColor
  cases (s.library.set resources).patterns.get? name with
  | none => exact hrgb
  | some pattern =>
    cases pattern with
    | tiling t => exact hrgb
    | shading s _ => rfl

theorem Setting.fillOf_congr (d : Definitions) :
    (s.fillOf resources d g).1.map (fun f => (f.1.tidied, tidy f.2)) =
        (s.fillOf resources d g').1.map (fun f => (f.1.tidied, tidy f.2)) ∧
      (s.fillOf resources d g).2 = (s.fillOf resources d g').2 := by
  have hmode : g.text.mode = g'.text.mode := congrArg (·.mode) h
  have hpattern : g.fill.pattern = g'.fill.pattern := congrArg (·.fillPattern) h
  have hrgb : g.fill.rgb.tidied = g'.fill.rgb.tidied := congrArg (·.fill) h
  have halpha : tidy g.fill.alpha = tidy g'.fill.alpha := congrArg (·.fillAlpha) h
  unfold fillOf
  rw [hmode, hpattern]
  cases g'.text.mode.fills with
  | false => exact ⟨rfl, rfl⟩
  | true =>
    cases g'.fill.pattern with
    | none => exact ⟨congrArg some (congrArg₂ Prod.mk hrgb halpha), rfl⟩
    | some name =>
      unfold patternValue
      dsimp only
      rw [s.patternId_congr resources h]
      cases (s.patternId? resources name g'.fill none).filter d.contains with
      | some id => exact ⟨rfl, rfl⟩
      | none =>
        exact ⟨congrArg some (congrArg₂ Prod.mk (s.patternColor_congr resources h name) halpha), rfl⟩

/-- The style in which text is shown is the same for the same styling, once it is tidied. -/
theorem Setting.styleOf_congr (d : Definitions) {scale scale' : α}
    (hscale : tidy scale = tidy scale') :
    (s.styleOf resources d g scale).tidied = (s.styleOf resources d g' scale').tidied := by
  obtain ⟨hfamily, hbold, hitalic, hsize, hspacing, hscaling, hmode, _, _, _, hrgb, halpha, hwidth,
    hstretch⟩ := Styling.mk.inj h
  obtain ⟨hfill, hreference⟩ := s.fillOf_congr resources h d
  have hheight : Scalar.abs (g.text.fontSize * scale) = Scalar.abs (g'.text.fontSize * scale') :=
    abs_congr (mul_congr hsize hscale)
  have hletters : tidy (g.text.charSpacing * g.text.scaling / 100 * scale) =
      tidy (g'.text.charSpacing * g'.text.scaling / 100 * scale') :=
    mul_congr (div_congr (mul_congr hspacing hscaling) 100) hscale
  have hline : tidy (Scalar.max (g.lineWidth * g.ctm.meanScale) s.options.minStrokeWidth) =
      tidy (Scalar.max (g'.lineWidth * g'.ctm.meanScale) s.options.minStrokeWidth) := by
    rw [hstretch]
    exact max_congr (mul_congr hwidth rfl) rfl
  unfold styleOf TextStyle.tidied
  dsimp only
  rw [hfamily, hbold, hitalic, hheight, hfill, hreference, hletters, hscaling, hmode]
  cases g'.text.mode.strokes with
  | false => rfl
  | true => simp only [if_true, Option.map_some, hrgb, halpha, hline]

end Styled

end Alike

end PageSvg
