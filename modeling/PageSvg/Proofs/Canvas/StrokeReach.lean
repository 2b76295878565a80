import PageSvg.Canvas.Shape
import PageSvg.Proofs.Geometry.Stretch

/-!
# How far strokes reach

Before a stroke is found to fit into its clip region, the bounds of its path grow by `strokeReach`.
That is enough for a stroke whose path is written in device space. A path that is written in user
space is stretched together with its stroke, and a hairline is widened there by the mean scale:
under a map that stretches one axis much more than the other the stroke reaches further.
-/

namespace PageSvg

attribute [local instance] Scalar.real

attribute [local instance (high)] Zero.toOfNat0 One.toOfNat1 instOfNatAtLeastTwo
  DivInvMonoid.toDiv

namespace GraphicsState

variable {α : Type} [Scalar α]

/-- How far the stroke reaches that is written: half its width, which user space stretches. -/
def writtenReach (o : Options α) (g : GraphicsState α) (userSpace : Bool) : α :=
  if userSpace then g.strokeWidth o true / 2 * g.ctm.stretch else g.strokeWidth o false / 2

/-- How much further than the stroke itself its corners are taken to reach. -/
def cornerFactor (g : GraphicsState α) : α :=
  match g.lineJoin with
  | .miter => Scalar.max g.miterLimit (Scalar.sqrt 2)
  | _ => Scalar.sqrt 2

/-- What the width of the thinnest line is divided by in user space. -/
def hairlineScale (g : GraphicsState α) : α :=
  if 0 < g.ctm.meanScale then g.ctm.meanScale else 1

variable {o : Options ℝ} {g : GraphicsState ℝ}

theorem strokeReach_eq (o : Options ℝ) (g : GraphicsState ℝ) :
    g.strokeReach o =
      max (g.lineWidth * g.ctm.stretch) o.minStrokeWidth / 2 * g.cornerFactor := by
  rw [← Scalar.max_real]
  unfold strokeReach cornerFactor Matrix.stretch
  cases g.lineJoin <;> rfl

theorem strokeWidth_device (o : Options ℝ) (g : GraphicsState ℝ) :
    g.strokeWidth o false = max (g.lineWidth * g.ctm.meanScale) o.minStrokeWidth :=
  Scalar.max_real _ _

theorem hairlineScale_real (g : GraphicsState ℝ) :
    g.hairlineScale = if 0 < g.ctm.meanScale then g.ctm.meanScale else 1 := by
  rw [hairlineScale, Scalar.zero_real, Scalar.one_real]

theorem strokeWidth_user (o : Options ℝ) (g : GraphicsState ℝ) :
    g.strokeWidth o true = max g.lineWidth (o.minStrokeWidth / g.hairlineScale) := by
  rw [hairlineScale_real]
  unfold strokeWidth
  simp only [Scalar.max_real, Scalar.zero_real, if_true]
  split_ifs with h
  · rfl
  · rw [div_one]

theorem one_le_cornerFactor (g : GraphicsState ℝ) : 1 ≤ g.cornerFactor := by
  have hroot : (1 : ℝ) ≤ √2 := Real.one_le_sqrt.2 one_le_two
  unfold cornerFactor
  cases g.lineJoin with
  | miter =>
    show 1 ≤ Scalar.max g.miterLimit √2
    rw [Scalar.max_real]
    exact le_max_of_le_right hroot
  | round => exact hroot
  | bevel => exact hroot

theorem hairlineScale_pos (g : GraphicsState ℝ) : 0 < g.hairlineScale := by
  rw [hairlineScale_real]
  split_ifs with h
  · exact h
  · exact one_pos

/-- In device space the width is what the mean scale makes of it, which is no more than what it is
taken to be. -/
theorem writtenReach_device_le (ho : 0 < o.minStrokeWidth) :
    g.writtenReach o false ≤ g.strokeReach o := by
  have hwidth : max (g.lineWidth * g.ctm.meanScale) o.minStrokeWidth ≤
      max (g.lineWidth * g.ctm.stretch) o.minStrokeWidth := by
    rcases le_total 0 g.lineWidth with hline | hline
    · exact max_le_max_right _ (mul_le_mul_of_nonneg_left g.ctm.meanScale_le_stretch hline)
    · -- A negative width stays negative, so that the stroke is a hairline.
      have hmean := mul_nonpos_of_nonpos_of_nonneg hline g.ctm.meanScale_nonneg
      exact max_le (hmean.trans (ho.le.trans (le_max_right _ _))) (le_max_right _ _)
  have hpos : 0 ≤ max (g.lineWidth * g.ctm.stretch) o.minStrokeWidth / 2 :=
    div_nonneg (ho.le.trans (le_max_right _ _)) zero_le_two
  rw [strokeReach_eq, writtenReach, if_neg Bool.false_ne_true, strokeWidth_device]
  calc max (g.lineWidth * g.ctm.meanScale) o.minStrokeWidth / 2
      ≤ max (g.lineWidth * g.ctm.stretch) o.minStrokeWidth / 2 :=
        div_le_div_of_nonneg_right hwidth zero_le_two
    _ ≤ max (g.lineWidth * g.ctm.stretch) o.minStrokeWidth / 2 * g.cornerFactor :=
        le_mul_of_one_le_right hpos g.one_le_cornerFactor

/-- In user space the stroke of the declared width is covered always. -/
theorem lineWidth_mul_stretch_le (ho : 0 < o.minStrokeWidth) :
    g.lineWidth * g.ctm.stretch ≤
      max (g.lineWidth * g.ctm.stretch) o.minStrokeWidth * g.cornerFactor :=
  (le_max_left _ _).trans
    (le_mul_of_one_le_right (ho.le.trans (le_max_right _ _)) g.one_le_cornerFactor)

/-- In user space a hairline is covered exactly if the declared width is nearly that of the thinnest
line, or if no axis is stretched much more than lengths are on average. -/
theorem hairline_mul_stretch_le_iff (ho : 0 < o.minStrokeWidth) :
    o.minStrokeWidth / g.hairlineScale * g.ctm.stretch ≤
        max (g.lineWidth * g.ctm.stretch) o.minStrokeWidth * g.cornerFactor ↔
      o.minStrokeWidth ≤ g.cornerFactor * (g.lineWidth * g.hairlineScale) ∨
        g.ctm.stretch ≤ g.cornerFactor * g.hairlineScale := by
  have hscale := g.hairlineScale_pos
  have hfactor : 0 ≤ g.cornerFactor := zero_le_one.trans g.one_le_cornerFactor
  have hstretch := g.ctm.stretch_nonneg
  rw [max_mul_of_nonneg _ _ hfactor, le_max_iff]
  generalize o.minStrokeWidth = width at *
  generalize g.hairlineScale = scale at *
  generalize g.cornerFactor = factor at *
  generalize g.ctm.stretch = stretch at *
  have hline : width ≤ factor * (g.lineWidth * scale) ↔ width / scale ≤ g.lineWidth * factor := by
    rw [div_le_iff₀ hscale, mul_left_comm, ← mul_assoc]
  have haxis : stretch ≤ factor * scale ↔ width / scale * stretch ≤ width * factor := by
    rw [div_mul_eq_mul_div, div_le_iff₀ hscale, mul_assoc, mul_le_mul_iff_right₀ ho]
  rw [hline, haxis, mul_right_comm]
  rcases hstretch.eq_or_lt with rfl | hstretch
  · -- Nothing is left of a stroke that is not stretched at all.
    have hnothing : width / scale * 0 ≤ width * factor := by
      rw [mul_zero]
      exact mul_nonneg ho.le hfactor
    exact ⟨fun _ => .inr hnothing, fun _ => .inr hnothing⟩
  · rw [mul_le_mul_iff_left₀ hstretch]

theorem writtenReach_user_le_iff (ho : 0 < o.minStrokeWidth) :
    g.writtenReach o true ≤ g.strokeReach o ↔
      o.minStrokeWidth ≤ g.cornerFactor * (g.lineWidth * g.hairlineScale) ∨
        g.ctm.stretch ≤ g.cornerFactor * g.hairlineScale := by
  have hhalves : g.writtenReach o true ≤ g.strokeReach o ↔
      max g.lineWidth (o.minStrokeWidth / g.hairlineScale) * g.ctm.stretch ≤
        max (g.lineWidth * g.ctm.stretch) o.minStrokeWidth * g.cornerFactor := by
    rw [strokeReach_eq, writtenReach, if_pos rfl, strokeWidth_user, div_mul_eq_mul_div,
      div_mul_eq_mul_div, div_le_div_iff_of_pos_right zero_lt_two]
  rw [hhalves, max_mul_of_nonneg _ _ g.ctm.stretch_nonneg, max_le_iff,
    hairline_mul_stretch_le_iff ho]
  exact ⟨fun h => h.2, fun h => ⟨lineWidth_mul_stretch_le ho, h⟩⟩

/-- **The bounds grow by enough for every stroke in device space.** In user space they grow by
enough exactly if the line is not much thinner than the thinnest line, or if no axis is stretched
much more than lengths are on average. -/
theorem writtenReach_le_strokeReach (ho : 0 < o.minStrokeWidth) :
    g.writtenReach o false ≤ g.strokeReach o ∧
      (g.writtenReach o true ≤ g.strokeReach o ↔
        o.minStrokeWidth ≤ g.cornerFactor * (g.lineWidth * g.hairlineScale) ∨
          g.ctm.stretch ≤ g.cornerFactor * g.hairlineScale) :=
  ⟨writtenReach_device_le ho, writtenReach_user_le_iff ho⟩

/-- A hairline with round joins under a map that stretches one axis a hundredfold, and
lengths tenfold on average. -/
noncomputable def stretchedHairline : GraphicsState ℝ :=
  { GraphicsState.initial ⟨100, 0, 0, 1, 0, 0⟩ with lineWidth := 0, lineJoin := .round }

theorem standard_minStrokeWidth_pos : 0 < (Options.standard : Options ℝ).minStrokeWidth := by
  show (0 : ℝ) < 0.5
  norm_num

theorem stretchedHairline_stretch : stretchedHairline.ctm.stretch = 100 := by
  rw [Matrix.stretch_real]
  show max √((100 : ℝ) * 100 + 0 * 0) √(0 * 0 + 1 * 1) = 100
  rw [mul_zero, add_zero, zero_add, Real.sqrt_mul_self (by norm_num), mul_one, Real.sqrt_one]
  norm_num

theorem stretchedHairline_hairlineScale : stretchedHairline.hairlineScale = 10 := by
  have hmean : stretchedHairline.ctm.meanScale = 10 := by
    show √|(100 : ℝ) * 1 - 0 * 0| = 10
    rw [show |(100 : ℝ) * 1 - 0 * 0| = 10 * 10 by norm_num, Real.sqrt_mul_self (by norm_num)]
  rw [hairlineScale_real, hmean, if_pos (by norm_num)]

/-- The bounds grow by enough for a line of width one under the same map. -/
theorem writtenReach_le_strokeReach_of_line :
    let g : GraphicsState ℝ := { stretchedHairline with lineWidth := 1 }
    0 < (Options.standard : Options ℝ).minStrokeWidth ∧
      g.writtenReach .standard false ≤ g.strokeReach .standard ∧
      g.writtenReach .standard true ≤ g.strokeReach .standard := by
  intro g
  have hcovered := writtenReach_le_strokeReach (g := g) standard_minStrokeWidth_pos
  refine ⟨standard_minStrokeWidth_pos, hcovered.1, hcovered.2.2 (.inl ?_)⟩
  have hscale : g.hairlineScale = 10 := stretchedHairline_hairlineScale
  have hfactor := g.one_le_cornerFactor
  rw [hscale]
  show (0.5 : ℝ) ≤ g.cornerFactor * (1 * 10)
  linarith only [hfactor]

/-- The stroke of a hairline that is written in user space reaches further than the bounds grow. -/
theorem strokeReach_lt_of_stretchedHairline :
    stretchedHairline.ctm.isUniform = false ∧
      stretchedHairline.strokeReach .standard < stretchedHairline.writtenReach .standard true := by
  constructor
  · have hrow : Matrix.length ((100 : ℝ), 0) = 100 := by
      rw [Matrix.length_real, mul_zero, add_zero, Real.sqrt_mul_self (by norm_num)]
    have hcolumn : Matrix.length ((0 : ℝ), 1) = 1 := by
      rw [Matrix.length_real, mul_zero, zero_add, mul_one, Real.sqrt_one]
    refine decide_eq_false fun ⟨hlengths, _⟩ => ?_
    rw [Scalar.one_real, Scalar.max_real] at hlengths
    have hlengths : |Matrix.length ((100 : ℝ), 0) - Matrix.length ((0 : ℝ), 1)| ≤
        1e-9 * (1 + max (Matrix.length ((100 : ℝ), 0)) (Matrix.length ((0 : ℝ), 1))) := hlengths
    rw [hrow, hcolumn] at hlengths
    norm_num at hlengths
  · have hroot : √2 < (10 : ℝ) := by
      rw [Real.sqrt_lt' (by norm_num)]
      norm_num
    rw [← not_le, writtenReach_user_le_iff standard_minStrokeWidth_pos,
      stretchedHairline_stretch, stretchedHairline_hairlineScale, not_or, not_le, not_le]
    constructor
    · show √2 * (0 * 10) < (0.5 : ℝ)
      norm_num
    · show √2 * 10 < (100 : ℝ)
      linarith only [hroot]

end GraphicsState

end PageSvg
