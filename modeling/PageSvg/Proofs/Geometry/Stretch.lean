import Mathlib.Tactic.Linarith
import PageSvg.Geometry.Matrix
import PageSvg.Proofs.Number.Real

/-!
# How much a map stretches

Lengths are computed in ways that suit doubles. In exact numbers nothing is left of that but the
length of a vector, and the mean scale of a matrix is at most the length of its longer row.
-/

namespace PageSvg

attribute [local instance] Scalar.real

attribute [local instance (high)] Zero.toOfNat0 One.toOfNat1 instOfNatAtLeastTwo
  DivInvMonoid.toDiv

namespace Matrix

variable {α : Type} [Scalar α]

/-- Without rounding there is nothing to correct. -/
theorem hypotenuse_real (x y : ℝ) : hypotenuse x y = √(x * x + y * y) := by
  have hsquare := Real.mul_self_sqrt (add_nonneg (mul_self_nonneg x) (mul_self_nonneg y))
  unfold hypotenuse
  simp only [Scalar.sqrt_real]
  generalize √(x * x + y * y) = h at hsquare ⊢
  split_ifs
  · rw [show x * (2 * (h - y) - x) + (h - y - 2 * (x - y)) * (h - y) = 0 by linarith only [hsquare],
      zero_div, sub_zero]
  · rw [show 2 * (h - x) * (x - 2 * y) + ((4 * (h - x) - y) * y + (h - x) * (h - x)) = 0 by
      linarith only [hsquare], zero_div, sub_zero]

theorem sqrt_mul_unit (x y : ℝ) {unit : ℝ} (hunit : 0 < unit) :
    √(x * unit * (x * unit) + y * unit * (y * unit)) = √(x * x + y * y) * unit := by
  have hfactor : x * unit * (x * unit) + y * unit * (y * unit) = (x * x + y * y) * unit ^ 2 := by
    ring
  rw [hfactor, Real.sqrt_mul (add_nonneg (mul_self_nonneg x) (mul_self_nonneg y)),
    Real.sqrt_sq hunit.le]

/-- The length of a vector, whichever way it is scaled. -/
theorem length_real (v : ℝ × ℝ) : length v = √(v.1 * v.1 + v.2 * v.2) := by
  have hsquares : max |v.1| |v.2| * max |v.1| |v.2| + min |v.1| |v.2| * min |v.1| |v.2| =
      v.1 * v.1 + v.2 * v.2 := by
    rcases le_total |v.1| |v.2| with h | h
    · rw [max_eq_right h, min_eq_left h, abs_mul_abs_self, abs_mul_abs_self, add_comm]
    · rw [max_eq_left h, min_eq_right h, abs_mul_abs_self, abs_mul_abs_self]
  have hnonneg : 0 ≤ min |v.1| |v.2| := le_min (abs_nonneg _) (abs_nonneg _)
  have hle : min |v.1| |v.2| ≤ max |v.1| |v.2| := min_le_max
  have hunit : (0 : ℝ) < 2 ^ 600 := by positivity
  unfold length
  simp only [Scalar.isFinite_real, Scalar.isNaN_real, Scalar.max_real, Scalar.min_real,
    Scalar.abs_real, Scalar.power_real, Scalar.zero_real, hypotenuse_real,
    Bool.not_true, Bool.false_eq_true, Bool.or_self, if_false]
  rw [← hsquares]
  generalize max |v.1| |v.2| = x at *
  generalize min |v.1| |v.2| = y at *
  generalize (2 : ℝ) ^ 600 = unit at *
  split_ifs with hzero
  · have hx : x = 0 := eq_of_beq hzero
    rw [hx] at hle ⊢
    rw [le_antisymm hle hnonneg, mul_zero, add_zero, Real.sqrt_zero]
  · rw [← sqrt_mul_unit _ _ hunit, div_mul_cancel₀ x hunit.ne', div_mul_cancel₀ y hunit.ne']
  · rw [sqrt_mul_unit _ _ hunit, mul_div_cancel_right₀ _ hunit.ne']
  · rfl

/-- The larger one of the lengths of the rows: how much a length along an axis may grow. -/
def stretch (m : Matrix α) : α := Scalar.max (length (m.a, m.b)) (length (m.c, m.d))

theorem stretch_real (m : Matrix ℝ) :
    m.stretch = max √(m.a * m.a + m.b * m.b) √(m.c * m.c + m.d * m.d) := by
  rw [stretch, Scalar.max_real, length_real, length_real]

theorem stretch_nonneg (m : Matrix ℝ) : 0 ≤ m.stretch := by
  rw [stretch_real]
  exact le_max_of_le_left (Real.sqrt_nonneg _)

theorem meanScale_nonneg (m : Matrix ℝ) : 0 ≤ m.meanScale := Real.sqrt_nonneg _

theorem abs_determinant_le (m : Matrix ℝ) :
    |m.determinant| ≤ √(m.a * m.a + m.b * m.b) * √(m.c * m.c + m.d * m.d) := by
  rw [← Real.sqrt_mul (add_nonneg (mul_self_nonneg m.a) (mul_self_nonneg m.b))]
  refine Real.abs_le_sqrt ?_
  -- The difference is the square of the product of the rows.
  have hrows := sq_nonneg (m.a * m.c + m.b * m.d)
  unfold determinant
  linarith only [hrows]

/-- On average lengths grow no more than along the axis that is stretched more. -/
theorem meanScale_le_stretch (m : Matrix ℝ) : m.meanScale ≤ m.stretch := by
  refine Real.sqrt_le_iff.2 ⟨m.stretch_nonneg, m.abs_determinant_le.trans ?_⟩
  rw [pow_two, stretch_real]
  exact mul_le_mul (le_max_left _ _) (le_max_right _ _) (Real.sqrt_nonneg _)
    (le_max_of_le_left (Real.sqrt_nonneg _))

end Matrix

end PageSvg
