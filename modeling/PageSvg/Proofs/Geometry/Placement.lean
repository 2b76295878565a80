import Mathlib.Tactic.FieldSimp
import Mathlib.Tactic.NormNum
import PageSvg.Geometry.Matrix
import PageSvg.Proofs.Number.Real

/-!
# Scale, position and rest

A matrix whose mean scale is not negligible is split into this scale, a position and a rest
that keeps areas. Moving it along its own first axis leaves scale and rest alone and adds to
the position, in the units of the scale. A matrix of negligible scale is its own rest, and
nothing of the move shows in its position. Put together again, scale, position and rest are
the matrix (`Placement.matrix`).
-/

namespace PageSvg.Matrix

attribute [local instance] Scalar.real

attribute [local instance (high)] Zero.toOfNat0 One.toOfNat1 instOfNatAtLeastTwo
  DivInvMonoid.toDiv

variable {m : Matrix ℝ}

theorem multiply_assoc (l m n : Matrix ℝ) :
    (l.multiply m).multiply n = l.multiply (m.multiply n) := by
  unfold multiply
  congr 1 <;> ring

theorem shift_multiply (m : Matrix ℝ) (x y : ℝ) :
    (shift x y).multiply m = { m with
      e := x * m.a + y * m.c + m.e
      f := x * m.b + y * m.d + m.f } := by
  unfold multiply shift
  simp only [Scalar.zero_real, Scalar.one_real, one_mul, zero_mul, add_zero, zero_add]

theorem shift_multiply_shift (m : Matrix ℝ) (x y : ℝ) :
    (shift y 0).multiply ((shift x 0).multiply m) = (shift (x + y) 0).multiply m := by
  simp only [shift_multiply]
  congr 1 <;> ring

theorem meanScale_shift (m : Matrix ℝ) (x y : ℝ) :
    ((shift x y).multiply m).meanScale = m.meanScale := by
  rw [shift_multiply]
  rfl

theorem singularBound_pos : 0 < (singularBound : ℝ) := by
  unfold singularBound
  norm_num

theorem singularBound_lt_one : (singularBound : ℝ) < 1 := by
  unfold singularBound
  norm_num

/-- What the mean scale leaves of the linear part. -/
noncomputable def unscaled (m : Matrix ℝ) : Matrix ℝ :=
  ⟨m.a / m.meanScale, m.b / m.meanScale, m.c / m.meanScale, m.d / m.meanScale, 0, 0⟩

theorem unscaled_shift (m : Matrix ℝ) (x y : ℝ) :
    ((shift x y).multiply m).unscaled = m.unscaled := by
  unfold unscaled
  rw [meanScale_shift, shift_multiply]

/-- Without its scale a matrix keeps areas. -/
theorem abs_determinant_unscaled (h : 0 < m.meanScale) : |m.unscaled.determinant| = 1 := by
  have hsquare : m.meanScale * m.meanScale = |m.determinant| :=
    Real.mul_self_sqrt (abs_nonneg m.determinant)
  have hdet : m.unscaled.determinant = m.determinant / (m.meanScale * m.meanScale) := by
    unfold determinant unscaled
    field_simp
  have hne : |m.determinant| ≠ 0 := hsquare ▸ (mul_pos h h).ne'
  rw [hdet, hsquare, abs_div, abs_abs, div_self hne]

/-- The split of a matrix whose mean scale is not negligible. -/
theorem splitPlacement_eq (h : singularBound < m.meanScale) :
    m.splitPlacement =
      let r := m.unscaled
      ⟨m.meanScale, (r.d * m.e - r.c * m.f) / r.determinant,
        (r.a * m.f - r.b * m.e) / r.determinant, r⟩ := by
  have hscale : m.splitScale =
      (m.meanScale, { m.unscaled with e := m.e, f := m.f }) := by
    unfold splitScale
    dsimp only
    rw [Scalar.isFinite_real, if_neg (by simpa using h)]
    rfl
  have hbound : ¬(Scalar.abs m.unscaled.determinant < singularBound ∨
      (!Scalar.isFinite m.unscaled.determinant) = true) := by
    rw [Scalar.isFinite_real, Scalar.abs_real,
      abs_determinant_unscaled (singularBound_pos.trans h)]
    simpa using singularBound_lt_one.le
  have hlinear : linear { m.unscaled with e := m.e, f := m.f } = m.unscaled := by
    unfold linear unscaled
    rw [Scalar.zero_real]
  unfold splitPlacement
  rw [hscale]
  dsimp only
  rw [hlinear, invert, if_neg hbound]
  dsimp only [applyVector]
  congr 1 <;> ring

/-- A shift along the line is its position alone. -/
theorem splitPlacement_shift_zero (x : ℝ) :
    (shift x 0 : Matrix ℝ).splitPlacement = ⟨1, x, 0, .identity⟩ := by
  have hshift : (shift x 0 : Matrix ℝ) = ⟨1, 0, 0, 1, x, 0⟩ := by
    rw [shift, Scalar.zero_real, Scalar.one_real]
  have hscale : (⟨1, 0, 0, 1, x, 0⟩ : Matrix ℝ).meanScale = 1 := by
    show √|(1 : ℝ) * 1 - 0 * 0| = 1
    simp
  rw [hshift, splitPlacement_eq (by rw [hscale]; exact singularBound_lt_one)]
  simp [unscaled, hscale, identity, determinant, Scalar.zero_real, Scalar.one_real]

theorem splitPlacement_identity : (identity : Matrix ℝ).splitPlacement = ⟨1, 0, 0, .identity⟩ := by
  have hshift : (identity : Matrix ℝ) = shift 0 0 := by
    rw [identity, shift, Scalar.zero_real]
  rw [hshift, splitPlacement_shift_zero, ← hshift]

/-- **Moving a matrix along its first axis adds to its position.** -/
theorem splitPlacement_shift (h : singularBound < m.meanScale) (x : ℝ) :
    ((shift x 0).multiply m).splitPlacement =
      { m.splitPlacement with x := m.splitPlacement.x + x * m.splitPlacement.scale } := by
  have hs : m.meanScale ≠ 0 := (singularBound_pos.trans h).ne'
  have hdet : m.unscaled.determinant ≠ 0 := by
    rw [← abs_pos, abs_determinant_unscaled (singularBound_pos.trans h)]
    exact one_pos
  have ha : m.a = m.unscaled.a * m.meanScale := (div_mul_cancel₀ _ hs).symm
  have hb : m.b = m.unscaled.b * m.meanScale := (div_mul_cancel₀ _ hs).symm
  have hmoved : singularBound < ((shift x 0).multiply m).meanScale := by
    rwa [meanScale_shift]
  rw [splitPlacement_eq hmoved, splitPlacement_eq h, unscaled_shift, meanScale_shift,
    shift_multiply, zero_mul, zero_mul, add_zero, add_zero]
  dsimp only
  congr 1
  · rw [ha, hb]
    field_simp
    unfold determinant
    ring
  · rw [ha, hb]
    ring

/-- A matrix of negligible scale is its own rest. -/
theorem splitPlacement_of_negligible (h : m.meanScale ≤ singularBound) :
    m.splitPlacement = ⟨1, 0, 0, m⟩ := by
  have hscale : m.splitScale = (1, m) := by
    unfold splitScale
    dsimp only
    rw [if_pos (.inl (by simpa using h)), Scalar.one_real]
  have hsquare : m.meanScale * m.meanScale = |m.determinant| :=
    Real.mul_self_sqrt (abs_nonneg m.determinant)
  have hdet : |m.linear.determinant| < singularBound := by
    show |m.determinant| < _
    rw [← hsquare]
    calc m.meanScale * m.meanScale
        ≤ singularBound * singularBound :=
          mul_le_mul h h (Real.sqrt_nonneg _) singularBound_pos.le
      _ < singularBound := mul_lt_of_lt_one_left singularBound_pos singularBound_lt_one
  have hinvert : m.linear.invert = .error (.notInvertible m.linear.determinant) :=
    if_pos (.inl hdet)
  unfold splitPlacement
  rw [hscale]
  dsimp only
  rw [hinvert, Scalar.zero_real, Scalar.one_real]

/-! ### Putting the parts together -/

/-- The map that scales, then moves to the position, then applies the rest. -/
noncomputable def Placement.matrix (p : Placement ℝ) : Matrix ℝ :=
  ((scaling p.scale p.scale).multiply (shift p.x p.y)).multiply p.rest

theorem Placement.matrix_eq (p : Placement ℝ) :
    p.matrix =
      ⟨p.scale * p.rest.a, p.scale * p.rest.b, p.scale * p.rest.c, p.scale * p.rest.d,
        p.x * p.rest.a + p.y * p.rest.c + p.rest.e,
        p.x * p.rest.b + p.y * p.rest.d + p.rest.f⟩ := by
  unfold Placement.matrix multiply scaling shift
  simp only [Scalar.zero_real, Scalar.one_real, zero_mul, mul_zero, mul_one, add_zero, zero_add]

/-- The split loses nothing, whether the scale is negligible or not. -/
theorem matrix_splitPlacement (m : Matrix ℝ) : m.splitPlacement.matrix = m := by
  rcases le_or_gt m.meanScale singularBound with h | h
  · rw [splitPlacement_of_negligible h, Placement.matrix_eq]
    simp only [one_mul, zero_mul, zero_add]
  · have hs : m.meanScale ≠ 0 := (singularBound_pos.trans h).ne'
    have hdet : m.unscaled.determinant ≠ 0 := by
      rw [← abs_pos, abs_determinant_unscaled (singularBound_pos.trans h)]
      exact one_pos
    have hlinear (x : ℝ) : m.meanScale * (x / m.meanScale) = x := mul_div_cancel₀ x hs
    -- The position is found by Cramer's rule.
    have hx : (m.unscaled.d * m.e - m.unscaled.c * m.f) / m.unscaled.determinant * m.unscaled.a +
        (m.unscaled.a * m.f - m.unscaled.b * m.e) / m.unscaled.determinant * m.unscaled.c = m.e := by
      field_simp
      unfold determinant
      ring
    have hy : (m.unscaled.d * m.e - m.unscaled.c * m.f) / m.unscaled.determinant * m.unscaled.b +
        (m.unscaled.a * m.f - m.unscaled.b * m.e) / m.unscaled.determinant * m.unscaled.d = m.f := by
      field_simp
      unfold determinant
      ring
    rw [splitPlacement_eq h, Placement.matrix_eq]
    dsimp only
    rw [hx, hy]
    simp only [unscaled, hlinear, add_zero]

/-- **The split of a matrix is faithful and follows a move along its first axis.** Put together
again, the parts are the matrix. Above the bound the scale is the root of the absolute determinant,
the rest is linear and keeps areas, and a move adds to the position in units of the scale; up to the
bound the matrix is its own rest. -/
theorem splitPlacement_faithful (m : Matrix ℝ) :
    let p := m.splitPlacement
    ((scaling p.scale p.scale).multiply (shift p.x p.y)).multiply p.rest = m ∧
      (singularBound < √|m.determinant| →
        p.scale = √|m.determinant| ∧ p.rest.e = 0 ∧ p.rest.f = 0 ∧
          (p.rest.determinant = 1 ∨ p.rest.determinant = -1) ∧
          ∀ x, ((shift x 0).multiply m).splitPlacement =
            ⟨p.scale, p.x + x * p.scale, p.y, p.rest⟩) ∧
      (√|m.determinant| ≤ singularBound → p = ⟨1, 0, 0, m⟩) := by
  refine ⟨m.matrix_splitPlacement, fun h => ?_, splitPlacement_of_negligible⟩
  have hunscaled := abs_determinant_unscaled (singularBound_pos.trans h)
  refine ⟨?_, ?_, ?_, ?_, splitPlacement_shift h⟩
  all_goals rw [splitPlacement_eq h]
  · rfl
  · rfl
  · rfl
  · exact (abs_eq zero_le_one).1 hunscaled

/-- A reflection in a diagonal that doubles lengths, away from the origin, and a map of the plane to
a line. -/
theorem splitPlacement_faithful_diagonal :
    let m : Matrix ℝ := ⟨0, 2, 2, 0, 3, 5⟩
    let n : Matrix ℝ := ⟨1, 2, 2, 4, 3, 5⟩
    (singularBound < √|m.determinant| ∧ m.splitPlacement = ⟨2, 5, 3, ⟨0, 1, 1, 0, 0, 0⟩⟩ ∧
        ∀ x, ((shift x 0).multiply m).splitPlacement = ⟨2, 5 + x * 2, 3, ⟨0, 1, 1, 0, 0, 0⟩⟩) ∧
      √|n.determinant| ≤ singularBound ∧ n.splitPlacement = ⟨1, 0, 0, n⟩ := by
  intro m n
  have hm : √|m.determinant| = 2 := by
    have hfour : |m.determinant| = 2 * 2 := by norm_num [m, determinant]
    rw [hfour, Real.sqrt_mul_self zero_le_two]
  have hscale : singularBound < √|m.determinant| := by
    rw [hm]
    exact singularBound_lt_one.trans one_lt_two
  have hn : √|n.determinant| ≤ singularBound := by
    have hzero : |n.determinant| = 0 := by norm_num [n, determinant]
    rw [hzero, Real.sqrt_zero]
    exact singularBound_pos.le
  have hsplit : m.splitPlacement = ⟨2, 5, 3, ⟨0, 1, 1, 0, 0, 0⟩⟩ := by
    have hmean : m.meanScale = 2 := hm
    rw [splitPlacement_eq hscale]
    norm_num [unscaled, hmean, determinant, m]
  obtain ⟨-, habove, -⟩ := splitPlacement_faithful m
  obtain ⟨-, -, hbelow⟩ := splitPlacement_faithful n
  obtain ⟨-, -, -, -, hmoved⟩ := habove hscale
  rw [hsplit] at hmoved
  exact ⟨⟨hscale, hsplit, hmoved⟩, hn, hbelow hn⟩

end PageSvg.Matrix
