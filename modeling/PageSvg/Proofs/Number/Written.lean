import Mathlib.Algebra.Order.Round
import Mathlib.Tactic.Linarith
import PageSvg.Options
import PageSvg.Proofs.Number.Decimal
import PageSvg.Proofs.Number.Real

/-!
# Coordinates as they are written

A coordinate is rounded to a whole number of units of the last decimal place, a half away from zero,
and its text reads as those units. What is less than half a unit is written as zero.
-/

namespace PageSvg

attribute [local instance] Scalar.real

attribute [local instance (high)] Zero.toOfNat0 One.toOfNat1 instOfNatAtLeastTwo
  DivInvMonoid.toDiv

namespace Numeral

theorem nearestEven_intCast (n : ℤ) : nearestEven n = n := by
  rw [nearestEven, Int.fract_intCast, if_pos (by norm_num), Int.floor_intCast]

theorem nearestAway_natCast (n : ℕ) : nearestAway n = n := by
  rw [nearestAway, if_neg (Nat.cast_nonneg n).not_gt, round_natCast]

/-- What is rounded up from zero is at least a half. -/
theorem nearestAway_pos_iff {x : ℝ} : 0 < nearestAway x ↔ 1 / 2 ≤ x := by
  unfold nearestAway
  split_ifs with hneg
  · have hround : 0 ≤ round (-x) := by
      rw [round_eq]
      exact Int.floor_nonneg.2 (by linarith)
    constructor
    · intro hpos
      omega
    · intro hhalf
      linarith
  · rw [round_eq, Int.floor_pos]
    constructor <;> intro h <;> linarith

end Numeral

/-- A whole number of units of the last decimal place is written exactly. -/
theorem Scalar.read?_placesText (places : ℕ) (n : ℤ) :
    Decimal.read? (placesText places ((n : ℝ) / 10 ^ places)).toList =
      some ((n : ℚ) / 10 ^ places) := by
  have hunit : (0 : ℝ) < 10 ^ places := by positivity
  have hdigits : (Numeral.nearestEven (|(n : ℝ) / 10 ^ places| * (10 ^ places : ℕ))).toNat =
      n.natAbs := by
    have hexact : |(n : ℝ) / 10 ^ places| * (10 ^ places : ℕ) = ((n.natAbs : ℤ) : ℝ) := by
      rw [abs_div, abs_of_pos hunit, Nat.cast_pow, Nat.cast_ofNat, div_mul_cancel₀ _ hunit.ne',
        Int.natCast_natAbs, Int.cast_abs]
    rw [hexact, Numeral.nearestEven_intCast, Int.toNat_natCast]
  have hnegative : (n : ℝ) / 10 ^ places < 0 ↔ n < 0 := by
    rw [div_lt_iff₀ hunit, zero_mul, Int.cast_lt_zero]
  have hvalue : (if decide ((n : ℝ) / 10 ^ places < 0) then -(n.natAbs : ℚ) else n.natAbs) = n := by
    have hcases : (n.natAbs : ℤ) = if n < 0 then -n else n := by omega
    by_cases hneg : n < 0
    · rw [if_pos hneg] at hcases
      rw [if_pos (decide_eq_true (hnegative.2 hneg)), ← Int.cast_natCast, hcases, Int.cast_neg,
        neg_neg]
    · rw [if_neg hneg] at hcases
      rw [if_neg (by simpa using mt hnegative.1 hneg), ← Int.cast_natCast, hcases]
  have htext : placesText places ((n : ℝ) / 10 ^ places) =
      (Numeral.ofReal places ((n : ℝ) / 10 ^ places)).trimmed.text .plain := rfl
  rw [htext, Numeral.ofReal, hdigits, Numeral.read?_trimmed, hvalue]

namespace Options

/-- A coordinate in units of the last decimal place. -/
noncomputable def units (o : Options ℝ) (x : ℝ) : ℤ := Numeral.nearestAway (x * 10 ^ o.precision)

theorem round_real (o : Options ℝ) (x : ℝ) : o.round x = o.units x / 10 ^ o.precision := by
  have hten : @OfNat.ofNat ℝ (nat_lit 10) (Scalar.instOfNat (nat_lit 10)) = 10 := Int.cast_ofNat 10
  have hround : Scalar.round (x * 10 ^ o.precision) = (o.units x : ℝ) := rfl
  unfold round
  dsimp only
  rw [Scalar.power_real, hten, hround, Scalar.zero_real]
  split_ifs with hzero
  · exact (eq_of_beq hzero).symm
  · rfl

/-- A coordinate rounded to the last decimal place. -/
noncomputable def written (o : Options ℝ) (x : ℝ) : ℚ := o.units x / 10 ^ o.precision

/-- The text of a coordinate reads as its units. -/
theorem read?_text (o : Options ℝ) (x : ℝ) :
    Decimal.read? (o.text x).toList = some (o.written x) := by
  rw [text, round_real, Scalar.read?_placesText, written]

theorem written_zero (o : Options ℝ) : o.written 0 = 0 := by
  have hunits := Numeral.nearestAway_natCast 0
  rw [Nat.cast_zero] at hunits
  rw [written, units, zero_mul, hunits, Nat.cast_zero, Int.cast_zero, zero_div]

theorem written_one (o : Options ℝ) : o.written 1 = 1 := by
  have hunit : (10 : ℚ) ^ o.precision ≠ 0 := by positivity
  have hunits := Numeral.nearestAway_natCast (10 ^ o.precision)
  push_cast at hunits
  rw [written, units, one_mul, hunits, Int.cast_pow, Int.cast_ofNat, div_self hunit]

/-- A coordinate is written as a positive number when it is at least half a unit. -/
theorem written_pos_iff {o : Options ℝ} {x : ℝ} :
    0 < o.written x ↔ (10 ^ o.precision : ℝ)⁻¹ / 2 ≤ x := by
  have hunit : (0 : ℝ) < 10 ^ o.precision := by positivity
  have hunit' : (0 : ℚ) < 10 ^ o.precision := by positivity
  rw [written, div_pos_iff_of_pos_right hunit', Int.cast_pos, units, Numeral.nearestAway_pos_iff,
    ← div_le_iff₀ hunit, div_right_comm, one_div]

end Options

end PageSvg
