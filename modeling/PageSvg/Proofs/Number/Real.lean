import Mathlib.Analysis.Real.Sqrt
import Mathlib.Tactic.Ring
import PageSvg.Number.Scalar

/-!
# Real numbers as page numbers

A type of numbers in which pages are computed exactly, square roots included. There are no special
values.
-/

namespace PageSvg

/-- The integer nearest to a real number, the even one of two that are equally near. -/
noncomputable def Numeral.nearestEven (x : ℝ) : ℤ :=
  if Int.fract x < 1 - Int.fract x then ⌊x⌋
  else if 1 - Int.fract x < Int.fract x then ⌊x⌋ + 1
  else if Even ⌊x⌋ then ⌊x⌋
  else ⌊x⌋ + 1

/-- The integer nearest to a real number, the one farther from zero of two that are equally near. -/
noncomputable def Numeral.nearestAway (x : ℝ) : ℤ := if x < 0 then -round (-x) else round x

/-- A real number at a fixed count of decimal places. -/
noncomputable def Numeral.ofReal (places : ℕ) (x : ℝ) : Numeral :=
  .finite (decide (x < 0)) (nearestEven (|x| * (10 ^ places : ℕ))).toNat (-(places : ℤ))

/-- Real numbers as numbers of a page. -/
@[reducible] noncomputable def Scalar.real : Scalar ℝ where
  ofInt n := n
  abs x := |x|
  sqrt := Real.sqrt
  round x := Numeral.nearestAway x
  truncate x :=
    .ofInt (Min.min (2 ^ 63 - 1) (Max.max (-2 ^ 63) (if x < 0 then -⌊-x⌋ else ⌊x⌋)))
  shortest _ x := .ofReal 17 x
  fixed := .ofReal
  decidableLT := inferInstance
  decidableLE := inferInstance

attribute [local instance] Scalar.real

attribute [local instance (high)] Zero.toOfNat0 One.toOfNat1 instOfNatAtLeastTwo
  DivInvMonoid.toDiv

namespace Scalar

theorem isNaN_real (x : ℝ) : isNaN x = false := by
  rw [isNaN, beq_self_eq_true, Bool.not_true]

theorem isFinite_real (x : ℝ) : isFinite x = true := by
  rw [isFinite, isNaN_real, Bool.not_false]

theorem min_real (x y : ℝ) : Scalar.min x y = Min.min x y := by
  unfold Scalar.min
  rw [isNaN_real, if_neg Bool.false_ne_true]
  split_ifs with h
  · exact (min_eq_right h.le).symm
  · exact (min_eq_left (not_lt.1 h)).symm

theorem max_real (x y : ℝ) : Scalar.max x y = Max.max x y := by
  unfold Scalar.max
  rw [isNaN_real, if_neg Bool.false_ne_true]
  split_ifs with h
  · exact (max_eq_right h.le).symm
  · exact (max_eq_left (not_lt.1 h)).symm

/-- Literals of page numbers are the usual ones. -/
theorem zero_real : @OfNat.ofNat ℝ (nat_lit 0) (Scalar.instOfNat (nat_lit 0)) = 0 := Int.cast_zero

theorem one_real : @OfNat.ofNat ℝ (nat_lit 1) (Scalar.instOfNat (nat_lit 1)) = 1 := Int.cast_one

theorem sqrt_real (x : ℝ) : sqrt x = √x := rfl

theorem abs_real (x : ℝ) : abs x = |x| := rfl

theorem power_go_real (square product : ℝ) (n : ℕ) :
    power.go square product n = product * square ^ n := by
  fun_induction power.go square product n with
  | case1 square product n next hn =>
    have hcases : n = 0 ∨ n = 1 := by omega
    rcases hcases with rfl | rfl
    · exact (mul_one product).symm
    · rw [pow_one]
      rfl
  | case2 square product n next hn ih =>
    rw [ih]
    have hsplit : square ^ n = square ^ (n % 2) * (square * square) ^ (n / 2) := by
      rw [← pow_two, ← pow_mul, ← pow_add, Nat.mod_add_div]
    rw [hsplit, ← mul_assoc]
    congr 1
    show (if n % 2 = 1 then product * square else product) = _
    split_ifs with hodd
    · rw [hodd, pow_one]
    · rw [Nat.mod_two_ne_one.1 hodd, pow_zero, mul_one]

/-- A power by repeated squaring is the power. -/
theorem power_real (x : ℝ) (n : ℕ) : power x n = x ^ n := by
  rw [power, power_go_real, one_real, one_mul]

end Scalar

end PageSvg
