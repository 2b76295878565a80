import Mathlib.Data.Rat.Floor
import PageSvg.Proofs.Number.Tidy

/-!
# Fractions as page numbers

A type of numbers in which pages are computed exactly, but for square roots and for numerals, which
are cut off. There are no special values.
-/

namespace PageSvg

/-- A fraction at a fixed count of decimal places. -/
def Numeral.ofRat (places : Nat) (x : ℚ) : Numeral :=
  .finite (x < 0) (Dyadic.roundQuotient (x.num.natAbs * 10 ^ places) x.den) (-(places : Int))

/-- Fractions as numbers of a page. -/
@[reducible] def Scalar.rational : Scalar ℚ where
  ofInt n := n
  abs x := if x < 0 then -x else x
  sqrt x := Nat.sqrt ⌊x * 10 ^ 40⌋.toNat / 10 ^ 20
  round x := if x < 0 then -⌊-x + 1 / 2⌋ else ⌊x + 1 / 2⌋
  truncate x :=
    .ofInt (Min.min (2 ^ 63 - 1) (Max.max (-2 ^ 63) (if x < 0 then -⌊-x⌋ else ⌊x⌋)))
  shortest _ x := .ofRat 17 x
  fixed := .ofRat
  decidableLT := inferInstance
  decidableLE := inferInstance

/-- There is one zero among fractions. -/
theorem Scalar.tidy_rational (x : ℚ) : @Scalar.tidy ℚ Scalar.rational x = x := by
  unfold Scalar.tidy
  split
  · next h => exact (eq_of_beq h).symm
  · rfl

theorem Scalar.zerosAlike_rational : @Scalar.ZerosAlike ℚ Scalar.rational := by
  refine @Scalar.ZerosAlike.mk ℚ Scalar.rational ?_ ?_ ?_ ?_ ?_ ?_ ?_ ?_ ?_ ?_ ?_ ?_ ?_
  · intro x y h
    rw [eq_of_beq h]
  all_goals simp only [Scalar.tidy_rational, implies_true]

end PageSvg
