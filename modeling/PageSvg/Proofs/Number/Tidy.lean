import PageSvg.Color.Rgb
import PageSvg.Options

/-!
# Zeros of either sign

Numbers of a page may have two zeros, which compare as equal and are not the same. `tidy` makes one
zero of them. What a page is made of does not tell them apart: numbers that are the same once they
are tidied are written alike, and arithmetic takes them to such numbers again.
-/

namespace PageSvg

variable {α : Type} [Scalar α]

namespace Scalar

/-- The number, with one zero for all zeros. -/
def tidy (x : α) : α := if x == 0 then 0 else x

/-- Numbers that compare as equal are the same but for the sign of zeros, and nothing but the signs
of results depends on that. -/
class ZerosAlike (α : Type) [Scalar α] : Prop where
  tidy_of_beq : ∀ {x y : α}, (x == y) = true → tidy x = tidy y
  tidy_beq : ∀ x y : α, (tidy x == y) = (x == y)
  beq_tidy : ∀ x y : α, (x == tidy y) = (x == y)
  tidy_lt : ∀ x y : α, tidy x < y ↔ x < y
  lt_tidy : ∀ x y : α, x < tidy y ↔ x < y
  tidy_mul : ∀ x y : α, tidy (tidy x * y) = tidy (x * y)
  mul_tidy : ∀ x y : α, tidy (x * tidy y) = tidy (x * y)
  tidy_sub : ∀ x y : α, tidy (tidy x - y) = tidy (x - y)
  sub_tidy : ∀ x y : α, tidy (x - tidy y) = tidy (x - y)
  tidy_div : ∀ x y : α, tidy (tidy x / y) = tidy (x / y)
  abs_tidy : ∀ x : α, abs (tidy x) = abs x
  tidy_round : ∀ x : α, tidy (round (tidy x)) = tidy (round x)
  truncate_tidy : ∀ x : α, truncate (tidy x) = truncate x

export ZerosAlike (tidy_of_beq tidy_beq beq_tidy tidy_lt lt_tidy tidy_mul mul_tidy tidy_sub sub_tidy
  tidy_div abs_tidy tidy_round truncate_tidy)

theorem tidy_tidy (x : α) : tidy (tidy x) = tidy x := by
  by_cases h : (x == 0) = true
  · have hx : tidy x = 0 := if_pos h
    rw [hx]
    unfold tidy
    split
    · rfl
    · rfl
  · have hx : tidy x = x := if_neg h
    rw [hx, hx]

section Alike

variable [ZerosAlike α] {x x' y y' : α}

theorem beq_congr (hx : tidy x = tidy x') (hy : tidy y = tidy y') : (x == y) = (x' == y') := by
  rw [← tidy_beq x, ← beq_tidy _ y, hx, hy, beq_tidy, tidy_beq]

theorem lt_congr (hx : tidy x = tidy x') (hy : tidy y = tidy y') : x < y ↔ x' < y' := by
  rw [← tidy_lt x, ← lt_tidy _ y, hx, hy, lt_tidy, tidy_lt]

theorem mul_congr (hx : tidy x = tidy x') (hy : tidy y = tidy y') :
    tidy (x * y) = tidy (x' * y') := by
  rw [← tidy_mul x, ← mul_tidy _ y, hx, hy, mul_tidy, tidy_mul]

theorem sub_congr (hx : tidy x = tidy x') (hy : tidy y = tidy y') :
    tidy (x - y) = tidy (x' - y') := by
  rw [← tidy_sub x, ← sub_tidy _ y, hx, hy, sub_tidy, tidy_sub]

theorem div_congr (hx : tidy x = tidy x') (y : α) : tidy (x / y) = tidy (x' / y) := by
  rw [← tidy_div x, hx, tidy_div]

theorem abs_congr (hx : tidy x = tidy x') : abs x = abs x' := by
  rw [← abs_tidy x, hx, abs_tidy]

theorem round_congr (hx : tidy x = tidy x') : tidy (round x) = tidy (round x') := by
  rw [← tidy_round x, hx, tidy_round]

theorem isNaN_congr (hx : tidy x = tidy x') : isNaN x = isNaN x' := by
  unfold isNaN
  rw [beq_congr hx hx]

theorem max_congr (hx : tidy x = tidy x') (hy : tidy y = tidy y') :
    tidy (max x y) = tidy (max x' y') := by
  unfold max
  simp only [isNaN_congr hx, lt_congr hx hy]
  split
  · exact hy
  · split
    · exact hy
    · exact hx

theorem clamp_congr (low high : α) (hx : tidy x = tidy x') :
    tidy (clamp low high x) = tidy (clamp low high x') := by
  unfold clamp
  simp only [lt_congr hx (rfl : tidy low = tidy low), lt_congr (rfl : tidy high = tidy high) hx]
  split
  · rfl
  · split
    · rfl
    · exact hx

/-- Rounded to the precision, a number has lost the sign of zero. -/
theorem options_round_congr (o : Options α) (hx : tidy x = tidy x') : o.round x = o.round x' :=
  div_congr (round_congr (mul_congr hx rfl)) (power 10 o.precision)

theorem text_congr (o : Options α) (hx : tidy x = tidy x') : o.text x = o.text x' := by
  unfold Options.text
  rw [options_round_congr o hx]

end Alike

end Scalar

/-! ### Colours -/

namespace Rgb

/-- The colour with one zero for all zeros. -/
def tidied (c : Rgb α) : Rgb α := ⟨Scalar.tidy c.r, Scalar.tidy c.g, Scalar.tidy c.b⟩

open Scalar

variable [ZerosAlike α] {c c' : Rgb α}

theorem unit_congr {x x' : α} (hx : tidy x = tidy x') : tidy (unit x) = tidy (unit x') := by
  unfold unit
  rw [isNaN_congr hx]
  split
  · rfl
  · exact clamp_congr 0 1 hx

theorem step_congr {x x' : α} (hx : tidy x = tidy x') : step x = step x' := by
  unfold step
  rw [← truncate_tidy (round (unit x * 255)), round_congr (mul_congr (unit_congr hx) rfl),
    truncate_tidy]

theorem css_congr (h : c.tidied = c'.tidied) : c.css = c'.css := by
  obtain ⟨r, g, b⟩ := c
  obtain ⟨r', g', b'⟩ := c'
  obtain ⟨hr, hg, hb⟩ := Rgb.mk.inj h
  unfold css
  rw [step_congr hr, step_congr hg, step_congr hb]

theorem beq_congr {d d' : Rgb α} (h : c.tidied = c'.tidied) (hd : d.tidied = d'.tidied) :
    (c == d) = (c' == d') := by
  obtain ⟨r, g, b⟩ := c
  obtain ⟨r', g', b'⟩ := c'
  obtain ⟨s, t, u⟩ := d
  obtain ⟨s', t', u'⟩ := d'
  obtain ⟨hr, hg, hb⟩ := Rgb.mk.inj h
  obtain ⟨hs, ht, hu⟩ := Rgb.mk.inj hd
  show (r == s && (g == t && b == u)) = (r' == s' && (g' == t' && b' == u'))
  rw [Scalar.beq_congr hr hs, Scalar.beq_congr hg ht, Scalar.beq_congr hb hu]

theorem tidied_of_beq (h : (c == c') = true) : c.tidied = c'.tidied := by
  obtain ⟨r, g, b⟩ := c
  obtain ⟨r', g', b'⟩ := c'
  have h : (r == r' && (g == g' && b == b')) = true := h
  rw [Bool.and_eq_true, Bool.and_eq_true] at h
  unfold tidied
  rw [tidy_of_beq h.1, tidy_of_beq h.2.1, tidy_of_beq h.2.2]

end Rgb

end PageSvg
