import Mathlib.Data.EReal.Basic
import Mathlib.Tactic.Ring
import PageSvg.Number.Scalar

/-!
# Numbers on the line

The numbers of a page that are not undefined have a place on the extended line, and comparisons
of numbers are comparisons of places. This holds of doubles: a finite double is an integer times a
power of two, and as long as the exponents are as small as the format allows, the larger exponent
belongs to the larger number.
-/

namespace PageSvg

/-- Numbers have places on the extended line, by which they are compared; an undefined number is
neither before nor after nor equal to any number. -/
class Scalar.OnLine (α : Type) [Scalar α] where
  /-- The place of a number; that of an undefined one means nothing. -/
  place : α → EReal
  lt_iff : ∀ x y : α, x < y ↔ isNaN x = false ∧ isNaN y = false ∧ place x < place y
  beq_iff : ∀ x y : α, (x == y) = true ↔ isNaN x = false ∧ isNaN y = false ∧ place x = place y

namespace Scalar

variable {α : Type} [Scalar α] {x y : α}

theorem isNaN_min (hx : isNaN x = false) (hy : isNaN y = false) : isNaN (Scalar.min x y) = false := by
  unfold Scalar.min
  split_ifs
  exacts [hy, hy, hx]

theorem isNaN_max (hx : isNaN x = false) (hy : isNaN y = false) : isNaN (Scalar.max x y) = false := by
  unfold Scalar.max
  split_ifs
  exacts [hy, hy, hx]

namespace OnLine

variable [OnLine α]

theorem place_lt (hx : isNaN x = false) (hy : isNaN y = false) : x < y ↔ place x < place y := by
  rw [lt_iff, hx, hy]
  exact ⟨fun h => h.2.2, fun h => ⟨rfl, rfl, h⟩⟩

theorem place_beq (hx : isNaN x = false) (hy : isNaN y = false) :
    (x == y) = true ↔ place x = place y := by
  rw [beq_iff, hx, hy]
  exact ⟨fun h => h.2.2, fun h => ⟨rfl, rfl, h⟩⟩

theorem place_min (hx : isNaN x = false) (hy : isNaN y = false) :
    place (Scalar.min x y) = Min.min (place x) (place y) := by
  unfold Scalar.min
  rw [if_neg (by rw [hx]; exact Bool.false_ne_true)]
  split_ifs with h
  · exact (min_eq_right ((place_lt hy hx).1 h).le).symm
  · exact (min_eq_left (not_lt.1 fun hlt => h ((place_lt hy hx).2 hlt))).symm

theorem place_max (hx : isNaN x = false) (hy : isNaN y = false) :
    place (Scalar.max x y) = Max.max (place x) (place y) := by
  unfold Scalar.max
  rw [if_neg (by rw [hx]; exact Bool.false_ne_true)]
  split_ifs with h
  · exact (max_eq_right ((place_lt hx hy).1 h).le).symm
  · exact (max_eq_left (not_lt.1 fun hlt => h ((place_lt hx hy).2 hlt))).symm

end OnLine

end Scalar

/-! ### Doubles -/

namespace Binary64

open Float.Model

/-- The real number `± mantissa · 2 ^ exponent`. -/
noncomputable def realOf (sign : UnpackedFloat.Sign) (mantissa : ℕ) (exponent : ℤ) : ℝ :=
  match sign with
  | .positive => mantissa * 2 ^ exponent
  | .negative => -(mantissa * 2 ^ exponent)

/-- The place of an unpacked double; that of an undefined one means nothing. -/
noncomputable def placeOf : UnpackedFloat → EReal
  | .notANumber => 0
  | .infinity .positive => ⊤
  | .infinity .negative => ⊥
  | .zero _ => 0
  | .finite sign mantissa exponent _ => realOf sign mantissa exponent

/-- A finite double whose exponent is as small as the format allows. -/
def Canonical : UnpackedFloat → Prop
  | .finite _ mantissa exponent _ =>
    mantissa < 2 ^ 53 ∧ -1074 ≤ exponent ∧ (exponent = -1074 ∨ 2 ^ 52 ≤ mantissa)
  | _ => True

theorem toNat_one_append {width : ℕ} (v : BitVec width) : (1#1 ++ v).toNat = 2 ^ width + v.toNat := by
  rw [BitVec.toNat_append, ← Nat.shiftLeft_add_eq_or_of_lt v.isLt, BitVec.toNat_ofNat,
    Nat.shiftLeft_eq]
  simp

theorem Canonical.ite {c : Prop} [Decidable c] {x y : UnpackedFloat} (hx : c → Canonical x)
    (hy : ¬c → Canonical y) : Canonical (if c then x else y) := by
  by_cases h : c
  · rw [if_pos h]
    exact hx h
  · rw [if_neg h]
    exact hy h

theorem Canonical.dite {c : Prop} [Decidable c] {x : c → UnpackedFloat} {y : ¬c → UnpackedFloat}
    (hx : ∀ h, Canonical (x h)) (hy : ∀ h, Canonical (y h)) :
    Canonical (if h : c then x h else y h) := by
  by_cases h : c
  · rw [dif_pos h]
    exact hx h
  · rw [dif_neg h]
    exact hy h

theorem canonical_unpack (x : Float.Model) : Canonical x.unpack := by
  have hlt : (@UnpackedFloat.unpackMantissa Format.binary64 x.toBits.toBitVec).toNat <
      2 ^ 52 := BitVec.isLt _
  have hbias : (Format.binary64.exponentBias : ℤ) = 1023 := rfl
  have hwidth : (Format.binary64.mantissaBitsWithoutImplicit : ℤ) = 52 := rfl
  refine .ite (fun _ => .ite (fun _ => trivial) fun _ => trivial) fun _ =>
    .ite (fun hfirst => .dite (fun _ => trivial) fun _ => ?_) fun hfirst => ?_
  · have hzero := congrArg BitVec.toNat hfirst
    rw [BitVec.toNat_zero] at hzero
    exact ⟨by omega, by omega, .inl (by omega)⟩
  · have hzero := mt BitVec.eq_of_toNat_eq hfirst
    rw [BitVec.toNat_zero] at hzero
    refine ⟨?_, by omega, .inr ?_⟩
    · rw [toNat_one_append]
      exact (Nat.add_lt_add_left hlt _).trans_eq rfl
    · rw [toNat_one_append]
      exact Nat.le_add_right _ _

/-! ### Places of doubles -/

theorem two_zpow_pos (k : ℤ) : (0 : ℝ) < 2 ^ k := zpow_pos (by norm_num) k

/-- Among canonical numbers, the larger exponent belongs to the larger number. -/
theorem mul_zpow_lt_of_exponent_lt {m n : ℕ} {d e : ℤ} (hm : m < 2 ^ 53) (hn : 2 ^ 52 ≤ n)
    (h : d < e) : (m : ℝ) * 2 ^ d < n * 2 ^ e := by
  calc (m : ℝ) * 2 ^ d
    _ < 2 ^ 53 * 2 ^ d := mul_lt_mul_of_pos_right (by exact_mod_cast hm) (two_zpow_pos d)
    _ = 2 ^ 52 * 2 ^ (d + 1) := by rw [zpow_add_one₀ (by norm_num)]; ring
    _ ≤ 2 ^ 52 * 2 ^ e := by
      refine mul_le_mul_of_nonneg_left (zpow_le_zpow_right₀ (by norm_num) ?_) (by norm_num)
      omega
    _ ≤ n * 2 ^ e := mul_le_mul_of_nonneg_right (by exact_mod_cast hn) (two_zpow_pos e).le

/-- Canonical numbers are compared by their exponents first and then by their mantissas. -/
theorem compare_then_eq_cmp {m n : ℕ} {d e : ℤ}
    (hm : m < 2 ^ 53 ∧ -1074 ≤ d ∧ (d = -1074 ∨ 2 ^ 52 ≤ m))
    (hn : n < 2 ^ 53 ∧ -1074 ≤ e ∧ (e = -1074 ∨ 2 ^ 52 ≤ n)) :
    (compare d e).then (compare m n) = cmp ((m : ℝ) * 2 ^ d) (n * 2 ^ e) := by
  rcases lt_trichotomy d e with h | rfl | h
  · rw [compare_lt_iff_lt.2 h, (cmp_eq_lt_iff _ _).2]
    · rfl
    · exact mul_zpow_lt_of_exponent_lt hm.1 (by omega) h
  · rw [compare_eq_iff_eq.2 rfl, cmp_mul_pos_right (two_zpow_pos d), ← cmp_eq_compare,
      Nat.strictMono_cast.cmp_map_eq]
    rfl
  · rw [compare_gt_iff_gt.2 h, (cmp_eq_gt_iff _ _).2]
    · rfl
    · exact mul_zpow_lt_of_exponent_lt hn.1 (by omega) h

theorem realOf_positive_pos {m : ℕ} {e : ℤ} (hm : 0 < m) : 0 < realOf .positive m e :=
  mul_pos (by exact_mod_cast hm) (two_zpow_pos e)

theorem realOf_negative_neg {m : ℕ} {e : ℤ} (hm : 0 < m) : realOf .negative m e < 0 :=
  neg_neg_of_pos (realOf_positive_pos hm)

/-- Nothing but an undefined double is not compared. -/
theorem compare_eq_none_iff {x y : UnpackedFloat} :
    x.compare y = none ↔ x = .notANumber ∨ y = .notANumber := by
  constructor
  · intro h
    rcases x with (_ | _) | _ | _ | ⟨_ | _, _, _, _⟩ <;>
      rcases y with (_ | _) | _ | _ | ⟨_ | _, _, _, _⟩
    all_goals first
      | exact .inl rfl
      | exact .inr rfl
      | cases h
  · rintro (rfl | rfl)
    · rfl
    · cases x <;> rfl

theorem compare_positive {m n : ℕ} {d e : ℤ} {hm : 0 < m} {hn : 0 < n}
    (hx : Canonical (.finite .positive m d hm)) (hy : Canonical (.finite .positive n e hn)) :
    (UnpackedFloat.finite .positive m d hm).compare (.finite .positive n e hn) =
      some (cmp (realOf .positive m d : EReal) (realOf .positive n e)) := by
  rw [EReal.coe_strictMono.cmp_map_eq]
  exact congrArg some (compare_then_eq_cmp hx hy)

theorem compare_negative {m n : ℕ} {d e : ℤ} {hm : 0 < m} {hn : 0 < n}
    (hx : Canonical (.finite .negative m d hm)) (hy : Canonical (.finite .negative n e hn)) :
    (UnpackedFloat.finite .negative m d hm).compare (.finite .negative n e hn) =
      some (cmp (realOf .negative m d : EReal) (realOf .negative n e)) := by
  rw [EReal.coe_strictMono.cmp_map_eq]
  refine congrArg some ?_
  rw [compare_then_eq_cmp hx hy, cmp_swap]
  have hanti : StrictAnti fun r : ℝ => -r := fun _ _ => neg_lt_neg
  exact (hanti.cmp_map_eq _ _).symm

/-- Canonical doubles are compared as their places are. -/
theorem compare_eq_cmp {x y : UnpackedFloat} (hx : Canonical x) (hy : Canonical y)
    (hxd : x ≠ .notANumber) (hyd : y ≠ .notANumber) :
    x.compare y = some (cmp (placeOf x) (placeOf y)) := by
  have hlt {a b : EReal} (h : a < b) : some Ordering.lt = some (cmp a b) :=
    congrArg some ((cmp_eq_lt_iff a b).2 h).symm
  have hgt {a b : EReal} (h : b < a) : some Ordering.gt = some (cmp a b) :=
    congrArg some ((cmp_eq_gt_iff a b).2 h).symm
  have heq {a : EReal} : some Ordering.eq = some (cmp a a) := congrArg some (cmp_self_eq_eq a).symm
  have hpos {m : ℕ} {e : ℤ} (hm : 0 < m) : (0 : EReal) < realOf .positive m e :=
    EReal.coe_pos.2 (realOf_positive_pos hm)
  have hneg {m : ℕ} {e : ℤ} (hm : 0 < m) : (realOf .negative m e : EReal) < 0 :=
    EReal.coe_neg'.2 (realOf_negative_neg hm)
  rcases x with (_ | _) | _ | _ | ⟨_ | _, m, d, hm⟩ <;>
    rcases y with (_ | _) | _ | _ | ⟨_ | _, n, e, hn⟩
  all_goals first
    | exact absurd rfl hxd
    | exact absurd rfl hyd
    | exact compare_positive hx hy
    | exact compare_negative hx hy
    | exact heq
    | exact hlt bot_lt_top
    | exact hgt bot_lt_top
    | exact hlt (EReal.bot_lt_coe _)
    | exact hlt (EReal.coe_lt_top _)
    | exact hgt (EReal.bot_lt_coe _)
    | exact hgt (EReal.coe_lt_top _)
    | exact hlt (hpos hn)
    | exact hgt (hneg hn)
    | exact hlt (hneg hm)
    | exact hgt (hpos hm)
    | exact hlt ((hneg hm).trans (hpos hn))
    | exact hgt ((hneg hn).trans (hpos hm))

/-! ### Comparisons of doubles -/

theorem lt_iff_compare (x y : Float) :
    x < y ↔ x.toModel.unpack.compare y.toModel.unpack = some .lt := by
  refine (decide_eq_true_iff (p := x.toModel < y.toModel)).trans ?_
  exact beq_iff_eq

theorem beq_iff_compare (x y : Float) :
    (x == y) = true ↔ x.toModel.unpack.compare y.toModel.unpack = some .eq :=
  beq_iff_eq (a := x.toModel.unpack.compare y.toModel.unpack)

theorem isNaN_eq_false_iff (x : Float) :
    Scalar.isNaN x = false ↔ x.toModel.unpack ≠ .notANumber := by
  rw [Scalar.isNaN, Bool.not_eq_false', beq_iff_compare]
  have hx := canonical_unpack x.toModel
  constructor
  · intro h hnot
    rw [compare_eq_none_iff.2 (.inl hnot)] at h
    cases h
  · intro h
    rw [compare_eq_cmp hx hx h h, cmp_self_eq_eq]

/-- What a comparison of doubles says. -/
theorem compare_eq_some_iff (x y : Float) (o : Ordering) :
    x.toModel.unpack.compare y.toModel.unpack = some o ↔
      Scalar.isNaN x = false ∧ Scalar.isNaN y = false ∧
        cmp (placeOf x.toModel.unpack) (placeOf y.toModel.unpack) = o := by
  rw [isNaN_eq_false_iff, isNaN_eq_false_iff]
  constructor
  · intro h
    have hdefined : ¬(x.toModel.unpack = .notANumber ∨ y.toModel.unpack = .notANumber) := by
      rw [← compare_eq_none_iff, h]
      exact nofun
    obtain ⟨hx, hy⟩ := not_or.1 hdefined
    rw [compare_eq_cmp (canonical_unpack _) (canonical_unpack _) hx hy] at h
    exact ⟨hx, hy, Option.some.inj h⟩
  · rintro ⟨hx, hy, rfl⟩
    exact compare_eq_cmp (canonical_unpack _) (canonical_unpack _) hx hy

end Binary64

/-- Doubles lie on the line. -/
noncomputable instance : Scalar.OnLine Float where
  place x := Binary64.placeOf x.toModel.unpack
  lt_iff x y := by rw [Binary64.lt_iff_compare, Binary64.compare_eq_some_iff, cmp_eq_lt_iff]
  beq_iff x y := by rw [Binary64.beq_iff_compare, Binary64.compare_eq_some_iff, cmp_eq_eq_iff]

end PageSvg
