import PageSvg.Geometry.PathData
import Mathlib.Data.List.TakeWhile
import Mathlib.Data.Nat.Digits.Defs
import Mathlib.Tactic.FieldSimp
import Mathlib.Tactic.Positivity
import Mathlib.Tactic.Ring

/-!
# Reading decimals

A decimal is digits, perhaps with decimal places behind a point and with a minus sign in front. The
text of a number of units of the last decimal place reads as that number exactly.
-/

namespace PageSvg

namespace Decimal

/-- The value of digits with or without decimal places. -/
def magnitude? (text : List Char) : Option ℚ :=
  let whole := text.takeWhile Char.isDigit
  if whole.isEmpty then none
  else
    match text.dropWhile Char.isDigit with
    | [] => some (Nat.ofDigitChars 10 whole 0)
    | '.' :: places =>
      if !places.isEmpty && places.all Char.isDigit then
        some ((Nat.ofDigitChars 10 (whole ++ places) 0 : ℚ) / 10 ^ places.length)
      else none
    | _ => none

/-- The value of a decimal. -/
def read? : List Char → Option ℚ
  | '-' :: text => (magnitude? text).map (-·)
  | text => magnitude? text

theorem magnitude?_digits {digits : List Char} (hne : digits ≠ [])
    (h : ∀ c ∈ digits, c.isDigit = true) :
    magnitude? digits = some (Nat.ofDigitChars 10 digits 0 : ℚ) := by
  have hwhole : digits.takeWhile Char.isDigit = digits := List.takeWhile_eq_self_iff.2 h
  have hrest : digits.dropWhile Char.isDigit = [] := List.dropWhile_eq_nil_iff.2 h
  unfold magnitude?
  simp [hwhole, hrest, hne]

theorem magnitude?_places {whole places : List Char} (hne : whole ≠ [])
    (h : ∀ c ∈ whole, c.isDigit = true) (hplaces : places ≠ [])
    (hdigits : ∀ c ∈ places, c.isDigit = true) :
    magnitude? (whole ++ '.' :: places) =
      some ((Nat.ofDigitChars 10 (whole ++ places) 0 : ℚ) / 10 ^ places.length) := by
  have hpoint : ('.').isDigit = false := rfl
  have hwhole : (whole ++ '.' :: places).takeWhile Char.isDigit = whole := by
    rw [List.takeWhile_append_of_pos h, List.takeWhile_cons, hpoint]
    simp
  have hrest : (whole ++ '.' :: places).dropWhile Char.isDigit = '.' :: places := by
    rw [List.dropWhile_append_of_pos h, List.dropWhile_cons, hpoint]
    simp
  have hall : places.all Char.isDigit = true := List.all_eq_true.2 hdigits
  unfold magnitude?
  simp [hwhole, hrest, hne, hplaces, hall]

/-- What reads as a decimal is digits, a point and a minus sign. -/
theorem space_not_mem {text : List Char} {q : ℚ} (h : read? text = some q) : ' ' ∉ text := by
  have hdigits {digits : List Char} (h : ∀ c ∈ digits, c.isDigit = true) : ' ' ∉ digits :=
    fun hmem => absurd (h ' ' hmem) (by decide)
  have hmagnitude {text : List Char} {q : ℚ} (h : magnitude? text = some q) : ' ' ∉ text := by
    unfold magnitude? at h
    dsimp only at h
    split at h
    · cases h
    rw [← List.takeWhile_append_dropWhile (p := Char.isDigit) (l := text), List.mem_append, not_or]
    refine ⟨hdigits fun c hc => List.mem_takeWhile_imp hc, ?_⟩
    split at h
    · next hrest => rw [hrest]; exact List.not_mem_nil
    · next places hrest =>
      split at h
      · next hplaces =>
        rw [hrest, List.mem_cons, not_or]
        refine ⟨by decide, hdigits ?_⟩
        exact List.all_eq_true.1 (Bool.and_eq_true_iff.1 hplaces).2
      · cases h
    · cases h
  unfold read? at h
  split at h
  · obtain ⟨q, h, -⟩ := Option.map_eq_some_iff.1 h
    rw [List.mem_cons, not_or]
    exact ⟨by decide, hmagnitude h⟩
  · exact hmagnitude h

end Decimal

namespace Numeral

/-! ### Digits -/

theorem isDigit_digitText {n : Nat} {c : Char} (hc : c ∈ (digitText n).toList) :
    c.isDigit = true := by
  rw [digitText, String.toList_ofList] at hc
  exact Nat.isDigit_of_mem_toDigits (by decide) (by decide) hc

theorem digitText_ne_nil (n : Nat) : (digitText n).toList ≠ [] := by
  rw [digitText, String.toList_ofList]
  exact Nat.toDigits_ne_nil

theorem isDigit_padded {width n : Nat} {c : Char} (hc : c ∈ (padded width n).toList) :
    c.isDigit = true := by
  rw [padded, String.toList_ofList, List.mem_append] at hc
  rcases hc with hc | hc
  · rw [List.eq_of_mem_replicate hc]
    rfl
  · exact Nat.isDigit_of_mem_toDigits (by decide) (by decide) hc

section Padded

variable {width n : Nat} (hn : n < 10 ^ width) (hwidth : 0 < width)

include hn hwidth

theorem length_padded : (padded width n).toList.length = width := by
  have hlength := Nat.toDigits_length 10 n width hwidth hn
  rw [padded, String.toList_ofList, List.length_append, List.length_replicate]
  omega

/-- Zeros in front do not change a number. -/
theorem ofDigitChars_padded (start : Nat) :
    Nat.ofDigitChars 10 (padded width n).toList start = 10 ^ width * start + n := by
  have hlength := Nat.toDigits_length 10 n width hwidth hn
  have hpow : 10 ^ (Nat.toDigits 10 n).length * 10 ^ (width - (Nat.toDigits 10 n).length) =
      10 ^ width := by
    rw [← Nat.pow_add]
    congr 1
    omega
  rw [padded, String.toList_ofList, Nat.ofDigitChars_append, Nat.ofDigitChars_replicate_zero,
    Nat.ofDigitChars_eq_ofDigitChars_zero, Nat.ofDigitChars_ten_toDigits, ← Nat.mul_assoc, hpow]

end Padded

/-! ### Magnitudes -/

/-- A whole number of units of a decimal place is written exactly. -/
theorem magnitude?_positionalText (digits places : Nat) :
    Decimal.magnitude? (positionalText false digits (-(places : Int))).toList =
      some (digits / 10 ^ places : ℚ) := by
  cases places with
  | zero =>
    have htext : (positionalText false digits (-((0 : Nat) : Int))).toList =
        (digitText digits).toList := by
      show (digitText (digits * Nat.pow 10 0) ++ "").toList = _
      simp
    rw [htext, Decimal.magnitude?_digits (digitText_ne_nil digits) fun c hc => isDigit_digitText hc,
      digitText, String.toList_ofList, Nat.ofDigitChars_ten_toDigits]
    simp
  | succ n =>
    have hunit : digits % 10 ^ (n + 1) < 10 ^ (n + 1) := Nat.mod_lt _ (by positivity)
    have htext : (positionalText false digits (-((n + 1 : Nat) : Int))).toList =
        (digitText (digits / 10 ^ (n + 1))).toList ++
          '.' :: (padded (n + 1) (digits % 10 ^ (n + 1))).toList := by
      show (digitText (digits / 10 ^ (n + 1)) ++ "." ++
        padded (n + 1) (digits % 10 ^ (n + 1))).toList = _
      simp
    have hlength := length_padded hunit n.succ_pos
    have hpadded : (padded (n + 1) (digits % 10 ^ (n + 1))).toList ≠ [] := by
      intro hnil
      rw [hnil] at hlength
      cases hlength
    rw [htext, Decimal.magnitude?_places (digitText_ne_nil _) (fun c hc => isDigit_digitText hc)
      hpadded fun c hc => isDigit_padded hc, hlength, Nat.ofDigitChars_append,
      ofDigitChars_padded hunit n.succ_pos, digitText, String.toList_ofList,
      Nat.ofDigitChars_ten_toDigits, Nat.div_add_mod]

/-- Dropping zeros at the end of the decimal places keeps the value. -/
theorem trimDigits_value (places digits : Nat) :
    ((trimDigits places digits).2 : ℚ) / 10 ^ (trimDigits places digits).1 =
      digits / 10 ^ places := by
  induction places generalizing digits with
  | zero => rfl
  | succ places ih =>
    unfold trimDigits
    split
    · next hzero =>
      have hten : digits = 10 * (digits / 10) := by omega
      rw [ih, pow_succ]
      conv_rhs => rw [hten]
      push_cast
      field_simp
    · rfl

theorem trimDigits_eq_zero (places digits : Nat) :
    (trimDigits places digits).2 = 0 ↔ digits = 0 := by
  have hvalue := trimDigits_value places digits
  have hleft : (10 : ℚ) ^ (trimDigits places digits).1 ≠ 0 := by positivity
  have hright : (10 : ℚ) ^ places ≠ 0 := by positivity
  constructor
  · intro hzero
    rw [hzero, Nat.cast_zero, zero_div] at hvalue
    have hdigits := (div_eq_zero_iff.1 hvalue.symm).resolve_right hright
    exact_mod_cast hdigits
  · intro hzero
    rw [show (digits : ℚ) = 0 by exact_mod_cast hzero, zero_div] at hvalue
    have hdigits := (div_eq_zero_iff.1 hvalue).resolve_right hleft
    exact_mod_cast hdigits

/-- What is written of a number of units, without its sign. -/
theorem mem_positionalText {digits places : Nat} {c : Char}
    (hc : c ∈ (positionalText false digits (-(places : Int))).toList) :
    c.isDigit = true ∨ c = '.' := by
  cases places with
  | zero =>
    change c ∈ (digitText (digits * Nat.pow 10 0) ++ "").toList at hc
    rw [String.toList_append, List.mem_append] at hc
    rcases hc with hc | hc
    · exact .inl (isDigit_digitText hc)
    · cases hc
  | succ n =>
    change c ∈ (digitText (digits / Nat.pow 10 (n + 1)) ++ "." ++
      padded (n + 1) (digits % Nat.pow 10 (n + 1))).toList at hc
    rw [String.toList_append, String.toList_append, List.mem_append, List.mem_append] at hc
    rcases hc with (hc | hc) | hc
    · exact .inl (isDigit_digitText hc)
    · exact .inr (List.mem_singleton.1 hc)
    · exact .inl (isDigit_padded hc)

/-- The characters of a number of units of a decimal place, after its sign. -/
def trimmedBody (places digits : Nat) : List Char :=
  let (places, digits) := trimDigits places digits
  (positionalText false digits (-(places : Int))).toList

theorem mem_trimmedBody {places digits : Nat} {c : Char} (hc : c ∈ trimmedBody places digits) :
    c.isDigit = true ∨ c = '.' :=
  mem_positionalText hc

theorem magnitude?_trimmedBody (places digits : Nat) :
    Decimal.magnitude? (trimmedBody places digits) = some (digits / 10 ^ places : ℚ) := by
  rw [trimmedBody, magnitude?_positionalText, trimDigits_value]

theorem trimmedBody_ne_nil (places digits : Nat) : trimmedBody places digits ≠ [] := by
  intro hnil
  have hread := magnitude?_trimmedBody places digits
  rw [hnil] at hread
  cases hread

/-- A minus sign is written unless the number is zero. -/
theorem toList_trimmed_text (negative : Bool) (digits places : Nat) :
    ((finite negative digits (-(places : Int))).trimmed.text .plain).toList =
      (if negative && digits != 0 then ['-'] else []) ++ trimmedBody places digits := by
  have hsign : ((trimDigits places digits).2 != 0) = (digits != 0) := by
    rw [Bool.eq_iff_iff, bne_iff_ne, bne_iff_ne, Ne, Ne, trimDigits_eq_zero]
  have htext : (finite negative digits (-(places : Int))).trimmed.text .plain =
      (if negative && (trimDigits places digits).2 != 0 then "-" else "") ++
        positionalText false (trimDigits places digits).2
          (-((trimDigits places digits).1 : Int)) := by
    cases places with
    | zero => rfl
    | succ n => rfl
  rw [htext, hsign, String.toList_append, trimmedBody]
  congr 1
  split <;> rfl

end Numeral

/-! ### Signed numbers -/

theorem Decimal.read?_body {text : List Char} (h : ∀ c ∈ text, c ≠ '-') :
    read? text = magnitude? text := by
  unfold read?
  split
  · exact absurd rfl (h '-' List.mem_cons_self)
  · rfl

/-- A whole number of units of a decimal place reads as that number; zero has no sign. -/
theorem Numeral.read?_trimmed (negative : Bool) (digits places : Nat) :
    Decimal.read? ((finite negative digits (-(places : Int))).trimmed.text .plain).toList =
      some ((if negative then -(digits : ℚ) else digits) / 10 ^ places) := by
  have hbody : ∀ c ∈ trimmedBody places digits, c ≠ '-' := by
    intro c hc
    rcases mem_trimmedBody hc with hdigit | rfl
    · rintro rfl
      cases hdigit
    · decide
  rw [toList_trimmed_text]
  by_cases hsigned : negative = true ∧ digits ≠ 0
  · have hsign : (negative && digits != 0) = true := by simp [hsigned]
    rw [if_pos hsign, if_pos hsigned.1]
    show (Decimal.magnitude? (trimmedBody places digits)).map (-·) = _
    rw [magnitude?_trimmedBody, Option.map_some, neg_div]
  · have hsign : ¬(negative && digits != 0) = true := by simpa using hsigned
    have hvalue : (if negative then -(digits : ℚ) else digits) = digits := by
      split_ifs with hnegative
      · rw [not_not.1 fun hdigits => hsigned ⟨hnegative, hdigits⟩, Nat.cast_zero, neg_zero]
      · rfl
    rw [if_neg hsign, hvalue, List.nil_append, Decimal.read?_body hbody, magnitude?_trimmedBody]

namespace PathData

/-- A minus sign when the number is negative, and its magnitude. -/
theorem toList_unitsText (places : Nat) (n : Int64) :
    (unitsText places n).toList =
      (if n < 0 then ['-'] else []) ++ Numeral.trimmedBody places n.toInt.natAbs := by
  have hzero : (0 : Int64).toInt = 0 := rfl
  rw [unitsText, Numeral.toList_trimmed_text]
  by_cases hneg : n < 0
  · have hint := Int64.lt_iff_toInt_lt.1 hneg
    have habs : n.toInt.natAbs ≠ 0 := by omega
    simp [hneg, habs]
  · simp [hneg]

/-- The text of a number of units reads as that number. -/
theorem read?_unitsText (places : Nat) (n : Int64) :
    Decimal.read? (unitsText places n).toList = some ((n.toInt : ℚ) / 10 ^ places) := by
  have hsign : n < 0 ↔ n.toInt < 0 := Int64.lt_iff_toInt_lt
  have hunits : (if decide (n < 0) then -((n.toInt.natAbs : Nat) : ℚ) else (n.toInt.natAbs : Nat)) =
      (n.toInt : ℚ) := by
    by_cases hneg : n < 0
    · have hcast : ((n.toInt.natAbs : Nat) : Int) = -n.toInt := by
        have hint := hsign.1 hneg
        omega
      rw [if_pos (decide_eq_true hneg), ← Int.cast_natCast, hcast, Int.cast_neg, neg_neg]
    · have hcast : ((n.toInt.natAbs : Nat) : Int) = n.toInt := by
        have hint := mt hsign.2 hneg
        omega
      rw [if_neg (by simpa using hneg), ← Int.cast_natCast, hcast]
  rw [unitsText, Numeral.read?_trimmed, hunits]

end PathData

end PageSvg
