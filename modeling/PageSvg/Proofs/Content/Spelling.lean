import Mathlib.Data.List.TakeWhile
import Mathlib.Tactic.SplitIfs
import PageSvg.Content.Token
import PageSvg.Proofs.Text.Utf8

/-!
# Spellings of tokens

A token can be written in several ways: a string in hexadecimal digits or in parentheses, each of
its bytes raw or escaped, and the gap before a token as any mix of blanks and comments. Whatever
the choice, the token is read back and reading stops where its spelling ends.
-/

namespace PageSvg.Content

variable {α : Type}

/-- Blanks and whole comments, in any order. -/
inductive Gap : List UInt8 → Prop
  | nil : Gap []
  | blank {b : UInt8} {rest : List UInt8} (hb : isBlank b = true) (h : Gap rest) : Gap (b :: rest)
  | comment {text rest : List UInt8} {b : UInt8} (htext : ∀ c ∈ text, isLineEnd c = false)
      (hb : isLineEnd b = true) (h : Gap rest) : Gap (0x25 :: (text ++ b :: rest))

/-- The first four bits of a byte. -/
def highNibble (b : UInt8) : UInt8 := b >>> 4

/-- The last four bits of a byte. -/
def lowNibble (b : UInt8) : UInt8 := b &&& 0xF

/-- Two hexadecimal digits that write a byte. -/
def IsHexPair (b high low : UInt8) : Prop :=
  hexDigit? high = some (highNibble b) ∧ hexDigit? low = some (lowNibble b)

/-- The spellings of the bytes of a name. -/
inductive NameBody : List UInt8 → List UInt8 → Prop
  | nil : NameBody [] []
  | raw {b : UInt8} {bytes body : List UInt8} (hb : isRegular b = true) (hne : b ≠ 0x23)
      (h : NameBody bytes body) : NameBody (b :: bytes) (b :: body)
  | escaped {b high low : UInt8} {bytes body : List UInt8} (hb : IsHexPair b high low)
      (h : NameBody bytes body) : NameBody (b :: bytes) (0x23 :: high :: low :: body)

/-- The hexadecimal spellings of the bytes of a string. -/
inductive HexBody : List UInt8 → List UInt8 → Prop
  | nil : HexBody [] []
  | pair {b high low : UInt8} {bytes body : List UInt8} (hb : IsHexPair b high low)
      (h : HexBody bytes body) : HexBody (b :: bytes) (high :: low :: body)

/-- The byte behind the backslash in the short escape of a byte. -/
def shortEscape? (b : UInt8) : Option UInt8 :=
  if b = 0x0A then some 0x6E
  else if b = 0x0D then some 0x72
  else if b = 0x09 then some 0x74
  else if b = 0x08 then some 0x62
  else if b = 0x0C then some 0x66
  else if b = 0x28 ∨ b = 0x29 ∨ b = 0x5C then some b
  else none

/-- Three bits of a byte, after which so many follow. -/
def threeBits (b after : UInt8) : UInt8 := (b >>> after) &&& 7

/-- The octal digit of a value below eight. -/
def octalDigit (value : UInt8) : UInt8 := 0x30 + value

/-- The three octal digits of a byte. -/
def octalDigits (b : UInt8) : List UInt8 :=
  [octalDigit (threeBits b 6), octalDigit (threeBits b 3), octalDigit (threeBits b 0)]

/-- The spellings of the bytes of a string between parentheses. -/
inductive LiteralBody : List UInt8 → List UInt8 → Prop
  | nil : LiteralBody [] []
  | raw {b : UInt8} {bytes body : List UInt8} (hopen : b ≠ 0x28) (hclose : b ≠ 0x29)
      (hescape : b ≠ 0x5C) (h : LiteralBody bytes body) : LiteralBody (b :: bytes) (b :: body)
  | short {b e : UInt8} {bytes body : List UInt8} (hb : shortEscape? b = some e)
      (h : LiteralBody bytes body) : LiteralBody (b :: bytes) (0x5C :: e :: body)
  | octal {b : UInt8} {bytes body : List UInt8} (h : LiteralBody bytes body) :
      LiteralBody (b :: bytes) (0x5C :: (octalDigits b ++ body))

/-- Are the bytes one number? -/
def IsNumber (bytes : List UInt8) : Prop :=
  (takeNumber bytes).1.digitCount ≠ 0 ∧ (takeNumber bytes).2 = []

instance (bytes : List UInt8) : Decidable (IsNumber bytes) := inferInstanceAs (Decidable (_ ∧ _))

/-- A keyword that is read as one: it is not empty, has neither blanks nor delimiters, and is
neither a number nor a word with another meaning. -/
structure PlainWord (text : String) : Prop where
  nonempty : Utf8.encode text ≠ []
  regular : ∀ b ∈ Utf8.encode text, isRegular b = true
  noNumber : ¬IsNumber (Utf8.encode text)
  reserved : text ∉ ["true", "false", "null", "BI"]

/-- The spellings of a token. -/
inductive Spells : Token α → List UInt8 → Prop
  | null : Spells .null (word "null")
  | true : Spells (.bool true) (word "true")
  | false : Spells (.bool false) (word "false")
  | integer (n : Int64) : Spells (.integer n) (word (toString n.toInt))
  | name {text : String} {body : List UInt8} (h : NameBody (Utf8.encode text) body) :
      Spells (.name text) (0x2F :: body)
  | hexString {bytes body : List UInt8} (h : HexBody bytes body) :
      Spells (.string bytes) (0x3C :: (body ++ [0x3E]))
  | literalString {bytes body : List UInt8} (h : LiteralBody bytes body) :
      Spells (.string bytes) (0x28 :: (body ++ [0x29]))
  | arrayOpen : Spells .arrayOpen [0x5B]
  | arrayClose : Spells .arrayClose [0x5D]
  | dictionaryOpen : Spells .dictionaryOpen [0x3C, 0x3C]
  | dictionaryClose : Spells .dictionaryClose [0x3E, 0x3E]
  | keyword {text : String} (h : PlainWord text) : Spells (.keyword text) (Utf8.encode text)

/-- Bytes before which a word ends. -/
def Breaks (bytes : List UInt8) : Prop := bytes.head?.any isRegular = false

/-- A property of all bytes is that of all pairs of a high and a low half. -/
theorem forall_byte {p : UInt8 → Prop} (h : ∀ high low : Fin 16, p (.ofNat (16 * high + low)))
    (b : UInt8) : p b := by
  have hb := b.toNat_lt
  have hnibbles := h ⟨b.toNat / 16, by omega⟩ ⟨b.toNat % 16, by omega⟩
  rwa [Nat.div_add_mod, UInt8.ofNat_toNat] at hnibbles

/-! ### Gaps -/

theorem skipBlanksFrom_comment {text : List UInt8} {b : UInt8} (rest : List UInt8)
    (htext : ∀ c ∈ text, isLineEnd c = false) (hb : isLineEnd b = true) :
    skipBlanksFrom true (text ++ b :: rest) = skipBlanks rest := by
  induction text with
  | nil => simp [skipBlanksFrom, hb, skipBlanks]
  | cons c text ih =>
    obtain ⟨hc, htext⟩ := List.forall_mem_cons.1 htext
    rw [List.cons_append, skipBlanksFrom, if_neg (by simp [hc]), ih htext]

theorem skipBlanks_gap {gap : List UInt8} (rest : List UInt8) (h : Gap gap) :
    skipBlanks (gap ++ rest) = skipBlanks rest := by
  induction h with
  | nil => rfl
  | @blank b _ hb _ ih =>
    have hne : b ≠ 0x25 := by rintro rfl; exact absurd hb (by decide)
    rw [List.cons_append, skipBlanks, skipBlanksFrom, if_neg hne, if_pos hb]
    exact ih
  | comment htext hb _ ih =>
    rw [List.cons_append, List.append_assoc, skipBlanks, skipBlanksFrom, if_pos rfl,
      List.cons_append, skipBlanksFrom_comment _ htext hb, ih]

theorem Gap.breaks {gap : List UInt8} (rest : List UInt8) (h : Gap gap) (hne : gap ≠ []) :
    Breaks (gap ++ rest) := by
  cases h with
  | nil => exact absurd rfl hne
  | blank hb _ => simp [Breaks, isRegular, hb]
  | comment _ _ _ => rfl

/-- A byte with which a token can begin. -/
def Starts (b : UInt8) : Prop := isBlank b = false ∧ b ≠ 0x25

theorem skipBlanks_start {b : UInt8} (rest : List UInt8) (hb : Starts b) :
    skipBlanks (b :: rest) = b :: rest := by
  rw [skipBlanks, skipBlanksFrom, if_neg hb.2, if_neg (by simp [hb.1])]

theorem next?_gap [Scalar α] {gap : List UInt8} (h : Gap gap) :
    next? (α := α) gap = none := by
  have hskip := skipBlanks_gap [] h
  rw [List.append_nil] at hskip
  rw [next?, hskip]
  rfl

theorem next?_eq_readToken [Scalar α] {gap : List UInt8} {b : UInt8} (rest : List UInt8)
    (h : Gap gap) (hb : Starts b) :
    next? (α := α) (gap ++ b :: rest) = some (readToken b rest) := by
  rw [next?, skipBlanks_gap _ h, skipBlanks_start _ hb]

/-! ### Words -/

section Words

variable {text rest : List UInt8}

theorem takeWhile_regular (h : ∀ b ∈ text, isRegular b = true) (hrest : Breaks rest) :
    (text ++ rest).takeWhile isRegular = text ∧ (text ++ rest).dropWhile isRegular = rest := by
  rw [List.takeWhile_append_of_pos h, List.dropWhile_append_of_pos h]
  cases rest with
  | nil => simp
  | cons b rest =>
    have hb : isRegular b = false := by simpa [Breaks] using hrest
    simp [hb]

theorem readWord_append (h : ∀ b ∈ text, isRegular b = true) (hne : text ≠ [])
    (hrest : Breaks rest) :
    readWord (α := α) (text ++ rest) = ⟨.ok (wordToken text), rest⟩ := by
  obtain ⟨htake, hdrop⟩ := takeWhile_regular h hrest
  unfold readWord
  split
  · next h _ => exact absurd (htake.symm.trans h) hne
  · next h _ => exact absurd (htake.symm.trans h) hne
  · rw [htake, hdrop]

end Words

/-! ### Names -/

theorem hexDigit?_regular {b d : UInt8} (h : hexDigit? b = some d) : isRegular b = true := by
  have hall := forall_byte (p := fun b => (hexDigit? b).isSome = true → isRegular b = true)
    (by decide)
  exact hall b (by rw [h]; rfl)

theorem joinDigits (b : UInt8) : highNibble b <<< 4 ||| lowNibble b = b :=
  forall_byte (p := fun b => highNibble b <<< 4 ||| lowNibble b = b) (by decide) b

theorem IsHexPair.join {b high low : UInt8} (h : IsHexPair b high low) (rest : List UInt8) :
    unescapeName (0x23 :: high :: low :: rest) = b :: unescapeName rest := by
  rw [unescapeName, h.1, h.2]
  simp only [joinDigits]

theorem NameBody.regular {bytes body : List UInt8} (h : NameBody bytes body) :
    ∀ b ∈ body, isRegular b = true := by
  induction h with
  | nil => simp
  | raw hb _ _ ih => exact List.forall_mem_cons.2 ⟨hb, ih⟩
  | escaped hb _ ih =>
    simp only [List.forall_mem_cons]
    exact ⟨rfl, hexDigit?_regular hb.1, hexDigit?_regular hb.2, ih⟩

theorem NameBody.unescape {bytes body : List UInt8} (h : NameBody bytes body) :
    unescapeName body = bytes := by
  induction h with
  | nil => rfl
  | @raw b _ body _ hne _ ih =>
    have hstep : unescapeName (b :: body) = b :: unescapeName body := by
      rw [unescapeName]
      rintro high low rest hb _
      exact hne hb
    rw [hstep, ih]
  | escaped hb _ ih => rw [hb.join, ih]

/-! ### Strings -/

section Strings

variable {bytes body : List UInt8} (rest : List UInt8)

/-- The two halves of every byte. -/
def nibbles (bytes : List UInt8) : List UInt8 := bytes.flatMap fun b => [highNibble b, lowNibble b]

theorem joinNibbles_nibbles (bytes : List UInt8) : joinNibbles (nibbles bytes) = bytes := by
  induction bytes with
  | nil => rfl
  | cons b bytes ih =>
    show (highNibble b <<< 4 ||| lowNibble b) :: joinNibbles (nibbles bytes) = _
    rw [joinDigits, ih]

theorem readHex_digit {b d : UInt8} {values after : List UInt8} {offset : Nat}
    (h : hexDigit? b = some d) (hrest : readHex (offset + 1) rest = .closed values after) :
    readHex offset (b :: rest) = .closed (d :: values) after := by
  have hregular := hexDigit?_regular h
  have hclose : b ≠ 0x3E := by rintro rfl; exact absurd hregular (by decide)
  have hblank : ¬isBlank b = true := by
    intro hb
    simp [isRegular, hb] at hregular
  rw [readHex, if_neg hclose, if_neg hblank, h, hrest]

theorem HexBody.read (h : HexBody bytes body) (offset : Nat) :
    readHex offset (body ++ 0x3E :: rest) = .closed (nibbles bytes) rest := by
  induction h generalizing offset with
  | nil => rw [List.nil_append, readHex, if_pos rfl]; rfl
  | pair hb _ ih => exact readHex_digit _ hb.1 (readHex_digit _ hb.2 (ih _))

/-- A bracket that no second one follows opens a hexadecimal string. -/
theorem readToken_hex [Scalar α] {rest : List UInt8} (h : rest.head? ≠ some 0x3C) :
    readToken (α := α) 0x3C rest = readHexString rest := by
  unfold readToken
  rw [if_neg (by decide), if_neg (by decide), if_pos rfl]
  split
  · exact absurd rfl h
  · rfl

/-- A hexadecimal string does not look like the start of a dictionary. -/
theorem HexBody.readToken [Scalar α] (h : HexBody bytes body) :
    readToken 0x3C (body ++ 0x3E :: rest) = (⟨.ok (.string bytes), rest⟩ : Reading α) := by
  have hread : readHexString (body ++ 0x3E :: rest) =
      (⟨.ok (.string bytes), rest⟩ : Reading α) := by
    rw [readHexString, h.read]
    exact congrArg (fun text => (⟨.ok (.string text), rest⟩ : Reading α))
      (joinNibbles_nibbles bytes)
  -- Behind the opening bracket stands a digit or the closing one, never a second opening one.
  have hhead : (body ++ 0x3E :: rest).head? ≠ some 0x3C := by
    cases h with
    | nil => simp
    | pair hb _ =>
      intro e
      obtain rfl := Option.some.inj e
      have hnone : hexDigit? 0x3C = none := rfl
      cases hnone.symm.trans hb.1
  rw [readToken_hex hhead, hread]

theorem octalDigit?_octalDigit (b : UInt8) :
    octalDigit? (octalDigit (threeBits b 6)) = some (threeBits b 6) ∧
    octalDigit? (octalDigit (threeBits b 3)) = some (threeBits b 3) ∧
    octalDigit? (octalDigit (threeBits b 0)) = some (threeBits b 0) :=
  forall_byte (p := fun b => octalDigit? (octalDigit (threeBits b 6)) = some (threeBits b 6) ∧
    octalDigit? (octalDigit (threeBits b 3)) = some (threeBits b 3) ∧
    octalDigit? (octalDigit (threeBits b 0)) = some (threeBits b 0)) (by decide) b

theorem joinThreeBits (b : UInt8) :
    (threeBits b 6 * 8 + threeBits b 3) * 8 + threeBits b 0 = b :=
  forall_byte (p := fun b => (threeBits b 6 * 8 + threeBits b 3) * 8 + threeBits b 0 = b)
    (by decide) b

theorem readEscape_digit {b d : UInt8} (h : octalDigit? b = some d) :
    readEscape (b :: rest) =
      (some (readEscape.octal 2 d rest).1, (readEscape.octal 2 d rest).2) := by
  -- An octal digit ends no line and is none of the letters of the short escapes.
  have hall := forall_byte (p := fun b => (octalDigit? b).isSome = true → isLineEnd b = false ∧
    b ≠ 0x6E ∧ b ≠ 0x72 ∧ b ≠ 0x74 ∧ b ≠ 0x62 ∧ b ≠ 0x66) (by decide)
  obtain ⟨hline, hn, hr, ht, hb, hf⟩ := hall b (by rw [h]; rfl)
  have hreturn : b ≠ 0x0D := by rintro rfl; exact absurd hline (by decide)
  rw [readEscape, if_neg (by simp [hline]), if_neg hn, if_neg hr, if_neg ht, if_neg hb, if_neg hf,
    h]
  exact fun _ e _ => hreturn e

theorem readEscape_octalDigits (b : UInt8) :
    readEscape (octalDigits b ++ rest) = (some b, rest) := by
  obtain ⟨hfirst, hsecond, hthird⟩ := octalDigit?_octalDigit b
  simp only [octalDigits, List.cons_append, List.nil_append]
  rw [readEscape_digit _ hfirst, readEscape.octal, hsecond]
  simp only [readEscape.octal, hthird, joinThreeBits]

theorem readEscape_short {b e : UInt8} (h : shortEscape? b = some e) :
    readEscape (e :: rest) = (some b, rest) := by
  unfold shortEscape? at h
  split_ifs at h with h₁ h₂ h₃ h₄ h₅ h₆
  · obtain rfl := Option.some.inj h
    rw [h₁]; rfl
  · obtain rfl := Option.some.inj h
    rw [h₂]; rfl
  · obtain rfl := Option.some.inj h
    rw [h₃]; rfl
  · obtain rfl := Option.some.inj h
    rw [h₄]; rfl
  · obtain rfl := Option.some.inj h
    rw [h₅]; rfl
  · obtain rfl := Option.some.inj h
    rcases h₆ with rfl | rfl | rfl <;> rfl

theorem readLiteral_escape {depth : Nat} {text after : List UInt8} {b : UInt8}
    (h : readEscape text = (some b, after)) :
    readLiteral depth (0x5C :: text) =
      (readLiteral depth after).map fun (s, r) => (b :: s, r) := by
  rw [readLiteral, if_neg (by decide), if_neg (by decide), if_pos rfl, h]
  rfl

theorem LiteralBody.read (h : LiteralBody bytes body) :
    readLiteral 1 (body ++ 0x29 :: rest) = some (bytes, rest) := by
  induction h with
  | nil => rw [List.nil_append, readLiteral, if_pos rfl, if_pos (Nat.le_refl 1)]
  | raw hopen hclose hescape _ ih =>
    rw [List.cons_append, readLiteral, if_neg hclose, if_neg hopen, if_neg hescape, ih]
    rfl
  | short hb _ ih =>
    rw [List.cons_append, List.cons_append, readLiteral_escape (readEscape_short _ hb), ih]
    rfl
  | octal _ ih =>
    rw [List.cons_append, List.append_assoc, readLiteral_escape (readEscape_octalDigits _ _), ih]
    rfl

end Strings

/-! ### Numbers -/

section Numbers

variable {text rest : List UInt8}

theorem isDigit_regular {b : UInt8} (h : isDigit b = true) : isRegular b = true :=
  forall_byte (p := fun b => isDigit b = true → isRegular b = true) (by decide) b h

theorem Breaks.not_digit {b : UInt8} (h : Breaks (b :: rest)) : ¬isDigit b = true := by
  intro hb
  have hregular : isRegular b = false := by simpa [Breaks] using h
  rw [isDigit_regular hb] at hregular
  cases hregular

theorem takeWhile_digit (text : List UInt8) (hrest : Breaks rest) :
    (text ++ rest).takeWhile isDigit = text.takeWhile isDigit ∧
      (text ++ rest).dropWhile isDigit = text.dropWhile isDigit ++ rest := by
  induction text with
  | nil =>
    cases rest with
    | nil => exact ⟨rfl, rfl⟩
    | cons b rest => simp [hrest.not_digit]
  | cons b text ih =>
    by_cases hb : isDigit b = true
    · simpa [hb] using ih
    · simp [hb]

theorem takeDigits_append (hrest : Breaks rest) :
    takeDigits (text ++ rest) =
      ((takeDigits text).1, (takeDigits text).2.1, (takeDigits text).2.2 ++ rest) := by
  obtain ⟨htake, hdrop⟩ := takeWhile_digit text hrest
  unfold takeDigits
  rw [htake, hdrop]
  -- A point behind the digits belongs to the text, as the rest breaks and begins with none.
  rcases htext : text.dropWhile isDigit with _ | ⟨b, more⟩
  · rcases rest with _ | ⟨b, rest⟩
    · rfl
    · have hpoint : b ≠ 0x2E := by rintro rfl; exact absurd hrest (by simp [Breaks]; decide)
      rw [List.nil_append]
      split
      · next h => exact absurd (List.cons.inj h).1 hpoint
      · rfl
  · by_cases hpoint : b = 0x2E
    · subst hpoint
      obtain ⟨hplaces, hafter⟩ := takeWhile_digit more hrest
      simp only [List.cons_append, hplaces, hafter]
    · rw [List.cons_append]
      split
      · next h => exact absurd (List.cons.inj h).1 hpoint
      · split
        · next h => exact absurd (List.cons.inj h).1 hpoint
        · rfl

theorem takeSign_of_ne {b : UInt8} (hminus : b ≠ 0x2D) (hplus : b ≠ 0x2B) :
    takeSign (b :: text) = (false, b :: text) := by
  unfold takeSign
  split
  · next h => exact absurd (List.cons.inj h).1 hminus
  · next h => exact absurd (List.cons.inj h).1 hplus
  · rfl

theorem takeSign_append (hne : text ≠ []) :
    takeSign (text ++ rest) = ((takeSign text).1, (takeSign text).2 ++ rest) := by
  obtain ⟨b, text, rfl⟩ := List.exists_cons_of_ne_nil hne
  by_cases hminus : b = 0x2D
  · subst hminus; rfl
  by_cases hplus : b = 0x2B
  · subst hplus; rfl
  rw [List.cons_append, takeSign_of_ne hminus hplus, takeSign_of_ne hminus hplus, List.cons_append]

/-- The front of the bytes up to a break decides which number they begin with. -/
theorem takeNumber_append (hne : text ≠ []) (hrest : Breaks rest) :
    takeNumber (text ++ rest) = ((takeNumber text).1, (takeNumber text).2 ++ rest) := by
  simp only [takeNumber, takeSign_append hne, takeDigits_append hrest]

theorem takeDigits_suffix (text : List UInt8) : (takeDigits text).2.2 <:+ text := by
  have hdrop := List.dropWhile_suffix isDigit (l := text)
  fun_cases takeDigits text
  case case1 more e =>
    rw [e] at hdrop
    exact (List.dropWhile_suffix _).trans ((List.suffix_cons _ _).trans hdrop)
  case case2 => exact hdrop

theorem takeNumber_suffix (text : List UInt8) : (takeNumber text).2 <:+ text := by
  have hsign : (takeSign text).2 <:+ text := by
    fun_cases takeSign text <;> simp
  exact (takeDigits_suffix _).trans hsign

/-- Bytes that are no number are a word, even where they begin like a number. -/
theorem readNumber_word [Scalar α] (h : ∀ b ∈ text, isRegular b = true) (hne : text ≠ [])
    (hnumber : ¬IsNumber text) (hrest : Breaks rest) :
    readNumber (α := α) (text ++ rest) = ⟨.ok (wordToken text), rest⟩ := by
  unfold readNumber
  rw [takeNumber_append hne hrest]
  by_cases hcount : (takeNumber text).1.digitCount = 0
  · simp only [if_pos hcount, readWord_append h hne hrest]
  · have hmore : (takeNumber text).2 ≠ [] := fun e => hnumber ⟨hcount, e⟩
    obtain ⟨b, more, e⟩ := List.exists_cons_of_ne_nil hmore
    have hb : isRegular b = true :=
      h b ((takeNumber_suffix text).subset (by rw [e]; exact List.mem_cons_self))
    simp only [if_neg hcount, e, List.cons_append, List.head?_cons, Option.any_some, hb, if_true,
      readWord_append h hne hrest]

theorem readNumber_number [Scalar α] (hne : text ≠ []) (hnumber : IsNumber text)
    (hrest : Breaks rest) :
    readNumber (α := α) (text ++ rest) = ⟨.ok (takeNumber text).1.token, rest⟩ := by
  unfold readNumber
  rw [takeNumber_append hne hrest]
  simp only [if_neg hnumber.1, hnumber.2, List.nil_append]
  rw [if_neg (by simp [show _ = _ from hrest])]

theorem word_append (s t : String) : word (s ++ t) = word s ++ word t := by
  simp [word]

/-- The byte of a digit, and what it stands for. -/
theorem digit_byte {c : Char} (h : c.isDigit = true) :
    isDigit (UInt8.ofNat c.toNat) = true ∧ (UInt8.ofNat c.toNat - 0x30).toNat = c.toNat - 48 := by
  have hrange : 48 ≤ c.toNat ∧ c.toNat ≤ 57 := Char.isDigit_iff_toNat.1 h
  have hbyte : (UInt8.ofNat c.toNat).toNat = c.toNat := Utf8.toNat_ofNat (by omega)
  constructor
  · simp only [isDigit, Bool.and_eq_true, decide_eq_true_eq, UInt8.le_iff_toNat_le, hbyte]
    exact hrange
  · rw [UInt8.toNat_sub_of_le _ _ (by rw [UInt8.le_iff_toNat_le, hbyte]; exact hrange.1), hbyte]
    rfl

theorem mem_word_natural {n : Nat} {b : UInt8} (h : b ∈ word (toString n)) : isDigit b = true := by
  obtain ⟨c, hc, rfl⟩ := List.mem_map.1 h
  rw [Nat.toString_eq_repr, Nat.toList_repr] at hc
  exact (digit_byte (Nat.isDigit_of_mem_toDigits (by decide) (by decide) hc)).1

theorem word_natural_ne_nil (n : Nat) : word (toString n) ≠ [] := by
  rw [word, Nat.toString_eq_repr, Nat.toList_repr]
  exact fun h => Nat.toDigits_ne_nil (List.map_eq_nil_iff.1 h)

theorem foldl_digits {digits : List Char} (h : ∀ c ∈ digits, c.isDigit = true) (start : Nat) :
    (digits.map fun c => UInt8.ofNat c.toNat).foldl (fun n b => 10 * n + (b - 0x30).toNat) start =
      Nat.ofDigitChars 10 digits start := by
  induction digits generalizing start with
  | nil => rw [Nat.ofDigitChars_nil]; rfl
  | cons c digits ih =>
    obtain ⟨hc, hdigits⟩ := List.forall_mem_cons.1 h
    rw [List.map_cons, List.foldl_cons, (digit_byte hc).2, ih hdigits, Nat.ofDigitChars_cons]
    rfl

theorem decimal_word (n : Nat) : decimal (word (toString n)) = n := by
  rw [decimal, word, Nat.toString_eq_repr, Nat.toList_repr,
    foldl_digits fun c hc => Nat.isDigit_of_mem_toDigits (by decide) (by decide) hc,
    Nat.ofDigitChars_ten_toDigits]

theorem takeDigits_digits (h : ∀ b ∈ text, isDigit b = true) :
    takeDigits text = (text, none, []) := by
  rw [takeDigits, List.dropWhile_eq_nil_iff.2 h, List.takeWhile_eq_self_iff.2 h]

/-- The parts of a number in decimal digits. -/
theorem takeNumber_word (n : Int) :
    takeNumber (word (toString n)) = (⟨decide (n < 0), word (toString n.natAbs), none⟩, []) := by
  have hdigits (m : Nat) := takeDigits_digits fun b hb => mem_word_natural (n := m) hb
  cases n with
  | ofNat m =>
    have hsign : takeSign (word (toString m)) = (false, word (toString m)) := by
      obtain ⟨b, text, e⟩ := List.exists_cons_of_ne_nil (word_natural_ne_nil m)
      have hb : isDigit b = true := mem_word_natural (n := m) (by rw [e]; exact List.mem_cons_self)
      rw [e]
      refine takeSign_of_ne ?_ ?_
      · rintro rfl; exact absurd hb (by decide)
      · rintro rfl; exact absurd hb (by decide)
    have hneg : ¬Int.ofNat m < 0 := by simp
    show takeNumber (word (toString m)) = _
    simp only [takeNumber, hsign, hdigits, hneg, decide_false]
    rfl
  | negSucc m =>
    have hword : word (toString (Int.negSucc m)) = 0x2D :: word (toString (m + 1)) :=
      word_append "-" (toString (m + 1))
    have hneg : Int.negSucc m < 0 := Int.negSucc_lt_zero m
    simp only [hword, takeNumber, takeSign, hdigits, hneg, decide_true]
    rfl

theorem isNumber_word (n : Int) : IsNumber (word (toString n)) := by
  rw [IsNumber, takeNumber_word]
  refine ⟨?_, rfl⟩
  have hne := List.length_pos_iff.2 (word_natural_ne_nil n.natAbs)
  simp only [NumberText.digitCount]
  omega

theorem token_word [Scalar α] (n : Int64) :
    (takeNumber (word (toString n.toInt))).1.token = (.integer n : Token α) := by
  have hvalue : (if decide (n.toInt < 0) = true then -(n.toInt.natAbs : Int)
      else (n.toInt.natAbs : Int)) = n.toInt := by
    by_cases hneg : n.toInt < 0
    · rw [if_pos (by simpa using hneg)]; omega
    · rw [if_neg (by simpa using hneg)]; omega
  rw [takeNumber_word]
  simp only [NumberText.token, decimal_word, hvalue]
  rw [if_pos ⟨n.minValue_le_toInt, n.toInt_le⟩, Int64.ofInt_toInt]

end Numbers

/-! ### Tokens -/

theorem wordToken_keyword {text : String} (h : PlainWord text) :
    wordToken (Utf8.encode text) = (.keyword text : Token α) := by
  have hne {s : String} (hs : Utf8.encode s = word s) (hmem : s ∈ ["true", "false", "null", "BI"]) :
      Utf8.encode text ≠ word s := by
    intro e
    exact h.reserved (Utf8.encode_injective (e.trans hs.symm) ▸ hmem)
  rw [wordToken, if_neg (hne (by decide +kernel) (by decide)),
    if_neg (hne (by decide +kernel) (by decide)), if_neg (hne (by decide +kernel) (by decide)),
    Utf8.decode_encode]

section Tokens

variable [Scalar α] {gap text rest : List UInt8}

/-- A byte with which a number may begin. -/
def OpensNumber (b : UInt8) : Prop := b = 0x2B ∨ b = 0x2D ∨ b = 0x2E ∨ isDigit b = true

instance (b : UInt8) : Decidable (OpensNumber b) := inferInstanceAs (Decidable (_ ∨ _))

theorem IsNumber.opens {b : UInt8} {more : List UInt8} (h : IsNumber (b :: more)) :
    OpensNumber b := by
  by_contra hb
  simp only [OpensNumber, not_or] at hb
  obtain ⟨hplus, hminus, hpoint, hdigit⟩ := hb
  refine h.1 ?_
  have hdigits : takeDigits (b :: more) = ([], none, b :: more) := by
    unfold takeDigits
    rw [List.dropWhile_cons_of_neg hdigit, List.takeWhile_cons_of_neg hdigit]
    split
    · next e => exact absurd (List.cons.inj e).1 hpoint
    · rfl
  simp only [takeNumber, takeSign_of_ne hminus hplus, hdigits]
  rfl

/-- Regular bytes begin a number or a word. -/
theorem readToken_regular {b : UInt8} (more : List UInt8) (hb : isRegular b = true) :
    readToken (α := α) b more =
      if OpensNumber b then readNumber (b :: more) else readWord (b :: more) := by
  have hne {d : UInt8} (hd : isRegular d = false) : b ≠ d := by
    rintro rfl
    rw [hb] at hd
    cases hd
  unfold readToken
  rw [if_neg (hne rfl), if_neg (hne rfl), if_neg (hne rfl), if_neg (fun h => hne rfl h.1),
    if_neg (hne rfl), if_neg (hne rfl)]
  rfl

theorem starts_of_regular {b : UInt8} (hb : isRegular b = true) : Starts b := by
  refine ⟨by simp_all [isRegular], ?_⟩
  rintro rfl
  cases hb

theorem next?_regular {b : UInt8} (more : List UInt8) (hgap : Gap gap) (hb : isRegular b = true) :
    next? (α := α) (gap ++ b :: more) =
      some (if OpensNumber b then readNumber (b :: more) else readWord (b :: more)) := by
  rw [next?_eq_readToken _ hgap (starts_of_regular hb), readToken_regular _ hb]

theorem next?_word (h : ∀ b ∈ text, isRegular b = true) (hne : text ≠ []) (hnumber : ¬IsNumber text)
    (hgap : Gap gap) (hrest : Breaks rest) :
    next? (α := α) (gap ++ (text ++ rest)) = some ⟨.ok (wordToken text), rest⟩ := by
  have hnum := readNumber_word (α := α) h hne hnumber hrest
  have hword := readWord_append (α := α) h hne hrest
  obtain ⟨b, text, rfl⟩ := List.exists_cons_of_ne_nil hne
  rw [List.cons_append] at hnum hword ⊢
  rw [next?_regular _ hgap (h b List.mem_cons_self), hnum, hword, ite_self]

theorem next?_integer (n : Int64) (hgap : Gap gap) (hrest : Breaks rest) :
    next? (α := α) (gap ++ (word (toString n.toInt) ++ rest)) = some ⟨.ok (.integer n), rest⟩ := by
  have hnumber := isNumber_word n.toInt
  have hne : word (toString n.toInt) ≠ [] := by
    intro e
    rw [e] at hnumber
    exact hnumber.1 rfl
  have hread := readNumber_number (α := α) hne hnumber hrest
  rw [token_word] at hread
  obtain ⟨b, more, e⟩ := List.exists_cons_of_ne_nil hne
  rw [e] at hnumber hread ⊢
  have hb : isRegular b = true := by
    rcases hnumber.opens with rfl | rfl | rfl | hdigit
    · rfl
    · rfl
    · rfl
    · exact isDigit_regular hdigit
  rw [List.cons_append] at hread ⊢
  rw [next?_regular _ hgap hb, if_pos hnumber.opens, hread]

/-- **A token is read back from each of its spellings, after any gap and up to a break.** -/
theorem next?_spelling {t : Token α} {s : List UInt8} (hgap : Gap gap) (hs : Spells t s)
    (hrest : Breaks rest) : next? (gap ++ (s ++ rest)) = some ⟨.ok t, rest⟩ := by
  cases hs with
  | null => exact next?_word (by decide +kernel) (by decide) (by decide) hgap hrest
  | true => exact next?_word (by decide +kernel) (by decide) (by decide) hgap hrest
  | false => exact next?_word (by decide +kernel) (by decide) (by decide) hgap hrest
  | integer n => exact next?_integer n hgap hrest
  | name h =>
    obtain ⟨htake, hdrop⟩ := takeWhile_regular h.regular hrest
    rw [List.cons_append, next?_eq_readToken _ hgap ⟨rfl, by decide⟩]
    show some (readName _) = _
    rw [readName, htake, hdrop, h.unescape, Utf8.decode_encode]
  | hexString h =>
    rw [List.cons_append, List.append_assoc, next?_eq_readToken _ hgap ⟨rfl, by decide⟩,
      List.singleton_append, h.readToken]
  | literalString h =>
    rw [List.cons_append, List.append_assoc, next?_eq_readToken _ hgap ⟨rfl, by decide⟩]
    show some (readLiteralString _) = _
    rw [readLiteralString, List.singleton_append, h.read]
  | arrayOpen => exact next?_eq_readToken _ hgap ⟨rfl, by decide⟩
  | arrayClose => exact next?_eq_readToken _ hgap ⟨rfl, by decide⟩
  | dictionaryOpen => exact next?_eq_readToken _ hgap ⟨rfl, by decide⟩
  | dictionaryClose => exact next?_eq_readToken _ hgap ⟨rfl, by decide⟩
  | keyword h =>
    rw [next?_word h.regular h.nonempty h.noNumber hgap hrest, wordToken_keyword h]

end Tokens

end PageSvg.Content
