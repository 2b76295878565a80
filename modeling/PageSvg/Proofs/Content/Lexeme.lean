import PageSvg.Proofs.Content.Spelling

/-!
# Lexemes

The bytes that are read as one token, or passed over as one that cannot be read, are its lexeme.
Reading takes a gap and exactly one lexeme off the front of the bytes (`next?_eq_some_iff`), and
finds none exactly if only blanks and comments are left (`next?_eq_none_iff`).
-/

namespace PageSvg.Content

variable {α : Type}

/-! ### Gaps -/

/-- Blanks and comments, in any order; the last comment may still be open. -/
inductive Trailing : List UInt8 → Prop
  | nil : Trailing []
  | blank {b : UInt8} {rest : List UInt8} (hb : isBlank b = true) (h : Trailing rest) :
      Trailing (b :: rest)
  | comment {text rest : List UInt8} {b : UInt8} (htext : ∀ c ∈ text, isLineEnd c = false)
      (hb : isLineEnd b = true) (h : Trailing rest) : Trailing (0x25 :: (text ++ b :: rest))
  | openComment {text : List UInt8} (htext : ∀ c ∈ text, isLineEnd c = false) :
      Trailing (0x25 :: text)

theorem skipBlanks_blank {b : UInt8} (rest : List UInt8) (hb : isBlank b = true) :
    skipBlanks (b :: rest) = skipBlanks rest :=
  skipBlanks_gap rest (.blank hb .nil)

theorem skipBlanks_comment {text : List UInt8} {b : UInt8} (rest : List UInt8)
    (htext : ∀ c ∈ text, isLineEnd c = false) (hb : isLineEnd b = true) :
    skipBlanks (0x25 :: (text ++ b :: rest)) = skipBlanks rest := by
  have hgap := skipBlanks_gap rest (.comment htext hb .nil)
  rwa [List.cons_append, List.append_assoc] at hgap

theorem skipBlanks_openComment {text : List UInt8} (htext : ∀ c ∈ text, isLineEnd c = false) :
    skipBlanks (0x25 :: text) = [] := by
  rw [skipBlanks, skipBlanksFrom, if_pos rfl]
  induction text with
  | nil => rfl
  | cons c text ih =>
    obtain ⟨hc, htext⟩ := List.forall_mem_cons.1 htext
    rw [skipBlanksFrom, if_neg (by simp [hc]), ih htext]

theorem Trailing.skipBlanks {bytes : List UInt8} (h : Trailing bytes) :
    Content.skipBlanks bytes = [] := by
  induction h with
  | nil => rfl
  | blank hb _ ih => rw [skipBlanks_blank _ hb, ih]
  | comment htext hb _ ih => rw [skipBlanks_comment _ htext hb, ih]
  | openComment htext => exact skipBlanks_openComment htext

/-- Either only blanks and comments are left, or a token begins behind a gap. -/
theorem trailing_or_starts (bytes : List UInt8) :
    Trailing bytes ∨ ∃ gap b rest, bytes = gap ++ b :: rest ∧ Gap gap ∧ Starts b := by
  induction hlen : bytes.length using Nat.strong_induction_on generalizing bytes with
  | _ n ih =>
    rcases bytes with _ | ⟨c, bytes⟩
    · exact .inl .nil
    by_cases hcomment : c = 0x25
    · subst hcomment
      have htext : ∀ d ∈ bytes.takeWhile (!isLineEnd ·), isLineEnd d = false := fun d hd => by
        simpa using List.mem_takeWhile_imp hd
      have hsplit := List.takeWhile_append_dropWhile (p := (!isLineEnd ·)) (l := bytes)
      rcases hdrop : bytes.dropWhile (!isLineEnd ·) with _ | ⟨e, rest⟩
      · rw [hdrop, List.append_nil] at hsplit
        exact .inl (.openComment (hsplit ▸ htext))
      · have he : isLineEnd e = true := by
          have hhead := List.head?_dropWhile_not (!isLineEnd ·) bytes
          rw [hdrop] at hhead
          simpa using hhead
        rw [hdrop] at hsplit
        rw [← hsplit]
        have hshorter : rest.length < n := by
          have := congrArg List.length hsplit
          simp only [List.length_append, List.length_cons] at this hlen
          omega
        rcases ih _ hshorter rest rfl with h | ⟨gap, b, rest, rfl, hgap, hb⟩
        · exact .inl (.comment htext he h)
        · refine .inr ⟨_, b, rest, ?_, .comment htext he hgap, hb⟩
          simp
    · by_cases hblank : isBlank c = true
      · rcases ih _ (by simp [← hlen]) bytes rfl with h | ⟨gap, b, rest, rfl, hgap, hb⟩
        · exact .inl (.blank hblank h)
        · exact .inr ⟨c :: gap, b, rest, rfl, .blank hblank hgap, hb⟩
      · exact .inr ⟨[], c, bytes, rfl, .nil, by simpa using hblank, hcomment⟩

theorem next?_eq_none_iff [Scalar α] {bytes : List UInt8} :
    next? (α := α) bytes = none ↔ Trailing bytes := by
  constructor
  · intro h
    refine (trailing_or_starts bytes).resolve_right ?_
    rintro ⟨gap, b, rest, rfl, hgap, hb⟩
    rw [next?_eq_readToken rest hgap hb] at h
    cases h
  · intro h
    rw [next?, h.skipBlanks]

/-! ### Readers of strings -/

section Strings

variable {bytes rest : List UInt8}

/-- How many digits an octal escape has depends on one byte behind it. -/
theorem octal_cut {more : Nat} {value v b : UInt8}
    (h : readEscape.octal more value bytes = (v, b :: rest)) :
    ∃ digits, bytes = digits ++ b :: rest ∧
      ∀ other, readEscape.octal more value (digits ++ b :: other) = (v, b :: other) := by
  induction more generalizing value bytes with
  | zero =>
    cases h
    exact ⟨[], rfl, fun _ => rfl⟩
  | succ more ih =>
    rcases bytes with _ | ⟨c, bytes⟩
    · cases h
    · cases hc : octalDigit? c with
      | some d =>
        simp only [readEscape.octal, hc] at h
        obtain ⟨digits, rfl, hcut⟩ := ih h
        refine ⟨c :: digits, rfl, fun other => ?_⟩
        simp only [List.cons_append, readEscape.octal, hc, hcut]
      | none =>
        simp only [readEscape.octal, hc] at h
        cases h
        refine ⟨[], rfl, fun other => ?_⟩
        simp only [List.nil_append, readEscape.octal, hc]

/-- An escape depends on one byte behind it. -/
theorem readEscape_cut {v : Option UInt8} {b : UInt8} (h : readEscape bytes = (v, b :: rest)) :
    ∃ escape, bytes = escape ++ b :: rest ∧
      ∀ other, readEscape (escape ++ b :: other) = (v, b :: other) := by
  rcases bytes with _ | ⟨c, bytes⟩
  · cases h
  cases hc : octalDigit? c with
  | some d =>
    rw [readEscape_digit _ hc] at h
    obtain ⟨hv, hrest⟩ := Prod.mk.inj h
    obtain ⟨digits, rfl, hcut⟩ := octal_cut (Prod.ext_iff.2 ⟨rfl, hrest⟩)
    refine ⟨c :: digits, rfl, fun other => ?_⟩
    rw [List.cons_append, readEscape_digit _ hc, hcut, ← hv]
  | none =>
    by_cases hline : c = 0x0D ∧ bytes.head? = some 0x0A
    · obtain ⟨rfl, hhead⟩ := hline
      obtain ⟨bytes, rfl⟩ := List.head?_eq_some_iff.1 hhead
      cases h
      exact ⟨[0x0D, 0x0A], rfl, fun _ => rfl⟩
    · -- Any other escape is a single byte.
      have hone {rest : List UInt8} (hrest : rest.head? = bytes.head?) :
          readEscape (c :: rest) = (if isLineEnd c then none
            else if c = 0x6E then some 0x0A
            else if c = 0x72 then some 0x0D
            else if c = 0x74 then some 0x09
            else if c = 0x62 then some 0x08
            else if c = 0x66 then some 0x0C
            else some c, rest) := by
        rw [readEscape]
        · simp only [hc]
          split_ifs <;> rfl
        · rintro more rfl rfl
          exact hline ⟨rfl, hrest.symm⟩
      rw [hone rfl] at h
      obtain ⟨rfl, rfl⟩ := Prod.mk.inj h
      exact ⟨[c], rfl, fun other => hone rfl⟩

/-- The byte in front of the rest of a literal string belongs to it. -/
theorem readLiteral_cut_cons {depth inner : Nat} {b : UInt8} {value : List UInt8}
    (hstep : ∀ more, readLiteral depth (b :: more) =
      (readLiteral inner more).map fun (s, r) => (b :: s, r))
    (h : readLiteral depth (b :: bytes) = some (value, rest))
    (hinner : ∀ {value}, readLiteral inner bytes = some (value, rest) →
      ∃ text, bytes = text ++ rest ∧
        ∀ other, readLiteral inner (text ++ other) = some (value, other)) :
    ∃ text, b :: bytes = text ++ rest ∧
      ∀ other, readLiteral depth (text ++ other) = some (value, other) := by
  rw [hstep] at h
  obtain ⟨⟨s, r⟩, hs, hr⟩ := Option.map_eq_some_iff.1 h
  cases hr
  obtain ⟨text, rfl, hcut⟩ := hinner hs
  refine ⟨b :: text, rfl, fun other => ?_⟩
  rw [List.cons_append, hstep, hcut]
  rfl

/-- A literal string does not depend on what follows it. -/
theorem readLiteral_cut {depth : Nat} {value : List UInt8}
    (h : readLiteral depth bytes = some (value, rest)) :
    ∃ text, bytes = text ++ rest ∧
      ∀ other, readLiteral depth (text ++ other) = some (value, other) := by
  fun_induction readLiteral depth bytes generalizing value with
  | case1 => cases h
  | case2 depth bytes hdepth =>
    cases h
    refine ⟨[0x29], rfl, fun other => ?_⟩
    rw [List.singleton_append, readLiteral, if_pos rfl, if_pos hdepth]
  | case3 depth bytes hdepth ih =>
    have hstep (more : List UInt8) : readLiteral depth (0x29 :: more) =
        (readLiteral (depth - 1) more).map fun (s, r) => (0x29 :: s, r) := by
      rw [readLiteral, if_pos rfl, if_neg hdepth]
    exact readLiteral_cut_cons hstep ((hstep bytes).trans h) ih
  | case4 depth bytes hclose ih =>
    have hstep (more : List UInt8) : readLiteral depth (0x28 :: more) =
        (readLiteral (depth + 1) more).map fun (s, r) => (0x28 :: s, r) := by
      rw [readLiteral, if_neg hclose, if_pos rfl]
    exact readLiteral_cut_cons hstep ((hstep bytes).trans h) ih
  | case5 depth bytes hclose hopen ih =>
    obtain ⟨⟨s, r⟩, hs, hr⟩ := Option.map_eq_some_iff.1 h
    cases hr
    obtain ⟨text, htext, hcut⟩ := ih hs
    -- The closing parenthesis is still to come behind the escape.
    obtain ⟨b, text, rfl⟩ : ∃ b more, text = b :: more := by
      refine List.exists_cons_of_ne_nil ?_
      rintro rfl
      have hnil := hcut []
      rw [List.nil_append, readLiteral] at hnil
      cases hnil
    obtain ⟨escape, rfl, hescape⟩ := readEscape_cut (Prod.ext_iff.2 ⟨rfl, htext⟩)
    refine ⟨0x5C :: (escape ++ b :: text), by simp, fun other => ?_⟩
    rw [List.cons_append, List.append_assoc, List.cons_append, readLiteral, if_neg hclose,
      if_neg hopen, if_pos rfl, hescape, ← List.cons_append, hcut]
    rfl
  | case6 depth b bytes hclose hopen hescape ih =>
    have hstep (more : List UInt8) : readLiteral depth (b :: more) =
        (readLiteral depth more).map fun (s, r) => (b :: s, r) := by
      rw [readLiteral, if_neg hclose, if_neg hopen, if_neg hescape]
    exact readLiteral_cut_cons hstep ((hstep bytes).trans h) ih

/-- A hexadecimal string does not depend on what follows it. -/
theorem readHex_cut {offset : Nat} {values : List UInt8}
    (h : readHex offset bytes = .closed values rest) :
    ∃ text, bytes = text ++ rest ∧
      ∀ other, readHex offset (text ++ other) = .closed values other := by
  fun_induction readHex offset bytes generalizing values with
  | case1 => cases h
  | case2 offset bytes =>
    cases h
    refine ⟨[0x3E], rfl, fun other => ?_⟩
    rw [List.singleton_append, readHex, if_pos rfl]
  | case3 offset b bytes hclose hblank ih =>
    obtain ⟨text, rfl, hcut⟩ := ih h
    refine ⟨b :: text, rfl, fun other => ?_⟩
    rw [List.cons_append, readHex, if_neg hclose, if_pos hblank, hcut]
  | case4 => cases h
  | case5 offset b bytes hclose hblank d hd values' rest' hclosed ih =>
    cases h
    obtain ⟨text, rfl, hcut⟩ := ih hclosed
    refine ⟨b :: text, rfl, fun other => ?_⟩
    rw [List.cons_append, readHex, if_neg hclose, if_neg hblank, hd, hcut]
  | case6 offset b bytes hclose hblank d hd hopen ih => exact absurd h (hopen _ _)

/-- The bytes up to the next closing bracket, or all that are left if there is none. -/
inductive UpToClose : List UInt8 → List UInt8 → Prop
  | closed {text rest : List UInt8} (h : 0x3E ∉ text) : UpToClose (text ++ [0x3E]) rest
  | unclosed {text : List UInt8} (h : 0x3E ∉ text) : UpToClose text []

/-- A byte that may stand between the brackets of a hexadecimal string. -/
def IsHexByte (b : UInt8) : Prop := isBlank b = true ∨ (hexDigit? b).isSome = true

theorem upToClose_of_drop (bytes : List UInt8) :
    ∃ text, bytes = text ++ (bytes.dropWhile (· != 0x3E)).drop 1 ∧
      UpToClose text ((bytes.dropWhile (· != 0x3E)).drop 1) := by
  have htext : 0x3E ∉ bytes.takeWhile (· != 0x3E) := fun h => by
    simpa using List.mem_takeWhile_imp h
  have hsplit := List.takeWhile_append_dropWhile (p := (· != (0x3E : UInt8))) (l := bytes)
  rcases hdrop : bytes.dropWhile (· != 0x3E) with _ | ⟨b, rest⟩
  · rw [hdrop, List.append_nil] at hsplit
    exact ⟨bytes, (List.append_nil _).symm, .unclosed (hsplit ▸ htext)⟩
  · obtain rfl : b = 0x3E := by
      have hhead := List.head?_dropWhile_not (· != (0x3E : UInt8)) bytes
      rw [hdrop] at hhead
      simpa using hhead
    rw [hdrop] at hsplit
    exact ⟨_, by rw [List.append_assoc]; exact hsplit.symm, .closed htext⟩

/-- A bad digit is the first byte that is neither a digit, nor a blank, nor the closing bracket, and
reading resumes behind the next closing bracket. -/
theorem readHex_bad {offset at' : Nat} {b : UInt8} (h : readHex offset bytes = .bad at' b rest) :
    ∃ digits tail, bytes = digits ++ b :: (tail ++ rest) ∧ at' = offset + digits.length ∧
      (∀ d ∈ digits, IsHexByte d) ∧ ¬IsHexByte b ∧ b ≠ 0x3E ∧ UpToClose tail rest := by
  fun_induction readHex offset bytes with
  | case1 => cases h
  | case2 => cases h
  | case3 offset c bytes hclose hblank ih =>
    obtain ⟨digits, tail, rfl, rfl, hdigits, hb⟩ := ih h
    exact ⟨c :: digits, tail, rfl, by simp; omega,
      List.forall_mem_cons.2 ⟨.inl hblank, hdigits⟩, hb⟩
  | case4 offset c bytes hclose hblank hdigit =>
    cases h
    obtain ⟨tail, htail, hclosed⟩ := upToClose_of_drop bytes
    refine ⟨[], tail, by rw [← htail]; rfl, rfl, by simp, ?_, hclose, hclosed⟩
    simp [IsHexByte, hblank, hdigit]
  | case5 => cases h
  | case6 offset c bytes hclose hblank d hd hopen ih =>
    obtain ⟨digits, tail, rfl, rfl, hdigits, hb⟩ := ih h
    exact ⟨c :: digits, tail, rfl, by simp; omega,
      List.forall_mem_cons.2 ⟨.inr (by simp [hd]), hdigits⟩, hb⟩

theorem UpToClose.drop {tail : List UInt8} (h : UpToClose tail rest) :
    ((tail ++ rest).dropWhile (· != 0x3E)).drop 1 = rest := by
  have hall {text : List UInt8} (htext : 0x3E ∉ text) : ∀ b ∈ text, (b != 0x3E) = true := by
    intro b hb
    exact bne_iff_ne.2 (ne_of_mem_of_not_mem hb htext)
  cases h with
  | closed htext => simp [List.dropWhile_append_of_pos (hall htext)]
  | unclosed htext => simp [List.dropWhile_eq_nil_iff.2 (hall htext)]

theorem IsHexByte.ne_close {b : UInt8} (h : IsHexByte b) : b ≠ 0x3E := by
  rintro rfl
  exact absurd h (by simp [IsHexByte]; decide)

theorem IsHexByte.ne_open {b : UInt8} (h : IsHexByte b) : b ≠ 0x3C := by
  rintro rfl
  exact absurd h (by simp [IsHexByte]; decide)

/-- A hexadecimal string with a bad digit is passed over. -/
theorem readHex_of_bad {digits tail : List UInt8} {b : UInt8} (offset : Nat)
    (hdigits : ∀ d ∈ digits, IsHexByte d) (hb : ¬IsHexByte b) (hclose : b ≠ 0x3E)
    (htail : UpToClose tail rest) :
    readHex offset (digits ++ b :: (tail ++ rest)) = .bad (offset + digits.length) b rest := by
  induction digits generalizing offset with
  | nil =>
    obtain ⟨hblank, hdigit⟩ := not_or.1 hb
    rw [Option.not_isSome_iff_eq_none] at hdigit
    rw [List.nil_append, readHex, if_neg hclose, if_neg hblank, hdigit]
    simp only [htail.drop]
    rfl
  | cons d digits ih =>
    obtain ⟨hd, hdigits⟩ := List.forall_mem_cons.1 hdigits
    have hmore := ih (offset + 1) hdigits
    have hoffset : offset + 1 + digits.length = offset + (d :: digits).length := by
      rw [List.length_cons]
      omega
    rw [hoffset] at hmore
    rw [List.cons_append, readHex, if_neg hd.ne_close]
    by_cases hblank : isBlank d = true
    · rw [if_pos hblank, hmore]
    · obtain ⟨value, hvalue⟩ := Option.isSome_iff_exists.1 (hd.resolve_left hblank)
      rw [if_neg hblank, hvalue, hmore]

end Strings

/-! ### Lexemes -/

/-- The token of regular bytes: a number if they are one, and a word otherwise. -/
def plainToken [Scalar α] (text : List UInt8) : Token α :=
  if IsNumber text then (takeNumber text).1.token else wordToken text

/-- The delimiters that open no token and close none, so that each is a word of its own. -/
def strayDelimiters : List UInt8 := [0x29, 0x3E, 0x7B, 0x7D]

/-- The bytes are what is read as one token, or passed over as none, where others follow them. -/
inductive Lexeme [Scalar α] : List UInt8 → List UInt8 → Except Defect (Token α) → Prop
  | plain {text rest : List UInt8} (hne : text ≠ []) (htext : ∀ b ∈ text, isRegular b = true)
      (hrest : Breaks rest) : Lexeme text rest (.ok (plainToken text))
  | delimiter {b : UInt8} {rest : List UInt8} (hb : b ∈ strayDelimiters)
      (hrest : b = 0x3E → rest.head? ≠ some 0x3E) : Lexeme [b] rest (.ok (wordToken [b]))
  | name {text rest : List UInt8} (htext : ∀ b ∈ text, isRegular b = true) (hrest : Breaks rest) :
      Lexeme (0x2F :: text) rest (.ok (.name (Utf8.decode (unescapeName text))))
  | literal {text value rest : List UInt8} (h : readLiteral 1 text = some (value, [])) :
      Lexeme (0x28 :: text) rest (.ok (.string value))
  | openLiteral {text : List UInt8} (h : readLiteral 1 text = none) :
      Lexeme (0x28 :: text) [] (.error .unterminated)
  | hex {text values rest : List UInt8} (h : readHex 1 text = .closed values [])
      (htext : text.head? ≠ some 0x3C) :
      Lexeme (0x3C :: text) rest (.ok (.string (joinNibbles values)))
  | badHex {digits tail rest : List UInt8} {b : UInt8} (hdigits : ∀ d ∈ digits, IsHexByte d)
      (hb : ¬IsHexByte b) (hclose : b ≠ 0x3E) (hopen : digits = [] → b ≠ 0x3C)
      (htail : UpToClose tail rest) :
      Lexeme (0x3C :: (digits ++ b :: tail)) rest (.error (.badDigit (digits.length + 1) b))
  | openHex {text : List UInt8} (h : readHex 1 text = .unterminated)
      (htext : text.head? ≠ some 0x3C) : Lexeme (0x3C :: text) [] (.error .unterminated)
  | dictionaryOpen {rest : List UInt8} : Lexeme [0x3C, 0x3C] rest (.ok .dictionaryOpen)
  | dictionaryClose {rest : List UInt8} : Lexeme [0x3E, 0x3E] rest (.ok .dictionaryClose)
  | arrayOpen {rest : List UInt8} : Lexeme [0x5B] rest (.ok .arrayOpen)
  | arrayClose {rest : List UInt8} : Lexeme [0x5D] rest (.ok .arrayClose)

section Lexemes

variable [Scalar α] {text rest : List UInt8} {b : UInt8} {result : Except Defect (Token α)}

theorem readToken_plain (hregular : ∀ c ∈ b :: text, isRegular c = true) (hrest : Breaks rest) :
    readToken (α := α) b (text ++ rest) = ⟨.ok (plainToken (b :: text)), rest⟩ := by
  have hne := List.cons_ne_nil b text
  rw [readToken_regular _ (hregular b List.mem_cons_self), ← List.cons_append]
  by_cases hnumber : IsNumber (b :: text)
  · rw [if_pos hnumber.opens, readNumber_number hne hnumber hrest, plainToken, if_pos hnumber]
  · rw [readNumber_word hregular hne hnumber hrest, readWord_append hregular hne hrest, ite_self,
      plainToken, if_neg hnumber]

theorem readToken_delimiter (hb : b ∈ strayDelimiters) (hrest : b = 0x3E → rest.head? ≠ some 0x3E) :
    readToken (α := α) b rest = ⟨.ok (wordToken [b]), rest⟩ := by
  have hall : ∀ b ∈ strayDelimiters, isRegular b = false ∧ b ≠ 0x2F ∧ b ≠ 0x28 ∧ b ≠ 0x3C ∧
      b ≠ 0x5B ∧ b ≠ 0x5D ∧ ¬OpensNumber b := by decide +kernel
  obtain ⟨hregular, hname, hliteral, hhex, hopen, hclose, hnumber⟩ := hall b hb
  unfold readToken
  rw [if_neg hname, if_neg hliteral, if_neg hhex, if_neg fun h => hrest h.1 h.2, if_neg hopen,
    if_neg hclose]
  refine (if_neg hnumber).trans ?_
  simp [readWord, hregular]

/-- A lexeme is read as one. -/
theorem Lexeme.readToken (h : Lexeme (b :: text) rest result) :
    Content.readToken b (text ++ rest) = ⟨result, rest⟩ := by
  cases h with
  | plain _ htext hrest => exact readToken_plain htext hrest
  | delimiter hb hrest => exact readToken_delimiter hb hrest
  | name htext hrest =>
    obtain ⟨htake, hdrop⟩ := takeWhile_regular htext hrest
    show readName _ = _
    rw [readName, htake, hdrop]
  | literal h =>
    obtain ⟨_, e, hcut⟩ := readLiteral_cut h
    rw [List.append_nil] at e
    show readLiteralString _ = _
    rw [readLiteralString, e, hcut]
  | openLiteral h =>
    show readLiteralString _ = _
    rw [readLiteralString, List.append_nil, h]
  | hex h htext =>
    obtain ⟨_, e, hcut⟩ := readHex_cut h
    rw [List.append_nil] at e
    subst e
    have hhead : (text ++ rest).head? ≠ some 0x3C := by
      cases text with
      | nil => cases h
      | cons c text => exact htext
    rw [readToken_hex hhead, readHexString, hcut]
  | @badHex digits tail _ c hdigits hb hclose hopen htail =>
    have hhead : (digits ++ c :: (tail ++ rest)).head? ≠ some 0x3C := by
      cases digits with
      | nil => simpa using hopen rfl
      | cons d digits => simpa using (hdigits d List.mem_cons_self).ne_open
    rw [List.append_assoc, List.cons_append, readToken_hex hhead, readHexString,
      readHex_of_bad 1 hdigits hb hclose htail, Nat.add_comm]
  | openHex h htext => rw [List.append_nil, readToken_hex htext, readHexString, h]
  | dictionaryOpen => rfl
  | dictionaryClose => rfl
  | arrayOpen => rfl
  | arrayClose => rfl

theorem breaks_dropWhile (bytes : List UInt8) : Breaks (bytes.dropWhile isRegular) := by
  have hhead := List.head?_dropWhile_not isRegular bytes
  rw [Breaks]
  cases h : (bytes.dropWhile isRegular).head? with
  | none => rfl
  | some b =>
    rw [h] at hhead
    simpa using hhead

theorem lexeme_readLiteralString (bytes : List UInt8) :
    ∃ text, bytes = text ++ (readLiteralString (α := α) bytes).rest ∧
      Lexeme (0x28 :: text) (readLiteralString (α := α) bytes).rest
        (readLiteralString (α := α) bytes).result := by
  rw [readLiteralString]
  cases h : readLiteral 1 bytes with
  | none => exact ⟨bytes, (List.append_nil _).symm, .openLiteral h⟩
  | some reading =>
    obtain ⟨text, hbytes, hcut⟩ := readLiteral_cut h
    have hclosed := hcut []
    rw [List.append_nil] at hclosed
    exact ⟨text, hbytes, .literal hclosed⟩

theorem lexeme_readHexString {bytes : List UInt8} (hopen : bytes.head? ≠ some 0x3C) :
    ∃ text, bytes = text ++ (readHexString (α := α) bytes).rest ∧
      Lexeme (0x3C :: text) (readHexString (α := α) bytes).rest
        (readHexString (α := α) bytes).result := by
  rw [readHexString]
  cases h : readHex 1 bytes with
  | closed values rest =>
    obtain ⟨text, rfl, hcut⟩ := readHex_cut h
    have hclosed := hcut []
    rw [List.append_nil] at hclosed
    refine ⟨text, rfl, .hex hclosed ?_⟩
    cases text with
    | nil => cases hclosed
    | cons b text => exact hopen
  | bad offset b rest =>
    obtain ⟨digits, tail, rfl, rfl, hdigits, hb, hclose, htail⟩ := readHex_bad h
    refine ⟨digits ++ b :: tail, by simp, ?_⟩
    rw [Nat.add_comm]
    refine .badHex hdigits hb hclose ?_ htail
    rintro rfl rfl
    exact hopen rfl
  | unterminated => exact ⟨bytes, (List.append_nil _).symm, .openHex h hopen⟩

/-- What is read off the front of the bytes is a lexeme. -/
theorem lexeme_readToken (hb : Starts b) (bytes : List UInt8) :
    ∃ text, bytes = text ++ (readToken (α := α) b bytes).rest ∧
      Lexeme (b :: text) (readToken (α := α) b bytes).rest (readToken (α := α) b bytes).result := by
  -- The first byte is regular or one of the delimiters.
  have hall := forall_byte (p := fun b => Starts b → isRegular b = true ∨ b ∈ strayDelimiters ∨
    b ∈ [0x2F, 0x28, 0x3C, 0x5B, 0x5D]) (by unfold Starts; decide +kernel) b hb
  rcases hall with hregular | hstray | hopens
  · have hsplit := List.takeWhile_append_dropWhile (p := isRegular) (l := bytes)
    have hbreaks : Breaks (bytes.dropWhile isRegular) := breaks_dropWhile bytes
    have htext : ∀ c ∈ b :: bytes.takeWhile isRegular, isRegular c = true :=
      List.forall_mem_cons.2 ⟨hregular, fun c hc => List.mem_takeWhile_imp hc⟩
    have hread := readToken_plain (α := α) htext hbreaks
    rw [hsplit] at hread
    rw [hread]
    exact ⟨_, hsplit.symm, .plain (List.cons_ne_nil _ _) htext hbreaks⟩
  · by_cases hclose : b = 0x3E ∧ bytes.head? = some 0x3E
    · obtain ⟨rfl, hhead⟩ := hclose
      obtain ⟨bytes, rfl⟩ := List.head?_eq_some_iff.1 hhead
      exact ⟨[0x3E], rfl, .dictionaryClose⟩
    · have hrest : b = 0x3E → bytes.head? ≠ some 0x3E := fun h hhead => hclose ⟨h, hhead⟩
      rw [readToken_delimiter hstray hrest]
      exact ⟨[], rfl, .delimiter hstray hrest⟩
  · simp only [List.mem_cons, List.not_mem_nil, or_false] at hopens
    rcases hopens with rfl | rfl | rfl | rfl | rfl
    · refine ⟨_, List.takeWhile_append_dropWhile.symm, .name ?_ (breaks_dropWhile bytes)⟩
      exact fun c hc => List.mem_takeWhile_imp hc
    · exact lexeme_readLiteralString bytes
    · by_cases hopen : bytes.head? = some 0x3C
      · obtain ⟨bytes, rfl⟩ := List.head?_eq_some_iff.1 hopen
        exact ⟨[0x3C], rfl, .dictionaryOpen⟩
      · rw [readToken_hex hopen]
        exact lexeme_readHexString hopen
    · exact ⟨[], rfl, .arrayOpen⟩
    · exact ⟨[], rfl, .arrayClose⟩

/-- A lexeme is not empty, and neither a blank nor a comment begins it. -/
theorem Lexeme.starts (h : Lexeme text rest result) : ∃ b more, text = b :: more ∧ Starts b := by
  cases h with
  | plain hne htext _ =>
    obtain ⟨b, more, rfl⟩ := List.exists_cons_of_ne_nil hne
    exact ⟨b, more, rfl, starts_of_regular (htext b List.mem_cons_self)⟩
  | delimiter hb _ =>
    have hall : ∀ b ∈ strayDelimiters, Starts b := by unfold Starts; decide +kernel
    exact ⟨_, _, rfl, hall _ hb⟩
  | _ => exact ⟨_, _, rfl, rfl, by decide⟩

/-- **Reading takes a gap and one lexeme off the front of the bytes.** -/
theorem next?_eq_some_iff {bytes : List UInt8} :
    next? bytes = some ⟨result, rest⟩ ↔
      ∃ gap text, bytes = gap ++ (text ++ rest) ∧ Gap gap ∧ Lexeme text rest result := by
  constructor
  · intro h
    rcases trailing_or_starts bytes with htrailing | ⟨gap, b, more, rfl, hgap, hb⟩
    · rw [next?_eq_none_iff.2 htrailing] at h
      cases h
    · rw [next?_eq_readToken more hgap hb] at h
      obtain ⟨text, htext, hlexeme⟩ := lexeme_readToken (α := α) hb more
      rw [Option.some.inj h] at htext hlexeme
      exact ⟨gap, b :: text, by rw [List.cons_append, ← htext], hgap, hlexeme⟩
  · rintro ⟨gap, text, rfl, hgap, hlexeme⟩
    obtain ⟨b, more, rfl, hb⟩ := hlexeme.starts
    rw [List.cons_append, next?_eq_readToken _ hgap hb, hlexeme.readToken]

theorem Lexeme.next? (h : Lexeme text rest result) :
    Content.next? (text ++ rest) = some ⟨result, rest⟩ :=
  next?_eq_some_iff.2 ⟨[], text, rfl, .nil, h⟩

end Lexemes

end PageSvg.Content
