import PageSvg.Proofs.Content.InlineImage
import PageSvg.Proofs.Content.Lexeme

/-!
# Bytes that close nothing

What is read up to some point depends on the bytes behind it only through the first of them, and a
blank in its place does as well (`Arrives.cut`). So bytes that are passed over can stand anywhere
between two tokens. A closing bracket that closes nothing and a string with a bad digit are passed
over; a delimiter that is a word of its own is too inside brackets, but outside of them it is taken
for an operator (`operations_inserted`).
-/

namespace PageSvg.Content

variable {α : Type}

/-! ### What reading depends on -/

/-- The bytes begin with the same byte, or the others begin with a blank or are at their end. -/
def Alike (bytes others : List UInt8) : Prop :=
  others.head? = bytes.head? ∨ others.head?.all isBlank = true

section Cuts

variable {text rest other : List UInt8}

theorem Alike.append (h : Alike rest other) (text : List UInt8) :
    Alike (text ++ rest) (text ++ other) := by
  cases text with
  | nil => exact h
  | cons b text => exact .inl rfl

theorem Alike.breaks (h : Alike rest other) (hrest : Breaks rest) : Breaks other := by
  rcases h with h | h
  · rw [Breaks, h]
    exact hrest
  · cases other with
    | nil => rfl
    | cons b other =>
      have hb : isBlank b = true := by simpa using h
      simp [Breaks, isRegular, hb]

theorem Alike.head_ne {b : UInt8} (h : Alike rest other) (hb : isBlank b = false)
    (hrest : rest.head? ≠ some b) : other.head? ≠ some b := by
  rcases h with h | h
  · rwa [h]
  · intro e
    rw [e, Option.all_some, hb] at h
    cases h

/-- Before the end of the bytes, a lexeme depends on one byte behind it at most. -/
theorem Lexeme.cut [Scalar α] {result : Except Defect (Token α)} (h : Lexeme text rest result)
    (hne : rest ≠ []) (halike : Alike rest other) : Lexeme text other result := by
  cases h with
  | plain hne htext hrest => exact .plain hne htext (halike.breaks hrest)
  | delimiter hb hrest => exact .delimiter hb fun h => halike.head_ne rfl (hrest h)
  | name htext hrest => exact .name htext (halike.breaks hrest)
  | literal h => exact .literal h
  | openLiteral h => exact absurd rfl hne
  | hex h htext => exact .hex h htext
  | badHex hdigits hb hclose hopen htail =>
    cases htail with
    | closed htail => exact .badHex hdigits hb hclose hopen (.closed htail)
    | unclosed htail => exact absurd rfl hne
  | openHex h htext => exact absurd rfl hne
  | dictionaryOpen => exact .dictionaryOpen
  | dictionaryClose => exact .dictionaryClose
  | arrayOpen => exact .arrayOpen
  | arrayClose => exact .arrayClose

theorem Alike.blank (h : Alike rest other) (hrest : rest.head?.all isBlank = true) :
    other.head?.all isBlank = true := by
  rcases h with h | h
  · rwa [h]
  · exact h

/-- The bytes end with the rest, and what holds of the two holds still when the rest is replaced. -/
def CutAt (p : List UInt8 → List UInt8 → Prop) (bytes rest : List UInt8) : Prop :=
  ∃ text, bytes = text ++ rest ∧ ∀ other, Alike rest other → p (text ++ other) other

variable {p q : List UInt8 → List UInt8 → Prop} {bytes more : List UInt8}

/-- Before the end of the bytes, reading a token does not depend on what replaces the rest. -/
theorem CutAt.next [Scalar α] {result : Except Defect (Token α)}
    (h : next? bytes = some ⟨result, more⟩) (hne : rest ≠ []) (hmore : CutAt p more rest)
    (hturn : ∀ {bytes more rest}, next? bytes = some ⟨result, more⟩ → p more rest → q bytes rest) :
    CutAt q bytes rest := by
  obtain ⟨text, rfl, hcut⟩ := hmore
  obtain ⟨gap, span, rfl, hgap, hspan⟩ := next?_eq_some_iff.1 h
  refine ⟨gap ++ (span ++ text), by simp, fun other halike => ?_⟩
  have hother := hspan.cut (by simp [hne]) (halike.append text)
  refine hturn (next?_eq_some_iff.2 ⟨gap, span, ?_, hgap, hother⟩) (hcut other halike)
  rw [List.append_assoc, List.append_assoc]

/-- Inline data end before a blank, so they do not depend on what replaces the rest either. -/
theorem CutAt.inlineData (hne : rest ≠ []) (h : CutAt p (inlineData more).2 rest) :
    CutAt (fun bytes rest => (Content.inlineData bytes).1 = (Content.inlineData more).1 ∧
      p (Content.inlineData bytes).2 rest) more rest := by
  obtain ⟨text, htext, hcut⟩ := h
  have hread : Content.inlineData more = ((Content.inlineData more).1, text ++ rest) :=
    Prod.ext rfl htext
  obtain ⟨hafter, image, hmore, hdata⟩ := inlineData_cut hread (by simp [hne])
  refine ⟨image ++ text, by rw [List.append_assoc, ← hmore], fun other halike => ?_⟩
  have hother := hdata (text ++ other) ((halike.append text).blank hafter)
  rw [← List.append_assoc] at hother
  constructor
  · rw [hother]
  · rw [hother]
    exact hcut other halike

/-- Reading arrives at the same operations and operands, whatever the bytes left are replaced by. -/
theorem Arrives.cut [Scalar α] {c d : Collected α} {ops : ContentStream α}
    (h : Arrives c bytes ops d rest) (hne : rest ≠ []) :
    CutAt (fun bytes rest => Arrives c bytes ops d rest) bytes rest := by
  induction h with
  | here => exact ⟨[], rfl, fun _ _ => .here⟩
  | fault h _ ih => exact .next h hne (ih hne) fun h hmore => .fault h hmore
  | collect h hstep _ ih => exact .next h hne (ih hne) fun h hmore => .collect h hstep hmore
  | operation h hstep _ ih => exact .next h hne (ih hne) fun h hmore => .operation h hstep hmore
  | inlineImage h hstep _ ih =>
    refine .next h hne (.inlineData hne (ih hne)) fun h hmore => ?_
    rw [← hmore.1]
    exact .inlineImage h hstep hmore.2

end Cuts

/-! ### Inserting bytes -/

theorem step_delimiter {c : Collected α} {b : UInt8} (hb : b ∈ strayDelimiters) :
    c.step (wordToken [b]) = c.keyword (Utf8.decode [b]) ∧
      Utf8.decode [b] ≠ "BI" ∧ Utf8.decode [b] ≠ "ID" := by
  have hall : ∀ b ∈ strayDelimiters, Utf8.decode [b] ≠ "BI" ∧ Utf8.decode [b] ≠ "ID" := by
    decide +kernel
  have hword : (wordToken [b] : Token α) = .keyword (Utf8.decode [b]) := by
    have hlength {text : String} (h : (word text).length ≠ 1) : [b] ≠ word text :=
      fun e => h (congrArg List.length e).symm
    rw [wordToken, if_neg (hlength (by decide)), if_neg (hlength (by decide)),
      if_neg (hlength (by decide))]
  rw [hword]
  exact ⟨rfl, hall b hb⟩

section Insertion

variable [Scalar α] {c : Collected α} {ops : ContentStream α} {before after other : List UInt8}

/-- The bytes, or a blank if there are none. -/
def ended : List UInt8 → List UInt8
  | [] => [0x20]
  | b :: bytes => b :: bytes

theorem ended_ne_nil (bytes : List UInt8) : ended bytes ≠ [] := by
  cases bytes <;> exact List.cons_ne_nil _ _

theorem alike_ended (bytes : List UInt8) : Alike (ended bytes) bytes := by
  cases bytes with
  | nil => exact .inr rfl
  | cons b bytes => exact .inl rfl

/-- Between the two parts of a content stream no token is open: reading the first part completes
the operations, and the operands are collected. A string that the end of the stream cuts off is
still open there. -/
def Boundary (before after : List UInt8) (ops : ContentStream α) (c : Collected α) : Prop :=
  ∃ gap, Gap gap ∧ Arrives {} (before ++ ended after) ops c (gap ++ ended after)

theorem Boundary.operations (h : Boundary before after ops c) (halike : Alike (ended after) other) :
    operations (before ++ other) = ops ++ operationsFrom c other := by
  obtain ⟨gap, hgap, harrives⟩ := h
  have hne : gap ++ ended after ≠ [] := by simp [ended_ne_nil]
  obtain ⟨text, htext, hcut⟩ := harrives.cut hne
  rw [← List.append_assoc] at htext
  obtain rfl := List.append_cancel_right htext
  have hother := hcut (gap ++ other) (halike.append gap)
  rw [← List.append_assoc] at hother
  rw [Content.operations, hother.operationsFrom, operationsFrom_gap hgap]

/-- Bytes that are passed over where this has been collected: a string with a bad digit, a bracket
that does not close the innermost one, and inside of brackets or an inline image a delimiter that is
a word of its own. -/
inductive PassedOver (c : Collected α) : List UInt8 → Prop
  | badHex {digits tail : List UInt8} {b : UInt8} (hdigits : ∀ d ∈ digits, IsHexByte d)
      (hb : ¬IsHexByte b) (hclose : b ≠ 0x3E) (hopen : digits = [] → b ≠ 0x3C)
      (htail : 0x3E ∉ tail) : PassedOver c (0x3C :: (digits ++ b :: (tail ++ [0x3E])))
  | arrayClose (h : ∀ items outer, c.frames ≠ .array items :: outer) : PassedOver c [0x5D]
  | dictionaryClose (h : ∀ items outer, c.frames ≠ .dictionary items :: outer) :
      PassedOver c [0x3E, 0x3E]
  | delimiter {b : UInt8} (hb : b ∈ strayDelimiters)
      (h : c.frames ≠ [] ∨ c.inInlineImage = true) : PassedOver c [b]

theorem operationsFrom_blank (after : List UInt8) :
    operationsFrom c (0x20 :: after) = operationsFrom c after :=
  operationsFrom_gap (.blank rfl .nil)

/-- A token that is collected to no effect is passed over. -/
theorem operationsFrom_idle {text : List UInt8} {t : Token α}
    (h : Lexeme text (0x20 :: after) (.ok t)) (hstep : c.step t = .collect c) :
    operationsFrom c (text ++ 0x20 :: after) = operationsFrom c after := by
  rw [operationsFrom_token h.next?, hstep]
  exact operationsFrom_blank after

theorem PassedOver.operationsFrom {bytes : List UInt8} (h : PassedOver c bytes) :
    operationsFrom c (bytes ++ 0x20 :: after) = Content.operationsFrom c after := by
  cases h with
  | @badHex digits tail b hdigits hb hclose hopen htail =>
    have hlexeme : Lexeme (α := α) _ (0x20 :: after) _ :=
      .badHex hdigits hb hclose hopen (.closed htail)
    rw [operationsFrom_fault hlexeme.next?]
    exact operationsFrom_blank after
  | arrayClose h =>
    refine operationsFrom_idle .arrayClose (congrArg Step.collect ?_)
    unfold Collected.closeArray
    split
    · next e => exact absurd e (h _ _)
    · rfl
  | dictionaryClose h =>
    refine operationsFrom_idle .dictionaryClose (congrArg Step.collect ?_)
    unfold Collected.closeDictionary
    split
    · next e => exact absurd e (h _ _)
    · rfl
  | @delimiter b hb h =>
    obtain ⟨hstep, hBI, hID⟩ := step_delimiter (c := c) hb
    refine operationsFrom_idle (.delimiter hb (by simp)) (hstep.trans ?_)
    unfold Collected.keyword
    by_cases hframes : c.frames = []
    · have himage := h.resolve_left fun hne => hne hframes
      rw [hframes, if_neg (by simp), if_neg hBI, himage, if_pos rfl, if_neg hID]
    · rw [if_pos (by simpa using hframes)]

/-- **What can stand between two tokens.** Bytes that are passed over there change no operation and
lose no operand. A delimiter that is a word of its own does outside of brackets: it is an operation,
and it takes the operands collected so far. -/
theorem operations_inserted (h : Boundary before after ops c) :
    (∀ bytes, PassedOver c bytes →
      operations (α := α) (before ++ 0x20 :: (bytes ++ 0x20 :: after)) =
        operations (before ++ after)) ∧
    (c.frames = [] → c.inInlineImage = false → ∀ b ∈ strayDelimiters,
      operations (before ++ after) = ops ++ operationsFrom c after ∧
      operations (before ++ 0x20 :: ([b] ++ 0x20 :: after)) =
        ops ++ ⟨Utf8.decode [b], c.operands⟩ :: operationsFrom {} after) := by
  have hbefore := h.operations (alike_ended after)
  refine ⟨fun bytes hbytes => ?_, fun hframes himage b hb => ⟨hbefore, ?_⟩⟩
  · rw [hbefore, h.operations (.inr rfl), operationsFrom_blank, hbytes.operationsFrom]
  · obtain ⟨hstep, hBI, hID⟩ := step_delimiter (c := c) hb
    have hoperation : c.keyword (Utf8.decode [b]) =
        .operation ⟨Utf8.decode [b], c.operands⟩ {} := by
      rw [Collected.keyword, hframes, if_neg (by simp), if_neg hBI, himage]
      rfl
    have hlexeme : Lexeme (α := α) [b] (0x20 :: after) (.ok (wordToken [b])) :=
      .delimiter hb (by simp)
    rw [h.operations (.inr rfl), operationsFrom_blank, operationsFrom_token hlexeme.next?, hstep,
      hoperation]
    exact congrArg (ops ++ _ :: ·) (operationsFrom_blank after)

end Insertion

section Numbers

/-- Two numbers, as they are collected. -/
def twoNumbers : Collected Float := { operands := [.integer 1, .integer 2] }

theorem arrives_twoNumbers (rest : List UInt8) :
    Arrives {} (word "1 2" ++ ([0x20] ++ rest)) [] twoNumbers ([0x20] ++ rest) := by
  have hspace : Gap [0x20] := .blank rfl .nil
  have hdigits : word (toString (1 : Int64).toInt) = [0x31] ∧
      word (toString (2 : Int64).toInt) = [0x32] := by decide +kernel
  have hone := next?_spelling .nil (.integer (α := Float) 1)
    (hspace.breaks ([0x32] ++ ([0x20] ++ rest)) (List.cons_ne_nil _ _))
  have htwo := next?_spelling hspace (.integer (α := Float) 2)
    (hspace.breaks rest (List.cons_ne_nil _ _))
  rw [hdigits.1] at hone
  rw [hdigits.2] at htwo
  exact .collect hone rfl (.collect htwo rfl .here)

theorem operations_inserted_numbers :
    operations (α := Float) (word "1 2 " ++ 0x20 :: (word "<4z>" ++ 0x20 :: word "m")) =
        operations (word "1 2 " ++ word "m") ∧
      operations (word "1 2 " ++ 0x20 :: ([0x29] ++ 0x20 :: word "m")) =
        ⟨")", [.integer 1, .integer 2]⟩ :: operationsFrom (α := Float) {} (word "m") := by
  have hboundary : Boundary (word "1 2 ") (word "m") [] twoNumbers :=
    ⟨[0x20], .blank rfl .nil, arrives_twoNumbers (word "m")⟩
  have hdigits : ∀ d ∈ [(0x34 : UInt8)], IsHexByte d := List.forall_mem_singleton.2 (.inr rfl)
  have hbad : PassedOver twoNumbers (0x3C :: ([0x34] ++ 0x7A :: ([] ++ [0x3E]))) :=
    .badHex hdigits (by simp [IsHexByte]; decide) (by decide) (by simp) (by simp)
  obtain ⟨hpassed, hdelimiter⟩ := operations_inserted hboundary
  refine ⟨hpassed _ hbad, ?_⟩
  have hparenthesis := (hdelimiter rfl rfl 0x29 (by decide)).2
  rw [show Utf8.decode [0x29] = ")" by decide +kernel] at hparenthesis
  exact hparenthesis

/-- A stray parenthesis takes the numbers away from the operator that they stand before. -/
theorem operations_parenthesis :
    operations (word "1 2 ) m") =
        [(⟨")", [.integer 1, .integer 2]⟩ : Operation Float), ⟨"m", []⟩] ∧
      operations (word "1 2 m") = [(⟨"m", [.integer 1, .integer 2]⟩ : Operation Float)] ∧
      operations (α := Float) (word "1 2 ) m") ≠ operations (word "1 2 m") := by
  have hspace : Gap [0x20] := .blank rfl .nil
  have hm : PlainWord "m" :=
    ⟨by decide +kernel, by decide +kernel, by decide +kernel, by decide⟩
  have hoperator {c : Collected Float} (hc : c.inInlineImage = false) :
      operationsFrom c (word " m") = assemble c [.keyword "m"] := by
    rw [show word " m" = [0x20] ++ (Utf8.encode "m" ++ []) by decide +kernel]
    exact operationsFrom_follows hc
      (.token hspace (List.cons_ne_nil _ _) (.keyword hm) (.done .nil))
  have hparenthesis : Lexeme (α := Float) [0x29] (word " m") (.ok (wordToken [0x29])) :=
    .delimiter (by decide) (by decide)
  have htaken : operations (word "1 2 ) m") =
      [(⟨")", [.integer 1, .integer 2]⟩ : Operation Float), ⟨"m", []⟩] := by
    refine (arrives_twoNumbers (word ") m")).operationsFrom.trans ?_
    rw [List.nil_append, operationsFrom_gap hspace]
    refine (operationsFrom_token hparenthesis.next?).trans ?_
    rw [(step_delimiter (by decide)).1, show Utf8.decode [0x29] = ")" by decide +kernel]
    exact congrArg (_ :: ·) (hoperator rfl)
  have hleft : operations (word "1 2 m") =
      [(⟨"m", [.integer 1, .integer 2]⟩ : Operation Float)] :=
    (arrives_twoNumbers (word "m")).operationsFrom.trans (hoperator rfl)
  refine ⟨htaken, hleft, fun h => ?_⟩
  rw [htaken, hleft] at h
  cases (List.cons.inj h).2

end Numbers

end PageSvg.Content
