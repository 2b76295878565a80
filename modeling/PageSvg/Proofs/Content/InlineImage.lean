import Mathlib.Data.List.Infix
import PageSvg.Proofs.Content.Arrival

/-!
# Inline images

The data of an inline image are raw bytes. They end where `EI` first stands between blanks
(`splitInlineEnd_data`), so data in which it does not are read back as they are, together with the
entries of the image, and reading resumes behind them (`operations_inlineImage`).
-/

namespace PageSvg.Content

variable {α : Type}

/-! ### Data -/

/-- The end is seen from the two bytes of `EI` and those around them. -/
theorem endsInline_eq (last : Option UInt8) (bytes : List UInt8) :
    endsInline last bytes = (decide (bytes.take 2 = word "EI") &&
      (last.any isBlank && (bytes.drop 2).head?.all isBlank)) := by
  fun_cases endsInline last bytes
  case case1 => rfl
  case case2 hbytes =>
    have htake : bytes.take 2 ≠ word "EI" := by
      intro e
      refine hbytes (bytes.drop 2) ?_
      rw [← List.take_append_drop 2 bytes, e]
      rfl
    rw [decide_eq_false htake, Bool.false_and]

/-- Do the bytes begin with an `EI` between two blanks? -/
def opensWithEnd : List UInt8 → Bool
  | x :: 0x45 :: 0x49 :: y :: _ => isBlank x && isBlank y
  | _ => false

/-- There is no `EI` between two blanks in the bytes. -/
def FreeOfEnd (bytes : List UInt8) : Prop := ∀ suffix ∈ bytes.tails, opensWithEnd suffix = false

instance (bytes : List UInt8) : Decidable (FreeOfEnd bytes) := List.decidableBAll _ _

theorem FreeOfEnd.tail {front bytes : List UInt8} (h : FreeOfEnd (front ++ bytes)) :
    FreeOfEnd bytes := by
  intro suffix hsuffix
  rw [List.mem_tails] at hsuffix
  exact h suffix ((List.mem_tails _ _).2 (hsuffix.trans (List.suffix_append _ _)))

theorem FreeOfEnd.opens {bytes : List UInt8} (h : FreeOfEnd bytes) : opensWithEnd bytes = false :=
  h bytes ((List.mem_tails _ _).2 (List.suffix_refl _))

/-- Before the last blank of bytes without an end there is none. -/
theorem FreeOfEnd.not_endsInline {last : Option UInt8} {x e : UInt8} {data : List UInt8}
    (more : List UInt8) (he : isBlank e = true)
    (h : FreeOfEnd (last.toList ++ (x :: (data ++ [e])))) :
    endsInline last (x :: (data ++ e :: more)) = false := by
  by_contra hends
  rw [Bool.not_eq_false, endsInline_eq, Bool.and_eq_true, Bool.and_eq_true, decide_eq_true_eq]
    at hends
  obtain ⟨hword, hlast, hafter⟩ := hends
  obtain ⟨l, rfl, hl⟩ := (Option.any_eq_true _ _).1 hlast
  have hopens := h.opens
  -- Behind `EI` there is the blank after the data, or a blank among them.
  rcases data with _ | ⟨y, _ | ⟨z, data⟩⟩
  · obtain ⟨-, rfl⟩ : x = 0x45 ∧ e = 0x49 := by simpa [word] using hword
    exact absurd he (by decide)
  · obtain ⟨rfl, rfl⟩ : x = 0x45 ∧ y = 0x49 := by simpa [word] using hword
    simp [opensWithEnd, hl, he] at hopens
  · obtain ⟨rfl, rfl⟩ : x = 0x45 ∧ y = 0x49 := by simpa [word] using hword
    have hz : isBlank z = true := by simpa using hafter
    simp [opensWithEnd, hl, hz] at hopens

theorem splitInlineEnd_end {last : Option UInt8} {after : List UInt8}
    (hlast : last.any isBlank = true) (hafter : after.head?.all isBlank = true) :
    splitInlineEnd last (word "EI" ++ after) = ([], after) := by
  show splitInlineEnd last (0x45 :: 0x49 :: after) = _
  rw [splitInlineEnd, if_pos (by simp [endsInline, hlast, hafter])]
  rfl

theorem splitInlineEnd_cons {last : Option UInt8} {b : UInt8} {bytes : List UInt8}
    (h : endsInline last (b :: bytes) = false) :
    splitInlineEnd last (b :: bytes) =
      (last.toList ++ (splitInlineEnd (some b) bytes).1, (splitInlineEnd (some b) bytes).2) := by
  rw [splitInlineEnd, if_neg (by simp [h])]

/-- Behind the bytes and a blank, an `EI` before a blank or the end is the first one. -/
theorem splitInlineEnd_data {last : Option UInt8} {data after : List UInt8} {e : UInt8}
    (he : isBlank e = true) (hafter : after.head?.all isBlank = true)
    (hdata : FreeOfEnd (last.toList ++ (data ++ [e]))) :
    splitInlineEnd last (data ++ e :: (word "EI" ++ after)) = (last.toList ++ data, after) := by
  induction data generalizing last with
  | nil =>
    have hstart : endsInline last (e :: (word "EI" ++ after)) = false := by
      have hword : ¬(e :: (word "EI" ++ after)).take 2 = word "EI" := by
        intro hword
        obtain ⟨rfl, -⟩ := List.cons.inj hword
        exact absurd he (by decide)
      rw [endsInline_eq, decide_eq_false hword, Bool.false_and]
    rw [List.nil_append, splitInlineEnd_cons hstart, splitInlineEnd_end (by simpa using he) hafter]
  | cons x data ih =>
    rw [List.cons_append] at hdata
    have hmore : splitInlineEnd (some x) _ = ((some x).toList ++ data, after) := ih hdata.tail
    rw [List.cons_append, splitInlineEnd_cons (hdata.not_endsInline _ he), hmore]
    rfl

/-- Before the end of the bytes, the data depend on the byte behind their `EI` only. -/
theorem splitInlineEnd_cut {last : Option UInt8} {bytes data rest : List UInt8}
    (h : splitInlineEnd last bytes = (data, rest)) (hne : rest ≠ []) :
    rest.head?.all isBlank = true ∧ ∃ front, bytes = front ++ (word "EI" ++ rest) ∧
      ∀ other, other.head?.all isBlank = true →
        splitInlineEnd last (front ++ (word "EI" ++ other)) = (data, other) := by
  induction bytes generalizing last data with
  | nil =>
    cases h
    exact absurd rfl hne
  | cons b bytes ih =>
    by_cases hends : endsInline last (b :: bytes) = true
    · rw [splitInlineEnd, if_pos hends] at h
      rw [endsInline_eq, Bool.and_eq_true, Bool.and_eq_true, decide_eq_true_eq] at hends
      obtain ⟨hword, hlast, hafter⟩ := hends
      cases h
      refine ⟨hafter, [], ?_, fun other hother => splitInlineEnd_end hlast hother⟩
      rw [← hword]
      exact (List.take_append_drop 2 _).symm
    · rw [Bool.not_eq_true] at hends
      rw [splitInlineEnd_cons hends] at h
      obtain ⟨rfl, rfl⟩ := Prod.mk.inj h
      obtain ⟨hafter, front, hbytes, hcut⟩ := ih rfl
      refine ⟨hafter, b :: front, by rw [List.cons_append, ← hbytes], fun other hother => ?_⟩
      -- The first three bytes stay as they are.
      have hstays : endsInline last (b :: (front ++ (word "EI" ++ other))) = false := by
        rw [← hends, hbytes, endsInline_eq, endsInline_eq]
        rcases front with _ | ⟨y, _ | ⟨z, front⟩⟩ <;> rfl
      rw [List.cons_append, splitInlineEnd_cons hstays, hcut other hother]

theorem inlineData_data {data after : List UInt8} {b e : UInt8} (hb : isBlank b = true)
    (he : isBlank e = true) (hafter : after.head?.all isBlank = true)
    (hdata : FreeOfEnd (data ++ [e])) :
    inlineData (b :: (data ++ e :: (word "EI" ++ after))) = (data, after) := by
  rw [inlineData, if_pos hb]
  have hsplit : splitInlineEnd none _ = (none.toList ++ data, after) :=
    splitInlineEnd_data he hafter hdata
  exact hsplit

theorem inlineData_cut {bytes data rest : List UInt8} (h : inlineData bytes = (data, rest))
    (hne : rest ≠ []) :
    rest.head?.all isBlank = true ∧ ∃ front, bytes = front ++ rest ∧
      ∀ other, other.head?.all isBlank = true → inlineData (front ++ other) = (data, other) := by
  rcases bytes with _ | ⟨b, bytes⟩
  · cases h
    exact absurd rfl hne
  by_cases hb : isBlank b = true
  · rw [inlineData, if_pos hb] at h
    obtain ⟨hafter, front, rfl, hcut⟩ := splitInlineEnd_cut h hne
    refine ⟨hafter, b :: (front ++ word "EI"), by simp, fun other hother => ?_⟩
    rw [List.cons_append, List.append_assoc, inlineData, if_pos hb, hcut other hother]
  · rw [inlineData, if_neg hb] at h
    obtain ⟨hafter, front, hbytes, hcut⟩ := splitInlineEnd_cut h hne
    refine ⟨hafter, front ++ word "EI", by rw [hbytes, List.append_assoc], fun other hother => ?_⟩
    rw [List.append_assoc, ← hcut other hother]
    -- The first byte is the same, so it is no blank.
    rcases front with _ | ⟨c, front⟩
    · rfl
    · obtain ⟨rfl, -⟩ := List.cons.inj hbytes
      rw [List.cons_append, inlineData, if_neg hb]

/-! ### Entries -/

section Entries

variable [Scalar α]

/-- Data behind `ID` and before `EI`, each set off by a blank. -/
def dataSection (b : UInt8) (data : List UInt8) (e : UInt8) (after : List UInt8) : List UInt8 :=
  word "ID" ++ b :: (data ++ e :: (word "EI" ++ after))

/-- **The data of an inline image survive**, whichever bytes they are, if no `EI` stands between
blanks in them and the blank that follows. -/
theorem operations_inlineImage {entries : Keyed (Operand α)} {data rest spelling after : List UInt8}
    {b e : UInt8} (hkeys : (Keyed.keys entries).Nodup) (hvalues : ∀ entry ∈ entries, entry.2.Proper)
    (hb : isBlank b = true) (he : isBlank e = true) (hdata : FreeOfEnd (data ++ [e]))
    (hafter : (after = [] ∧ rest = []) ∨ ∃ x, isBlank x = true ∧ after = x :: rest)
    (hbreak : Breaks (spelling ++ dataSection b data e after))
    (hspelling : Lexes (Operand.entryTokens entries) (spelling ++ dataSection b data e after)
      (dataSection b data e after)) :
    operations (word "BI" ++ (spelling ++ dataSection b data e after)) =
      ⟨"EI", [.dictionary entries, .string data]⟩ :: operations rest := by
  have hword (text : String) (h : ∀ b ∈ word text, isRegular b = true) (hne : word text ≠ [])
      (hnumber : ¬IsNumber (word text)) {more : List UInt8} (hmore : Breaks more) :
      next? (α := α) (word text ++ more) = some ⟨.ok (wordToken (word text)), more⟩ :=
    next?_word h hne hnumber .nil hmore
  have hBI := hword "BI" (by decide +kernel) (by decide +kernel) (by decide +kernel) hbreak
  have hbreak' : Breaks (b :: (data ++ e :: (word "EI" ++ after))) := by
    simp [Breaks, isRegular, hb]
  have hID := hword "ID" (by decide +kernel) (by decide +kernel) (by decide +kernel) hbreak'
  have hentries := collects_entryTokens (⟨[], [], true⟩ : Collected α)
    fun entry hentry => collects_tokens (hvalues entry hentry)
  have hrest : operations (α := α) after = operations rest := by
    rcases hafter with ⟨rfl, rfl⟩ | ⟨x, hx, rfl⟩
    · rfl
    · exact operationsFrom_gap (.blank hx .nil)
  have hhead : after.head?.all isBlank = true := by
    rcases hafter with ⟨rfl, rfl⟩ | ⟨x, hx, rfl⟩
    · rfl
    · simpa using hx
  calc operations (word "BI" ++ (spelling ++ dataSection b data e after))
      = operationsFrom ⟨[], [], true⟩ (spelling ++ dataSection b data e after) := by
        rw [operations, operationsFrom_token hBI]
        rfl
    _ = operationsFrom ⟨Operand.itemsOf entries, [], true⟩ (dataSection b data e after) :=
        hspelling.operationsFrom hentries
    _ = ⟨"EI", [.dictionary entries, .string data]⟩ :: operationsFrom {} after := by
        rw [dataSection, operationsFrom_token hID]
        show (⟨"EI", [.dictionary (Operand.ofItems (Operand.itemsOf entries)), .string _]⟩ :
          Operation α) :: _ = _
        rw [ofItems_itemsOf hkeys, inlineData_data hb he hhead hdata]
    _ = _ := congrArg _ hrest

/-- The data begin with `EI`, end with it and have it behind a blank, yet they are read back. -/
theorem operations_inlineImage_nearly :
    operations (word "BI /W 1 ID EI EIEI EI Q") =
      [(⟨"EI", [.dictionary [("W", .integer 1)], .string (word "EI EIEI")]⟩ : Operation Float),
        ⟨"Q", []⟩] := by
  have hspace : Gap [0x20] := .blank rfl .nil
  have hname : Spells (.name "W" : Token Float) (0x2F :: word "W") := by
    refine .name ?_
    rw [show Utf8.encode "W" = word "W" by decide +kernel]
    exact .raw rfl (by decide) .nil
  have hQ : PlainWord "Q" :=
    ⟨by decide +kernel, by decide +kernel, by decide +kernel, by decide⟩
  have hrest : operations (α := Float) (Utf8.encode "Q" ++ []) = [⟨"Q", []⟩] :=
    operations_eq_assemble (.atStart (.keyword hQ) (.done .nil))
  have hlexes : Lexes (Operand.entryTokens [("W", .integer 1)] : List (Token Float))
      ([0x20] ++ ((0x2F :: word "W") ++ ([0x20] ++ (word (toString (1 : Int64).toInt) ++
        ([0x20] ++ dataSection 0x20 (word "EI EIEI") 0x20 (word " Q"))))))
      (dataSection 0x20 (word "EI EIEI") 0x20 (word " Q")) :=
    .token (next?_spelling hspace hname rfl)
      (.token (next?_spelling hspace (.integer 1) rfl) (.done hspace))
  rw [show word (toString (1 : Int64).toInt) = [0x31] by decide +kernel] at hlexes
  have hdata : FreeOfEnd (word "EI EIEI" ++ [0x20]) := by decide +kernel
  have hread : operations (word "BI" ++ (word " /W 1 " ++
      dataSection 0x20 (word "EI EIEI") 0x20 (word " Q"))) =
      (⟨"EI", [.dictionary [("W", .integer 1)], .string (word "EI EIEI")]⟩ : Operation Float) ::
        operations (word "Q") :=
    operations_inlineImage (List.nodup_singleton _) (List.forall_mem_singleton.2 (.integer 1)) rfl
      rfl hdata (.inr ⟨0x20, rfl, rfl⟩) rfl hlexes
  rw [show Utf8.encode "Q" ++ [] = word "Q" by decide +kernel] at hrest
  rw [hrest] at hread
  exact hread

end Entries

end PageSvg.Content
