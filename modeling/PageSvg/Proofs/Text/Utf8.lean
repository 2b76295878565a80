import Mathlib.Tactic.SplitIfs
import PageSvg.Text.Utf8

/-!
# Reading back what UTF-8 writes

The bytes of a character bring the reader from between two characters to between two characters
and yield that character, so a text is the one that its bytes decode to.
-/

namespace PageSvg.Utf8

theorem toNat_ofNat {n : Nat} (h : n < 256) : (UInt8.ofNat n).toNat = n := by
  simp [Nat.mod_eq_of_lt h]

/-- Characters are the code points that are not surrogates. -/
theorem toNat_valid (c : Char) : c.toNat < 0xD800 ∨ 0xDFFF < c.toNat ∧ c.toNat < 0x110000 := by
  have h := c.valid
  simp only [UInt32.isValidChar, Nat.isValidChar] at h
  exact h

/-! ### Bytes inside a character -/

section Inside

variable {bits n : Nat} {low high : UInt8} (rest : List UInt8)

theorem mem_range (h : n < 256) (hlow : low.toNat ≤ n) (hhigh : n ≤ high.toNat) :
    low ≤ UInt8.ofNat n ∧ UInt8.ofNat n ≤ high := by
  rw [UInt8.le_iff_toNat_le, UInt8.le_iff_toNat_le, toNat_ofNat h]
  exact ⟨hlow, hhigh⟩

/-- The last byte of a character. -/
theorem decodeFrom_last (h : n < 256) (hlow : low.toNat ≤ n) (hhigh : n ≤ high.toNat) :
    decodeFrom (some ⟨bits, 1, low, high⟩) (UInt8.ofNat n :: rest) =
      Char.ofNat (bits * 64 + (n - 0x80)) :: decodeFrom none rest := by
  have hadd : Partial.add ⟨bits, 1, low, high⟩ (UInt8.ofNat n) = bits * 64 + (n - 0x80) := by
    show bits * 64 + ((UInt8.ofNat n).toNat - 0x80) = _
    rw [toNat_ofNat h]
  rw [decodeFrom, if_pos (mem_range h hlow hhigh), hadd]
  rfl

/-- A byte after which more bytes are owed. -/
theorem decodeFrom_next (owed : Nat) (h : n < 256) (hlow : low.toNat ≤ n)
    (hhigh : n ≤ high.toNat) :
    decodeFrom (some ⟨bits, owed + 2, low, high⟩) (UInt8.ofNat n :: rest) =
      decodeFrom (some ⟨bits * 64 + (n - 0x80), owed + 1, 0x80, 0xBF⟩) rest := by
  have hadd : Partial.add ⟨bits, owed + 2, low, high⟩ (UInt8.ofNat n) =
      bits * 64 + (n - 0x80) := by
    show bits * 64 + ((UInt8.ofNat n).toNat - 0x80) = _
    rw [toNat_ofNat h]
  rw [decodeFrom, if_pos (mem_range h hlow hhigh), hadd]
  rfl

end Inside

/-! ### First bytes -/

/-- What a first byte owes, and the range of the byte after it. -/
theorem lead_ofNat {n : Nat} (h : n < 256) :
    lead (UInt8.ofNat n) =
      if n < 0x80 then .character (Char.ofNat n)
      else if n < 0xC2 then .invalid
      else if n < 0xE0 then .opening ⟨n - 0xC0, 1, 0x80, 0xBF⟩
      else if n = 0xE0 then .opening ⟨0, 2, 0xA0, 0xBF⟩
      else if n = 0xED then .opening ⟨0xD, 2, 0x80, 0x9F⟩
      else if n < 0xF0 then .opening ⟨n - 0xE0, 2, 0x80, 0xBF⟩
      else if n = 0xF0 then .opening ⟨0, 3, 0x90, 0xBF⟩
      else if n < 0xF4 then .opening ⟨n - 0xF0, 3, 0x80, 0xBF⟩
      else if n = 0xF4 then .opening ⟨4, 3, 0x80, 0x8F⟩
      else .invalid := by
  simp only [lead, toNat_ofNat h]

theorem decodeFrom_opening {n : Nat} {p : Partial} (rest : List UInt8)
    (h : lead (UInt8.ofNat n) = .opening p) :
    decodeFrom none (UInt8.ofNat n :: rest) = decodeFrom (some p) rest := by
  rw [decodeFrom, h]

theorem lead_two {n : Nat} (h : 0xC2 ≤ n) (h' : n < 0xE0) :
    lead (UInt8.ofNat n) = .opening ⟨n - 0xC0, 1, 0x80, 0xBF⟩ := by
  rw [lead_ofNat (by omega), if_neg (by omega), if_neg (by omega), if_pos (by omega)]

/-- The first of three bytes; the range of the second one leaves out long forms and surrogates. -/
theorem lead_three {n : Nat} (h : 0xE0 ≤ n) (h' : n < 0xF0) :
    lead (UInt8.ofNat n) = .opening ⟨n - 0xE0, 2, if n = 0xE0 then 0xA0 else 0x80,
      if n = 0xED then 0x9F else 0xBF⟩ := by
  rw [lead_ofNat (by omega), if_neg (by omega), if_neg (by omega), if_neg (by omega)]
  split_ifs <;> simp_all

/-- The first of four bytes; the range of the second one leaves out long forms and what lies above
the last character. -/
theorem lead_four {n : Nat} (h : 0xF0 ≤ n) (h' : n ≤ 0xF4) :
    lead (UInt8.ofNat n) = .opening ⟨n - 0xF0, 3, if n = 0xF0 then 0x90 else 0x80,
      if n = 0xF4 then 0x8F else 0xBF⟩ := by
  rw [lead_ofNat (by omega), if_neg (by omega), if_neg (by omega), if_neg (by omega),
    if_neg (by omega), if_neg (by omega), if_neg (by omega)]
  split_ifs <;> first | omega | simp_all

/-! ### Whole texts -/

/-- The bytes of a character yield the character. -/
theorem decodeFrom_encodeChar (c : Char) (rest : List UInt8) :
    decodeFrom none (String.utf8EncodeChar c ++ rest) = c :: decodeFrom none rest := by
  have hvalid := toNat_valid c
  have hchar {n : Nat} (h : n = c.toNat) : Char.ofNat n = c := by rw [h, Char.ofNat_toNat]
  unfold String.utf8EncodeChar
  simp only [show c.val.toNat = c.toNat from rfl]
  -- One case for each number of bytes; that the character is valid bounds the second byte.
  split_ifs with h₁ h₂ h₃
  · rw [List.singleton_append, decodeFrom, lead_ofNat (by omega), if_pos (by omega),
      Char.ofNat_toNat]
  · simp only [List.cons_append, List.nil_append]
    rw [decodeFrom_opening _ (lead_two (by omega) (by omega)),
      decodeFrom_last _ (by omega) (by simp) (by simp; omega), hchar (by omega)]
  · simp only [List.cons_append, List.nil_append]
    rw [decodeFrom_opening _ (lead_three (by omega) (by omega)),
      decodeFrom_next _ 0 (by omega) (by split_ifs <;> simp; omega)
        (by split_ifs <;> simp <;> omega),
      decodeFrom_last _ (by omega) (by simp) (by simp; omega), hchar (by omega)]
  · simp only [List.cons_append, List.nil_append]
    rw [decodeFrom_opening _ (lead_four (by omega) (by omega)),
      decodeFrom_next _ 1 (by omega) (by split_ifs <;> simp; omega)
        (by split_ifs <;> simp <;> omega),
      decodeFrom_next _ 0 (by omega) (by simp) (by simp; omega),
      decodeFrom_last _ (by omega) (by simp) (by simp; omega), hchar (by omega)]

theorem decodeFrom_flatMap (chars : List Char) :
    decodeFrom none (chars.flatMap String.utf8EncodeChar) = chars := by
  induction chars with
  | nil => rfl
  | cons c rest ih => rw [List.flatMap_cons, decodeFrom_encodeChar, ih]

theorem toList_loop (bytes : ByteArray) (i : Nat) (acc : List UInt8) :
    ByteArray.toList.loop bytes i acc = acc.reverse ++ bytes.data.toList.drop i := by
  fun_induction ByteArray.toList.loop bytes i acc with
  | case1 i acc h ih =>
    have hi : i < bytes.data.toList.length := by simpa using h
    have hget : bytes.get! i = bytes.data.toList[i] := by
      simp [ByteArray.get!, getElem!_pos bytes.data i h]
    rw [ih, List.drop_eq_getElem_cons hi, List.reverse_cons, List.append_assoc,
      List.singleton_append, hget]
  | case2 i acc h =>
    rw [List.drop_eq_nil_of_le (by simpa using h), List.append_nil]

theorem encode_eq (s : String) : encode s = s.toList.flatMap String.utf8EncodeChar := by
  rw [encode, String.toUTF8_eq_toByteArray, ← String.utf8Encode_toList, List.utf8Encode]
  simp [ByteArray.toList, toList_loop]

/-- **A text is the one that its bytes decode to.** -/
@[simp] theorem decode_encode (s : String) : decode (encode s) = s := by
  rw [decode, encode_eq, decodeFrom_flatMap, String.ofList_toList]

theorem encode_injective {s t : String} (h : encode s = encode t) : s = t := by
  rw [← decode_encode s, h, decode_encode]

end PageSvg.Utf8
