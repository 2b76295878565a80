import PageSvg.Scene.Definitions

/-!
# Identifiers of definitions

An identifier is its kind and hexadecimal digits, so identifiers of different kinds differ and no
separator of keys or declarations stands in one.
-/

namespace PageSvg

/-- The characters of a digest. -/
def hexDigits : List Char := "0123456789abcdef".toList

theorem digitChar_mem_hexDigits {n : Nat} (h : n < 16) : Nat.digitChar n ∈ hexDigits := by
  have hall : ∀ n : Fin 16, Nat.digitChar n ∈ hexDigits := by decide
  exact hall ⟨n, h⟩

theorem mem_hexText {bytes : List UInt8} {c : Char} (h : c ∈ (Digest.hexText bytes).toList) :
    c ∈ hexDigits := by
  rw [Digest.hexText, String.toList_ofList, List.mem_flatMap] at h
  obtain ⟨b, _, hc⟩ := h
  have hb := b.toNat_lt
  simp only [List.mem_cons, List.not_mem_nil, or_false] at hc
  rcases hc with rfl | rfl
  · exact digitChar_mem_hexDigits (by omega)
  · exact digitChar_mem_hexDigits (by omega)

/-- An identifier is its kind and some hexadecimal digits. -/
theorem toList_stableId (kind key : String) :
    ∃ digits, (stableId kind key).toList = kind.toList ++ digits ∧ ∀ c ∈ digits, c ∈ hexDigits := by
  refine ⟨((Digest.hexText (Digest.md5 (Utf8.encode key))).take 10).toString.toList, ?_, ?_⟩
  · rw [stableId, String.toList_append]
  · intro c hc
    have hcopy : ((Digest.hexText (Digest.md5 (Utf8.encode key))).take 10).toString.toList =
        (Digest.hexText (Digest.md5 (Utf8.encode key))).toList.take 10 := String.toList_copy_take
    rw [hcopy] at hc
    exact mem_hexText (List.mem_of_mem_take hc)

/-- A character that is neither in the kind nor a digit does not stand in the identifier. -/
theorem notMem_stableId {kind key : String} {c : Char} (hkind : c ∉ kind.toList)
    (hdigit : c ∉ hexDigits) : c ∉ (stableId kind key).toList := by
  obtain ⟨digits, h, hdigits⟩ := toList_stableId kind key
  rw [h, List.mem_append]
  exact fun hc => hc.elim hkind fun hc => hdigit (hdigits c hc)

/-- The kinds of shared definitions, apart from clip regions. -/
def definitionKinds : List String := ["img", "mask", "grad", "pat", "smask"]

/-- The identifier of a definition other than a clip region. -/
def IsDefinitionId (id : String) : Prop := ∃ kind ∈ definitionKinds, ∃ key, id = stableId kind key

theorem isDefinitionId {kind : String} (h : kind ∈ definitionKinds) (key : String) :
    IsDefinitionId (stableId kind key) := ⟨kind, h, key, rfl⟩

theorem IsDefinitionId.semicolon_notMem {id : String} (h : IsDefinitionId id) :
    ';' ∉ id.toList := by
  obtain ⟨kind, hkind, key, rfl⟩ := h
  have hall : ∀ kind ∈ definitionKinds, ';' ∉ kind.toList := by decide
  exact notMem_stableId (hall kind hkind) (by decide)

/-- Kinds that begin with different letters have no name in common. -/
theorem stableId_ne {kind kind' : String} {c c' : Char} {rest rest' : List Char}
    (hkind : kind.toList = c :: rest) (hkind' : kind'.toList = c' :: rest') (hne : c ≠ c')
    (key key' : String) : stableId kind key ≠ stableId kind' key' := by
  intro e
  obtain ⟨digits, h, _⟩ := toList_stableId kind key
  obtain ⟨digits', h', _⟩ := toList_stableId kind' key'
  rw [e, h', hkind, hkind'] at h
  exact hne (List.cons.inj h).1.symm

/-- A definition is not named like a clip region. -/
theorem IsDefinitionId.ne_clip {id : String} (h : IsDefinitionId id) (key : String) :
    id ≠ stableId "clip" key := by
  obtain ⟨kind, hkind, key', rfl⟩ := h
  have hall : ∀ kind ∈ definitionKinds, ∃ c rest, kind.toList = c :: rest ∧ c ≠ 'c' := by
    simp only [definitionKinds, List.forall_mem_cons]
    exact ⟨⟨_, _, rfl, by decide⟩, ⟨_, _, rfl, by decide⟩, ⟨_, _, rfl, by decide⟩,
      ⟨_, _, rfl, by decide⟩, ⟨_, _, rfl, by decide⟩, by simp⟩
  obtain ⟨c, rest, hc, hne⟩ := hall kind hkind
  have hclip : "clip".toList = 'c' :: ['l', 'i', 'p'] := by decide
  exact stableId_ne hc hclip hne _ _

end PageSvg
