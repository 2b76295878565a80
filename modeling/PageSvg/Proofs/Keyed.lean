import Mathlib.Data.List.Basic
import Mathlib.Data.List.Nodup
import PageSvg.Keyed

/-!
# Lookups in keyed entries

Where no key is repeated, a lookup is membership, so it does not depend on the order of the entries
and a key that is new is simply added at the end.
-/

namespace PageSvg.Keyed

variable {β : Type} {entries : Keyed β} {key : String} {value : β}

/-- The keys of entries, in order. -/
def keys (entries : Keyed β) : List String := entries.map Prod.fst

@[simp] theorem keys_nil : keys ([] : Keyed β) = [] := rfl

@[simp] theorem keys_cons (entry : String × β) (rest : Keyed β) :
    keys (entry :: rest) = entry.1 :: keys rest := rfl

@[simp] theorem keys_append (l m : Keyed β) : keys (l ++ m) = keys l ++ keys m :=
  List.map_append

theorem mem_keys_of_mem {entry : String × β} (h : entry ∈ entries) : entry.1 ∈ keys entries :=
  List.mem_map_of_mem (f := Prod.fst) h

@[simp] theorem get?_nil : get? ([] : Keyed β) key = none := rfl

theorem get?_cons (k : String) (v : β) (rest : Keyed β) :
    get? ((k, v) :: rest) key = if key = k then some v else get? rest key := by
  by_cases h : key = k
  · simp [get?, h]
  · simp [get?, List.lookup_cons, h, beq_eq_false_iff_ne.2 h]

theorem get?_eq_none_iff : get? entries key = none ↔ key ∉ keys entries := by
  induction entries with
  | nil => simp
  | cons entry rest ih =>
    obtain ⟨k, v⟩ := entry
    by_cases h : key = k <;> simp [get?_cons, h, ih]

theorem mem_of_get? (h : get? entries key = some value) : (key, value) ∈ entries := by
  induction entries with
  | nil => simp at h
  | cons entry rest ih =>
    obtain ⟨k, v⟩ := entry
    rw [get?_cons] at h
    split_ifs at h with hk
    · cases h
      simp [hk]
    · exact List.mem_cons_of_mem _ (ih h)

/-- Where no key is repeated, the entry under a key is the one that is there. -/
theorem get?_eq_some_iff (hn : (keys entries).Nodup) :
    get? entries key = some value ↔ (key, value) ∈ entries := by
  refine ⟨mem_of_get?, fun h => ?_⟩
  induction entries with
  | nil => simp at h
  | cons entry rest ih =>
    obtain ⟨k, v⟩ := entry
    obtain ⟨hk, hrest⟩ := List.nodup_cons.1 hn
    rw [get?_cons]
    rcases List.mem_cons.1 h with h | h
    · cases h
      exact if_pos rfl
    · have hkey := mem_keys_of_mem h
      rw [if_neg fun e : key = k => hk (e ▸ hkey)]
      exact ih hrest h

/-- Lookups in two lists of entries without repeated keys agree where their entries do. -/
theorem get?_congr {other : Keyed β} (hn : (keys entries).Nodup) (hm : (keys other).Nodup)
    (h : ∀ value, (key, value) ∈ entries ↔ (key, value) ∈ other) :
    get? entries key = get? other key := by
  ext value
  rw [get?_eq_some_iff hn, get?_eq_some_iff hm, h]

theorem contains_eq_false_iff : contains entries key = false ↔ key ∉ keys entries := by
  rw [contains, Option.isSome_eq_false_iff, Option.isNone_iff_eq_none, get?_eq_none_iff]

theorem contains_iff_mem_keys : contains entries key = true ↔ key ∈ keys entries := by
  rw [← not_iff_not, Bool.not_eq_true, contains_eq_false_iff]

/-- A new key comes last. -/
theorem insert_of_notMem (h : key ∉ keys entries) :
    insert entries key value = entries ++ [(key, value)] := by
  induction entries with
  | nil => rfl
  | cons entry rest ih =>
    obtain ⟨k, v⟩ := entry
    simp only [keys_cons, List.mem_cons, not_or] at h
    simp [insert, Ne.symm h.1, ih h.2]

theorem mem_of_mem_insert {entry : String × β} (h : entry ∈ insert entries key value) :
    entry = (key, value) ∨ entry ∈ entries := by
  induction entries with
  | nil => exact .inl (List.mem_singleton.1 h)
  | cons first rest ih =>
    obtain ⟨k, v⟩ := first
    simp only [insert] at h
    split_ifs at h with hk
    · rcases List.mem_cons.1 h with rfl | h
      · exact .inl (by rw [hk])
      · exact .inr (List.mem_cons_of_mem _ h)
    · rcases List.mem_cons.1 h with rfl | h
      · exact .inr List.mem_cons_self
      · exact (ih h).imp_right (List.mem_cons_of_mem _)

theorem get?_insert_self : get? (insert entries key value) key = some value := by
  induction entries with
  | nil => simp [insert, get?_cons]
  | cons first rest ih =>
    obtain ⟨k, v⟩ := first
    simp only [insert]
    split_ifs with hk
    · rw [get?_cons, if_pos hk.symm]
    · rw [get?_cons, if_neg (Ne.symm hk), ih]

theorem get?_insert_of_ne {other : String} (h : other ≠ key) :
    get? (insert entries key value) other = get? entries other := by
  induction entries with
  | nil => simp [insert, get?_cons, h]
  | cons first rest ih =>
    obtain ⟨k, v⟩ := first
    simp only [insert]
    split_ifs with hk
    · subst hk
      rw [get?_cons, get?_cons, if_neg h, if_neg h]
    · rw [get?_cons, get?_cons, ih]

end PageSvg.Keyed
