import Mathlib.Data.List.Induction
import PageSvg.Proofs.Content.RoundTrip

/-!
# Entries of a dictionary

The keys and values of a dictionary stand in one list. A name takes the item after it as its value,
whatever that is; an item in the place of a key that is no name is dropped alone, so what stands
after it is in the place of a key. Pairs are therefore found again as long as the value behind such
a key is no name either.
-/

namespace PageSvg

/-! ### Collecting pairs -/

namespace Keyed

variable {β : Type} {pairs : List (String × β)} {entries : Keyed β}

/-- Entries gather pairs: each key has the place where it came in first and the value that came in
last. -/
structure Gathers (pairs : List (String × β)) (entries : Keyed β) : Prop where
  places : keys entries = (keys pairs).eraseDups
  values : ∀ key, entries.get? key = get? pairs.reverse key

theorem keys_insert (entries : Keyed β) (key : String) (value : β) :
    keys (entries.insert key value) =
      if key ∈ keys entries then keys entries else keys entries ++ [key] := by
  by_cases h : key ∈ keys entries
  · rw [if_pos h]
    induction entries with
    | nil => cases h
    | cons first rest ih =>
      obtain ⟨k, v⟩ := first
      simp only [insert]
      split_ifs with hk
      · rfl
      · have hrest : key ∈ keys rest := (List.mem_cons.1 h).resolve_left (Ne.symm hk)
        rw [keys_cons, keys_cons, ih hrest]
  · rw [if_neg h, insert_of_notMem h, keys_append]
    rfl

/-- One more pair keeps the place of its key, if that has one, and gives it its value. -/
theorem Gathers.insert (h : Gathers pairs entries) (key : String) (value : β) :
    Gathers (pairs ++ [(key, value)]) (entries.insert key value) where
  places := by
    have hmem : key ∈ keys entries ↔ key ∈ keys pairs := by rw [h.places, List.mem_eraseDups]
    rw [keys_insert, keys_append, List.eraseDups_append, ← h.places]
    by_cases hkey : key ∈ keys pairs
    · rw [if_pos (hmem.2 hkey)]
      simp [List.removeAll, hkey]
    · rw [if_neg (mt hmem.1 hkey)]
      simp [List.removeAll, hkey, List.eraseDups_cons]
  values other := by
    rw [List.reverse_append, List.reverse_singleton, List.singleton_append, get?_cons]
    split_ifs with hother
    · rw [hother, get?_insert_self]
    · rw [get?_insert_of_ne hother, h.values]

theorem gathers_ofPairs (pairs : List (String × β)) : Gathers pairs (ofPairs pairs) := by
  induction pairs using List.reverseRecOn with
  | nil => exact ⟨rfl, fun _ => rfl⟩
  | append_singleton before pair ih =>
    have hlast : ofPairs (before ++ [pair]) = (ofPairs before).insert pair.1 pair.2 := by
      rw [ofPairs, List.foldl_append]
      rfl
    rw [hlast]
    exact ih.insert pair.1 pair.2

end Keyed

/-! ### Pairs in one list -/

namespace Operand

variable {α : Type} {ps : List (Operand α × Operand α)} {key : Operand α}

/-- Pairs of keys and values in one list. -/
def flat (ps : List (Operand α × Operand α)) : List (Operand α) :=
  ps.flatMap fun (key, value) => [key, value]

/-- The pairs whose key is a name. -/
def named (ps : List (Operand α × Operand α)) : List (String × Operand α) :=
  ps.filterMap fun (key, value) => key.name?.map (·, value)

/-- Behind a key that is no name, no value is one. -/
def Aligned (ps : List (Operand α × Operand α)) : Prop :=
  ∀ p ∈ ps, p.1.name? = none → p.2.name? = none

/-- What is no name is dropped alone in the place of a key. -/
theorem pairs_cons_of_not_name (h : key.name? = none) (rest : List (Operand α)) :
    pairs (key :: rest) = pairs rest := by
  cases key with
  | name text => cases h
  | _ => rfl

/-- A key without a value is passed over. -/
theorem pairs_singleton (key : Operand α) : pairs [key] = [] := by cases key <;> rfl

theorem pairs_flat_append (h : Aligned ps) (rest : List (Operand α)) :
    pairs (flat ps ++ rest) = named ps ++ pairs rest := by
  induction ps with
  | nil => rfl
  | cons p ps ih =>
    obtain ⟨key, value⟩ := p
    obtain ⟨hp, hps⟩ := List.forall_mem_cons.1 h
    have htail := ih hps
    show pairs (key :: value :: (flat ps ++ rest)) = _
    cases hkey : key.name? with
    | none =>
      rw [pairs_cons_of_not_name hkey, pairs_cons_of_not_name (hp hkey), htail]
      simp [named, hkey]
    | some text =>
      obtain rfl : key = .name text := by
        cases key with
        | name text' => exact congrArg name (Option.some.inj hkey)
        | _ => cases hkey
      show (text, value) :: pairs (flat ps ++ rest) = _
      rw [htail]
      rfl

/-- **A dictionary has the pairs whose key is a name**, a repeated name with its first place and its
last value, as long as no value behind another key is a name; a key at the end without a value is
passed over. Another key is dropped without its value: what follows is read as if the key were not
there. -/
theorem ofItems_flat (h : Aligned ps) :
    (∀ last : Option (Operand α),
      Keyed.Gathers (named ps) (ofItems (flat ps ++ last.toList))) ∧
    ∀ key rest, key.name? = none → ofItems (flat ps ++ key :: rest) = ofItems (flat ps ++ rest) := by
  constructor
  · intro last
    have hlast : pairs last.toList = [] := by
      cases last with
      | none => rfl
      | some key => exact pairs_singleton key
    rw [ofItems, pairs_flat_append h, hlast, List.append_nil]
    exact Keyed.gathers_ofPairs _
  · intro key rest hkey
    rw [ofItems, ofItems, pairs_flat_append h, pairs_flat_append h, pairs_cons_of_not_name hkey]

/-- A repeated name behind a pair of numbers; another number takes no name away from its value. -/
theorem ofItems_flat_repeated :
    let ps : List (Operand Float × Operand Float) :=
      [(.integer 1, .integer 2), (.name "A", .name "B"), (.name "C", .null), (.name "A", .integer 3)]
    Aligned ps ∧
      Keyed.Gathers [("A", .name "B"), ("C", .null), ("A", .integer 3)]
        (ofItems (flat ps ++ [.name "D"])) ∧
      ofItems (flat ps ++ .integer 4 :: [.name "D", .null]) =
        ofItems (flat ps ++ [.name "D", .null]) := by
  intro ps
  have haligned : Aligned ps := by simp [Aligned, ps, name?]
  obtain ⟨hgathers, hdropped⟩ := ofItems_flat haligned
  exact ⟨haligned, hgathers (some (.name "D")), hdropped (.integer 4) _ rfl⟩

/-- A number in the place of a key makes a key of the name behind it. -/
theorem ofItems_flat_shifted :
    let ps : List (Operand Float × Operand Float) :=
      [(.integer 1, .name "A"), (.name "B", .integer 2)]
    ofItems (flat ps) = [("A", .name "B")] ∧ named ps = [("B", .integer 2)] ∧
      ¬Keyed.Gathers (named ps) (ofItems (flat ps)) := by
  intro ps
  refine ⟨rfl, rfl, fun h => ?_⟩
  have hkeys : ["A"] = ["B"] := h.places
  exact absurd hkeys (by decide)

end Operand

end PageSvg
