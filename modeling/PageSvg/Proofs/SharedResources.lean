import Mathlib.Data.Option.Basic
import PageSvg.Proofs.Keyed
import PageSvg.Resource.Cache

/-!
# What pages share

Fonts and colour spaces are shared under the numbers of their objects. An entry never changes, and
there is an entry only where something was found. If names with one number always stand for the same
thing, it makes no difference whether an entry or the resource of the page itself is taken.
-/

namespace PageSvg

variable {α β : Type}

namespace ResourceCache

/-! ### Entries -/

/-- The entry comes out, or else what was found just now. -/
theorem fst_findOrAdd (entries : List (Nat × β)) (key : Nat) (found : Option β) :
    (findOrAdd entries key found).1 = (entries.lookup key).or found := by
  unfold findOrAdd
  cases entries.lookup key with
  | some entry => rfl
  | none => cases found <;> rfl

/-- Entries stay as they are. What was found just now becomes the entry under its number, if there
is none yet and anything was found. -/
theorem lookup_findOrAdd (entries : List (Nat × β)) (key other : Nat) (found : Option β) :
    (findOrAdd entries key found).2.lookup other =
      (entries.lookup other).or (if other = key then found else none) := by
  unfold findOrAdd
  cases hentry : entries.lookup key with
  | some entry =>
    by_cases h : other = key
    · rw [h, hentry]
      rfl
    · rw [if_neg h, Option.or_none]
  | none =>
    cases found with
    | none => rw [ite_self, Option.or_none]
    | some value =>
      have hsingle : List.lookup other [(key, value)] = if other = key then some value else none := by
        by_cases h : other = key
        · rw [if_pos h, h, List.lookup_cons_self]
        · rw [if_neg h, List.lookup_cons, beq_false_of_ne h]
          rfl
      exact List.lookup_append.trans (congrArg _ hsingle)

theorem mem_of_lookup {κ : Type} [BEq κ] [LawfulBEq κ] {entries : List (κ × β)} {key : κ} {entry : β}
    (h : entries.lookup key = some entry) : (key, entry) ∈ entries := by
  obtain ⟨before, after, hentries, _⟩ := List.lookup_eq_some_iff.1 h
  rw [hentries]
  exact List.mem_append_right _ List.mem_cons_self

/-- What was an entry before is one, or it was found just now. -/
theorem mem_findOrAdd {entries : List (Nat × β)} {key : Nat} {found : Option β} {entry : Nat × β}
    (h : entry ∈ (findOrAdd entries key found).2) :
    entry ∈ entries ∨ entry.1 = key ∧ found = some entry.2 := by
  unfold findOrAdd at h
  split at h
  · exact .inl h
  · rcases List.mem_append.1 h with h | h
    · exact .inl h
    · rw [List.mem_singleton.1 h]
      exact .inr ⟨rfl, rfl⟩
  · exact .inl h

/-- All entries of `k` are entries of `l`, under the same numbers. -/
structure Grows (k l : ResourceCache α) : Prop where
  fonts : ∀ key f, k.fonts.lookup key = some f → l.fonts.lookup key = some f
  colorSpaces : ∀ key space, k.colorSpaces.lookup key = some space →
    l.colorSpaces.lookup key = some space

theorem Grows.refl (k : ResourceCache α) : k.Grows k := ⟨fun _ _ h => h, fun _ _ h => h⟩

theorem Grows.trans {k l m : ResourceCache α} (h : k.Grows l) (h' : l.Grows m) : k.Grows m :=
  ⟨fun key f hf => h'.fonts key f (h.fonts key f hf),
    fun key space hs => h'.colorSpaces key space (h.colorSpaces key space hs)⟩

/-- Fonts and colour spaces have numbers of their own: a font leaves the colour spaces alone. -/
theorem grows_font (k : ResourceCache α) (key : Nat) (found : Option (Font α)) :
    k.Grows (k.font key found).2 where
  fonts other f hf := by
    refine (lookup_findOrAdd k.fonts key other found).trans ?_
    rw [hf]
    rfl
  colorSpaces _ _ h := h

theorem grows_colorSpace (k : ResourceCache α) (key : Nat) (found : Option (ColorSpace α)) :
    k.Grows (k.colorSpace key found).2 where
  fonts _ _ h := h
  colorSpaces other space hs := by
    refine (lookup_findOrAdd k.colorSpaces key other found).trans ?_
    rw [hs]
    rfl

/-- A search that found nothing leaves nothing behind. -/
theorem snd_findOrAdd_none (entries : List (Nat × β)) (key : Nat) :
    (findOrAdd entries key none).2 = entries := by
  unfold findOrAdd
  cases entries.lookup key <;> rfl

theorem font_none (k : ResourceCache α) (key : Nat) : (k.font key none).2 = k :=
  congrArg (fun fonts => { k with fonts }) (snd_findOrAdd_none k.fonts key)

theorem colorSpace_none (k : ResourceCache α) (key : Nat) : (k.colorSpace key none).2 = k :=
  congrArg (fun colorSpaces => { k with colorSpaces }) (snd_findOrAdd_none k.colorSpaces key)

/-! ### What was found in a library -/

/-- Each entry was found in the library, under its number. -/
structure FoundIn (library : Library α) (k : ResourceCache α) : Prop where
  fonts : ∀ entry ∈ k.fonts, ∃ set ∈ library, ∃ name,
    set.key? .font name = some entry.1 ∧ set.fonts.get? name = some entry.2
  colorSpaces : ∀ entry ∈ k.colorSpaces, ∃ set ∈ library, ∃ name,
    ColorSpace.predefined? (α := α) name = none ∧
      set.key? .colorSpace name = some entry.1 ∧ set.colorSpaces.get? name = some entry.2

theorem foundIn_empty (library : Library α) : FoundIn library {} :=
  ⟨fun _ h => absurd h List.not_mem_nil, fun _ h => absurd h List.not_mem_nil⟩

end ResourceCache

/-- Names with one number stand for the same font, and for colour spaces that are the `same`, or all
of them stand for nothing. Names of predefined spaces are never looked for. -/
structure Library.Coherent (library : Library α) (same : ColorSpace α → ColorSpace α → Prop) :
    Prop where
  fonts : ∀ set ∈ library, ∀ set' ∈ library, ∀ {name name' key},
    set.key? .font name = some key → set'.key? .font name' = some key →
    set.fonts.get? name = set'.fonts.get? name'
  colorSpaces : ∀ set ∈ library, ∀ set' ∈ library, ∀ {name name' key},
    ColorSpace.predefined? (α := α) name = none → ColorSpace.predefined? (α := α) name' = none →
    set.key? .colorSpace name = some key → set'.key? .colorSpace name' = some key →
    Option.Rel same (set.colorSpaces.get? name) (set'.colorSpaces.get? name')

/-- A set in which a name has a number is in the library. -/
theorem Library.mem_of_key? {library : Library α} {id : SetId} {kind : SharedKind} {name : String}
    {key : Nat} (h : (library.set id).key? kind name = some key) : library.set id ∈ library := by
  unfold Library.set Array.getD at h ⊢
  split
  · exact Array.getElem_mem _
  · next hid =>
    rw [dif_neg hid] at h
    cases h

section Finding

variable {library : Library α} {same : ColorSpace α → ColorSpace α → Prop} {k : ResourceCache α}
  {set : ResourceSet α} {name : String} {key : Nat}

/-- It does not matter whether a font is taken from the entries or from the page. -/
theorem ResourceCache.FoundIn.font (hk : k.FoundIn library) (hlibrary : library.Coherent same)
    (hset : set ∈ library) (hkey : set.key? .font name = some key) :
    (k.font key (set.fonts.get? name)).1 = set.fonts.get? name ∧
      (k.font key (set.fonts.get? name)).2.FoundIn library := by
  refine ⟨(fst_findOrAdd ..).trans ?_, fun entry hentry => ?_, hk.colorSpaces⟩
  · cases hentry : k.fonts.lookup key with
    | none => rfl
    | some f =>
      obtain ⟨set', hset', name', hkey', hf⟩ := hk.fonts _ (mem_of_lookup hentry)
      exact (hf.symm.trans (hlibrary.fonts set' hset' set hset hkey' hkey))
  · rcases mem_findOrAdd hentry with hentry | ⟨rfl, hfound⟩
    · exact hk.fonts entry hentry
    · exact ⟨set, hset, name, hkey, hfound⟩

/-- The colour space that is taken from the entries is the same as that of the page. -/
theorem ResourceCache.FoundIn.colorSpace (hk : k.FoundIn library) (hlibrary : library.Coherent same)
    (hrefl : ∀ space, same space space) (hset : set ∈ library)
    (hname : ColorSpace.predefined? (α := α) name = none)
    (hkey : set.key? .colorSpace name = some key) :
    Option.Rel same (k.colorSpace key (set.colorSpaces.get? name)).1 (set.colorSpaces.get? name) ∧
      (k.colorSpace key (set.colorSpaces.get? name)).2.FoundIn library := by
  refine ⟨?_, hk.fonts, fun entry hentry => ?_⟩
  · show Option.Rel same (findOrAdd ..).1 _
    rw [fst_findOrAdd]
    cases hentry : k.colorSpaces.lookup key with
    | none =>
      rw [Option.none_or]
      cases set.colorSpaces.get? name with
      | none => exact .none
      | some space => exact .some (hrefl space)
    | some space =>
      obtain ⟨set', hset', name', hname', hkey', hspace⟩ :=
        hk.colorSpaces _ (mem_of_lookup hentry)
      have hsame := hlibrary.colorSpaces set' hset' set hset hname' hname hkey' hkey
      rwa [hspace] at hsame
  · rcases mem_findOrAdd hentry with hentry | ⟨rfl, hfound⟩
    · exact hk.colorSpaces entry hentry
    · exact ⟨set, hset, name, hname, hkey, hfound⟩

end Finding

end PageSvg
