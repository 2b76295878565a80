import Mathlib.Data.List.Basic
import PageSvg.CommandLine.Path

/-!
# Parts of paths

The parts of a path are what stands between its slashes, so joining them gives the path again.
Another extension changes the last part alone, except that a name such as `..a` loses what stands
behind its dots and then leads one level up.
-/

namespace PageSvg.CommandLine.Path

variable {path name extension : List Char} {before : List (List Char)}

/-! ### Splitting and joining -/

theorem split_eq_splitOn (path : List Char) : split path = path.splitOn '/' := by
  induction path with
  | nil => rfl
  | cons c path ih =>
    rw [split, ih, List.splitOn_cons_eq_if_modifyHead]
    by_cases h : c = '/'
    · simp [h]
    · obtain ⟨part, parts, hparts⟩ := List.exists_cons_of_ne_nil (List.splitOn_ne_nil '/' path)
      simp [h, hparts]

theorem split_ne_nil (path : List Char) : split path ≠ [] :=
  split_eq_splitOn path ▸ List.splitOn_ne_nil '/' path

theorem split_append_slash (path rest : List Char) :
    split (path ++ '/' :: rest) = split path ++ split rest := by
  simp only [split_eq_splitOn, List.splitOn_append_cons_self]

theorem split_of_notMem (h : '/' ∉ name) : split name = [name] :=
  split_eq_splitOn name ▸ List.splitOn_eq_singleton h

theorem join_split (path : List Char) : join (split path) = path :=
  split_eq_splitOn path ▸ List.intercalate_splitOn '/'

theorem notMem_of_mem_split {part : List Char} (h : part ∈ split path) : '/' ∉ part := by
  induction path generalizing part with
  | nil =>
    obtain rfl : part = [] := by simpa [split] using h
    simp
  | cons c path ih =>
    obtain ⟨first, parts, hparts⟩ := List.exists_cons_of_ne_nil (split_ne_nil path)
    rw [split, hparts] at h
    rw [hparts] at ih
    by_cases hc : c = '/'
    · rcases List.mem_cons.1 (if_pos hc ▸ h) with rfl | h
      · simp
      · exact ih h
    · rcases List.mem_cons.1 (if_neg hc ▸ h) with rfl | h
      · simpa [Ne.symm hc] using ih List.mem_cons_self
      · exact ih (List.mem_cons_of_mem _ h)

theorem split_join (hbefore : ∀ part ∈ before, '/' ∉ part) (hname : '/' ∉ name) :
    split (join (before ++ [name])) = before ++ [name] := by
  rw [split_eq_splitOn, join, List.splitOn_intercalate _ _ (by simp)]
  simpa [or_imp, forall_and] using ⟨hbefore, hname⟩

theorem join_append_append (before : List (List Char)) (name rest : List Char) :
    join (before ++ [name ++ rest]) = join (before ++ [name]) ++ rest := by
  induction before with
  | nil => simp [join]
  | cons part before ih =>
    have hcons (last : List Char) : join (part :: before ++ [last]) =
        part ++ ['/'] ++ join (before ++ [last]) :=
      List.intercalate_cons_of_ne_nil (by simp)
    rw [hcons, hcons, ih, List.append_assoc _ (join _)]

/-! ### Names -/

/-- A part that can be the name of a file. -/
structure IsLeaf (name : List Char) : Prop where
  slash : '/' ∉ name
  still : isStill name = false
  notUp : name ≠ up

theorem IsLeaf.ne_nil (h : IsLeaf name) : name ≠ [] := by
  rintro rfl
  exact absurd h.still (by decide)

theorem leaf?_of_split (hpath : split path = before ++ [name]) (h : isStill name = false) :
    leaf? path = if name = up then none else some (before, name) := by
  simp [leaf?, hpath, h]

/-- A name has an extension behind a stem that is not empty, or it is its own stem. -/
theorem splitName_cases (name : List Char) :
    splitName name = (name, none) ∨
      ∃ kept extension, splitName name = (kept, some extension) ∧ kept ≠ [] ∧
        name = kept ++ '.' :: extension := by
  unfold splitName
  split
  · exact .inl rfl
  · exact .inl rfl
  · next c kept hkept hrest =>
    have hne : name.reverse.dropWhile (· != '.') ≠ [] := hrest ▸ List.cons_ne_nil c kept
    have hc : c = '.' := by simpa [hrest] using List.head_dropWhile_not _ hne
    obtain ⟨back, hname⟩ := List.dropWhile_suffix (l := name.reverse) (· != '.')
    rw [hrest, hc] at hname
    have hname : name = kept.reverse ++ '.' :: back.reverse := by
      rw [← List.reverse_reverse name, ← hname]
      simp
    refine .inr ⟨kept.reverse, back.reverse, ?_, by simpa using hkept, hname⟩
    simp [hname, List.drop_append]

theorem splitName_dot {kept : List Char} (h : kept ≠ []) :
    splitName (kept ++ ['.']) = (kept, some []) := by
  obtain ⟨c, rest, hkept⟩ := List.exists_cons_of_ne_nil (List.reverse_ne_nil_iff.2 h)
  obtain rfl : kept = (c :: rest).reverse := by rw [← hkept, List.reverse_reverse]
  simp [splitName]

/-- What stands before the extension of a name. -/
def stem (name : List Char) : List Char := (splitName name).1

/-- The name with another extension. -/
def renamed (extension name : List Char) : List Char := stem name ++ '.' :: extension

theorem stem_ne_nil (h : name ≠ []) : stem name ≠ [] := by
  unfold stem
  rcases splitName_cases name with hnone | ⟨kept, old, hsome, hkept, -⟩
  · rwa [hnone]
  · rwa [hsome]

theorem notMem_stem {c : Char} (h : c ∉ name) : c ∉ stem name := by
  unfold stem
  rcases splitName_cases name with hnone | ⟨kept, old, hsome, -, hname⟩
  · rwa [hnone]
  · rw [hsome]
    rw [hname] at h
    exact fun hc => h (List.mem_append_left _ hc)

theorem IsLeaf.renamed (h : IsLeaf name) (hslash : '/' ∉ extension) (hne : extension ≠ []) :
    IsLeaf (renamed extension name) where
  slash := by simp [Path.renamed, notMem_stem h.slash, hslash]
  still := by
    obtain ⟨c, rest, hstem⟩ := List.exists_cons_of_ne_nil (stem_ne_nil h.ne_nil)
    simp [Path.renamed, isStill, hstem]
  notUp := by
    obtain ⟨c, rest, hstem⟩ := List.exists_cons_of_ne_nil (stem_ne_nil h.ne_nil)
    obtain ⟨d, back, rfl⟩ := List.exists_cons_of_ne_nil hne
    cases rest <;> simp [Path.renamed, up, hstem]

theorem setExtension_of_split (hpath : split path = before ++ [name]) (h : IsLeaf name) :
    setExtension extension path = join (before ++ [renamed extension name]) := by
  rw [setExtension, leaf?_of_split hpath h.still, if_neg h.notUp]
  rfl

/-- The dot before the extension of a name stays, and with a dot before it leads one level up. -/
theorem setExtension_dropped {kept : List Char} (hpath : split path = before ++ [kept ++ ['.']])
    (h : kept ≠ []) :
    setExtension extension path =
      if kept = ['.'] then path else join (before ++ [kept ++ '.' :: extension]) := by
  obtain ⟨c, rest, rfl⟩ := List.exists_cons_of_ne_nil h
  have hstill : isStill (c :: rest ++ ['.']) = false := by simp [isStill]
  have hup : c :: rest ++ ['.'] = up ↔ c :: rest = ['.'] := by simp [up]
  rw [setExtension, leaf?_of_split hpath hstill]
  simp only [hup]
  split_ifs
  · rfl
  · simp only [splitName_dot h]

/-- Another extension changes the name at the end of a path, or leaves a path one level up. -/
theorem withExtension_of_split (hpath : split path = before ++ [name]) (h : IsLeaf name) :
    withExtension extension path =
      join (before ++ [if stem name = ['.'] then up else renamed extension name]) := by
  have hbefore (part : List Char) (hpart : part ∈ before) : '/' ∉ part :=
    notMem_of_mem_split (hpath ▸ List.mem_append_left _ hpart)
  have hleaf : leaf? path = some (before, name) := by
    rw [leaf?_of_split hpath h.still, if_neg h.notUp]
  rcases splitName_cases name with hnone | ⟨kept, old, hsome, hkept, hname⟩
  · have hstem : stem name ≠ ['.'] := by
      rw [stem, hnone]
      rintro rfl
      exact absurd h.still (by decide)
    have hdrop : dropExtension path = path := by simp [dropExtension, hleaf, hnone]
    rw [withExtension, hdrop, setExtension_of_split hpath h, if_neg hstem]
  · have hstem : stem name = kept := by rw [stem, hsome]
    have hslash : '/' ∉ kept ++ ['.'] := by
      simpa [hstem] using notMem_stem h.slash
    have hdrop : dropExtension path = join (before ++ [kept ++ ['.']]) := by
      have hjoin : path = join (before ++ [kept ++ ['.']]) ++ old := by
        rw [← join_append_append, List.append_assoc, List.singleton_append, ← hname, ← hpath,
          join_split]
      simp only [dropExtension, hleaf, Option.bind_some, hsome]
      rw [hjoin]
      simp
    rw [withExtension, hdrop, setExtension_dropped (split_join hbefore hslash) hkept, hstem,
      renamed, hstem]
    split_ifs with hdot
    · rw [hdot]
      rfl
    · rfl

/-- The path of a name in a directory, whose last slash does not count. -/
theorem split_inDirectory (directory : List Char) (hname : '/' ∉ name) :
    ∃ parts, parts ≠ [] ∧ split (inDirectory directory name) = parts ++ [name] ∧
      (split directory = parts ∨ split directory = parts ++ [[]]) := by
  rw [inDirectory]
  split_ifs with h
  · obtain ⟨front, rfl⟩ : ∃ front, directory = front ++ ['/'] :=
      ⟨directory.dropLast, (List.dropLast_append_getLast? '/' h).symm⟩
    refine ⟨split front, split_ne_nil front, ?_, .inr (split_append_slash front [])⟩
    rw [List.append_assoc, List.singleton_append, split_append_slash, split_of_notMem hname]
  · refine ⟨split directory, split_ne_nil directory, ?_, .inl rfl⟩
    rw [split_append_slash, split_of_notMem hname]

end PageSvg.CommandLine.Path
