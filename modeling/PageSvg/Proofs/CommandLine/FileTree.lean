import PageSvg.CommandLine.FileTree
import PageSvg.Proofs.CommandLine.Path

/-!
# Where paths lead

A path leads through directories to a last part. Which directories these are does not depend on the
files of the tree, so a path leads to the same place while files are written, and two paths that
differ in their last parts lead into one directory.
-/

namespace PageSvg.CommandLine

open CommandLine.Path (split up isStill IsLeaf)

namespace FileTree

variable {t t' : FileTree} {before : List (List Char)} {name : List Char} {path : String}

/-! ### Directories -/

/-- Where one begins to follow the parts of a path. -/
def start (parts : List (List Char)) : Place :=
  if parts.head? = some [] then [] else Place.work

/-- The directory that the parts of a path lead to from another directory, if all of them do. -/
def walk (t : FileTree) (directory : Place) : List (List Char) → Option Place
  | [] => some directory
  | part :: rest =>
    if isStill part then t.walk directory rest
    else if part = up then t.walk directory.dropLast rest
    else if t.isDirectory (directory ++ [part]) then t.walk (directory ++ [part]) rest
    else none

/-- The directory that a path leads to. -/
def directoryAt? (t : FileTree) (path : List Char) : Option Place :=
  t.walk (start (split path)) (split path)

theorem isDirectory_congr (h : t'.directories = t.directories) (place : Place) :
    t'.isDirectory place = t.isDirectory place := by
  rw [isDirectory, isDirectory, h]

theorem walk_congr (h : t'.directories = t.directories) (directory : Place)
    (parts : List (List Char)) : t'.walk directory parts = t.walk directory parts := by
  induction parts generalizing directory with
  | nil => rfl
  | cons part rest ih => simp only [walk, isDirectory_congr h, ih]

theorem walk_append_nil (directory : Place) (parts : List (List Char)) :
    t.walk directory (parts ++ [[]]) = t.walk directory parts := by
  induction parts generalizing directory with
  | nil => rfl
  | cons part rest ih => simp only [List.cons_append, walk, ih]

/-- A slash at the end of the path of a directory does not count. -/
theorem directoryAt?_eq_walk {directory : List Char} {parts : List (List Char)} (hne : parts ≠ [])
    (hparts : split directory = parts ∨ split directory = parts ++ [[]]) :
    t.directoryAt? directory = t.walk (start parts) parts := by
  unfold directoryAt?
  rcases hparts with h | h
  · rw [h]
  · have hstart : start (parts ++ [[]]) = start parts := by
      rw [start, start, List.head?_append_of_ne_nil _ hne]
    rw [h, walk_append_nil, hstart]

/-- The last part of a path is followed from the directory that the other parts lead to. -/
theorem follow_append (directory : Place) (parts : List (List Char)) (last : List Char) :
    t.follow directory (parts ++ [last]) =
      ((t.walk directory parts).map fun d => t.follow d [last]).getD .nowhere := by
  induction parts generalizing directory with
  | nil => rfl
  | cons part rest ih =>
    simp only [List.cons_append, follow, walk, ih]
    split_ifs <;> simp_all

theorem locate_eq_follow (hpath : path.toList ≠ []) :
    t.locate path =
      if isPath path then t.follow (start (split path.toList)) (split path.toList)
      else .nowhere := by
  rw [locate]
  cases isPath path with
  | false => rfl
  | true =>
    simp only [Bool.not_true, Bool.false_eq_true, if_false, if_true]
    split
    · contradiction
    · next rest hrest => simp [hrest, split, start, follow, isStill]
    · next _ hroot =>
      obtain ⟨c, rest, hc⟩ := List.exists_cons_of_ne_nil hpath
      have hslash : c ≠ '/' := fun e => hroot rest (e ▸ hc)
      obtain ⟨part, parts, hparts⟩ := List.exists_cons_of_ne_nil (Path.split_ne_nil rest)
      simp [hc, split, hslash, hparts, start]

/-- A path whose last part is not empty leads to what that part names in the directory before it. -/
theorem locate_of_split (hpath : split path.toList = before ++ [name]) (hname : name ≠ []) :
    t.locate path =
      if isPath path then
        ((t.walk (start before) before).map fun d => t.follow d [name]).getD .nowhere
      else .nowhere := by
  have hne : path.toList ≠ [] := by
    intro e
    rw [e, split, List.singleton_eq_append_iff] at hpath
    simp_all
  have hstart : start (before ++ [name]) = start before := by
    cases before <;> simp [start, hname]
  rw [locate_eq_follow hne, hpath, hstart, follow_append]

/-! ### Names of files -/

theorem follow_leaf (directory : Place) (hname : IsLeaf name) :
    t.follow directory [name] =
      if t.isDirectory (directory ++ [name]) then .directory
      else if isName name then t.contentAt (directory ++ [name]) else .nowhere := by
  simp [follow, hname.still, hname.notUp]

/-- At the end of the path there is a file, a device, or room for a file. -/
def PathEnd.IsOpen : PathEnd → Prop
  | .directory | .nowhere => False
  | _ => True

/-- The path leads to a name in a directory, under which there is no directory. -/
structure LeadsTo (t : FileTree) (path : String) (directory : Place) (name : List Char) : Prop where
  walked : ∃ before, split path.toList = before ++ [name] ∧
    t.walk (start before) before = some directory
  leaf : IsLeaf name
  isPath : isPath path = true
  isName : isName name = true
  free : t.isDirectory (directory ++ [name]) = false

theorem LeadsTo.locate_eq {directory : Place} (h : t.LeadsTo path directory name) :
    t.locate path = t.contentAt (directory ++ [name]) := by
  obtain ⟨before, hpath, hwalk⟩ := h.walked
  rw [locate_of_split hpath h.leaf.ne_nil, if_pos h.isPath, hwalk, Option.map_some,
    Option.getD_some, follow_leaf directory h.leaf, h.free, h.isName]
  rfl

/-- Files do not change where a path leads. -/
theorem LeadsTo.congr {directory : Place} (h : t.LeadsTo path directory name)
    (hdirectories : t'.directories = t.directories) : t'.LeadsTo path directory name where
  walked := by simpa only [walk_congr hdirectories] using h.walked
  leaf := h.leaf
  isPath := h.isPath
  isName := h.isName
  free := by rw [isDirectory_congr hdirectories, h.free]

theorem leadsTo_of_isOpen (hpath : split path.toList = before ++ [name]) (hname : IsLeaf name)
    (hopen : (t.locate path).IsOpen) :
    ∃ directory, t.walk (start before) before = some directory ∧ t.LeadsTo path directory name := by
  rw [locate_of_split hpath hname.ne_nil] at hopen
  split_ifs at hopen with hlength
  · cases hwalk : t.walk (start before) before with
    | none => simp [hwalk, PathEnd.IsOpen] at hopen
    | some directory =>
      rw [hwalk, Option.map_some, Option.getD_some, follow_leaf directory hname] at hopen
      split_ifs at hopen with hfree hname'
      · exact hopen.elim
      · exact ⟨directory, rfl, ⟨before, hpath, hwalk⟩, hname, hlength, hname', by simpa using hfree⟩
      · exact hopen.elim
  · exact hopen.elim

theorem exists_leadsTo (hopen : (t.locate path).IsOpen) :
    ∃ directory name, t.LeadsTo path directory name := by
  obtain ⟨before, name, hpath⟩ : ∃ before name, split path.toList = before ++ [name] :=
    ⟨_, _, (List.dropLast_append_getLast (Path.split_ne_nil path.toList)).symm⟩
  have hne : path.toList ≠ [] := by
    intro e
    simp [locate, e, PathEnd.IsOpen] at hopen
  -- A part that is no name of a file leads to a directory.
  have hnot : ¬ (isStill name = true ∨ name = up) := by
    intro h
    have hfollow (directory : Place) : t.follow directory [name] = .directory := by
      rcases h with h | rfl
      · simp [follow, h]
      · simp [follow]
    rw [locate_eq_follow hne, hpath, follow_append] at hopen
    split_ifs at hopen
    · cases hwalk : t.walk (start (before ++ [name])) before <;>
        simp [hwalk, hfollow, PathEnd.IsOpen] at hopen
    · exact hopen
  obtain ⟨hstill, hup⟩ := not_or.1 hnot
  have hmem : name ∈ split path.toList := by simp [hpath]
  have hleaf : IsLeaf name :=
    ⟨Path.notMem_of_mem_split hmem, by simpa using hstill, hup⟩
  obtain ⟨directory, -, h⟩ := leadsTo_of_isOpen hpath hleaf hopen
  exact ⟨directory, name, h⟩

/-! ### Writing files -/

@[simp] theorem directories_insert (place : Place) (bytes : List UInt8) :
    (t.insert place bytes).directories = t.directories := rfl

theorem lookup_insert (place other : Place) (bytes : List UInt8) :
    (t.insert place bytes).files.lookup other =
      if other = place then some bytes else t.files.lookup other := by
  rw [insert, List.lookup_append]
  by_cases hother : other = place
  · have hfilter : (t.files.filter (·.1 != place)).lookup place = none := by
      rw [List.lookup_eq_none_iff]
      intro entry hentry
      simpa [beq_eq_false_iff_ne, ne_comm] using (List.mem_filter.1 hentry).2
    simp [hother, hfilter]
  · have hfilter : (t.files.filter (·.1 != place)).lookup other = t.files.lookup other := by
      induction t.files with
      | nil => rfl
      | cons entry rest ih =>
        by_cases hkey : entry.1 = place
        · have hne : (other == entry.1) = false := by simpa [hkey] using hother
          rw [List.filter_cons_of_neg (by simpa using hkey), ih, List.lookup_cons, hne]
        · rw [List.filter_cons_of_pos (by simpa using hkey), List.lookup_cons, List.lookup_cons, ih]
    rw [hfilter, if_neg hother, List.lookup_cons, beq_eq_false_iff_ne.2 hother]
    exact Option.or_none

/-- Writes files one after the other. -/
def insertAll (t : FileTree) (written : List (Place × List UInt8)) : FileTree :=
  written.foldl (fun t file => t.insert file.1 file.2) t

@[simp] theorem directories_insertAll (written : List (Place × List UInt8)) :
    (t.insertAll written).directories = t.directories := by
  induction written generalizing t with
  | nil => rfl
  | cons file rest ih => exact ih

/-- A file has the content that was written last. -/
theorem lookup_insertAll (written : List (Place × List UInt8)) (place : Place) :
    (t.insertAll written).files.lookup place =
      (written.reverse.lookup place).or (t.files.lookup place) := by
  induction written generalizing t with
  | nil => rfl
  | cons file rest ih =>
    obtain ⟨other, bytes⟩ := file
    show ((t.insert other bytes).insertAll rest).files.lookup place = _
    rw [ih, lookup_insert, List.reverse_cons, List.lookup_append, List.lookup_cons, Option.or_assoc]
    by_cases h : place = other
    · simp [h]
    · simp [h, beq_eq_false_iff_ne.2 h]

/-! ### Reading and creating files -/

theorem isOpen_of_read {bytes : List UInt8} (h : t.read path = .content bytes) :
    (t.locate path).IsOpen := by
  rw [read] at h
  cases hlocate : t.locate path <;> simp_all [PathEnd.IsOpen]

/-- No device has the name of a document. -/
theorem lookup_devices (directory : Place) (front : List Char) :
    Place.devices.lookup (directory ++ [front ++ ".svg".toList]) = none := by
  rw [List.lookup_eq_none_iff]
  intro device hdevice
  have hlast : (device.1.getLast?.bind List.getLast?) ≠ some 'g' := by
    revert device
    decide
  rw [bne_iff_ne]
  intro heq
  simp [← heq, List.getLast?_append] at hlast

theorem contentAt_cases {place : Place} (h : Place.devices.lookup place = none) :
    t.contentAt place = .file place ∨ t.contentAt place = .vacant place ∨
      t.contentAt place = .nowhere := by
  rw [contentAt, h]
  dsimp only
  split_ifs
  · exact .inl rfl
  · exact .inr (.inr rfl)
  · exact .inr (.inl rfl)

end FileTree

end PageSvg.CommandLine
