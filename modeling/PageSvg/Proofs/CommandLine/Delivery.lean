import PageSvg.Proofs.CommandLine.FileTree
import PageSvg.Proofs.Number.Rational

/-!
# The documents of several files

A successful run writes one document after the other, each under the name of its file with another
extension, to the directory of the file or to the one that was asked for. So a document is lost if
and only if a later file has the same stem, and a file of the request is overwritten if its name is
that of a document.
-/

namespace PageSvg.CommandLine

open CommandLine.Path (stem renamed)

/-! ### Runs without a failure -/

section Finishes

variable {ε σ β γ : Type} {s s' : σ}

theorem bind_apply (x : StateM σ β) (f : β → StateM σ γ) (s : σ) :
    (x >>= f) s = f (x s).1 (x s).2 := rfl

/-- The computation gives a result without a failure. -/
def Finishes (x : ExceptT ε (StateM σ) β) (s : σ) (b : β) (s' : σ) : Prop := x.run s = (.ok b, s')

theorem finishes_pure {a b : β} :
    Finishes (pure a : ExceptT ε (StateM σ) β) s b s' ↔ a = b ∧ s = s' := by
  show ((.ok a, s) : Except ε β × σ) = (.ok b, s') ↔ _
  simp

theorem finishes_bind {x : ExceptT ε (StateM σ) β} {f : β → ExceptT ε (StateM σ) γ} {c : γ} :
    Finishes (x >>= f) s c s' ↔ ∃ b s₁, Finishes x s b s₁ ∧ Finishes (f b) s₁ c s' := by
  show (ExceptT.bindCont f (x.run s).1 : StateM σ _) (x.run s).2 = (.ok c, s') ↔
    ∃ b s₁, (x.run s : Except ε β × σ) = (.ok b, s₁) ∧ (f b).run s₁ = (.ok c, s')
  generalize (x.run s : Except ε β × σ) = r
  obtain ⟨_ | b, s₁⟩ := r
  · constructor
    · exact fun h => nomatch h
    · rintro ⟨_, _, h, -⟩
      cases h
  · constructor
    · exact fun h => ⟨b, s₁, rfl, h⟩
    · rintro ⟨_, _, h, hf⟩
      cases h
      exact hf

theorem not_finishes_throw {failure : ε} {b : β} :
    ¬ Finishes (throw failure : ExceptT ε (StateM σ) β) s b s' := by
  show ¬ ((.error failure, s) : Except ε β × σ) = (.ok b, s')
  simp

theorem not_finishes_throw_bind {failure : ε} {f : β → ExceptT ε (StateM σ) γ} {c : γ} :
    ¬ Finishes ((throw failure : ExceptT ε (StateM σ) β) >>= f) s c s' := by
  rw [finishes_bind]
  rintro ⟨_, _, h, -⟩
  exact not_finishes_throw h

theorem finishes_except {x : Except ε β} {b : β} :
    Finishes (x : ExceptT ε (StateM σ) β) s b s' ↔ x = .ok b ∧ s = s' := by
  show ((x, s) : Except ε β × σ) = (.ok b, s') ↔ _
  simp

theorem finishes_lift {x : StateM σ β} {b : β} :
    Finishes (x : ExceptT ε (StateM σ) β) s b s' ↔ (x s).1 = b ∧ (x s).2 = s' := by
  show ((.ok (x s).1, (x s).2) : Except ε β × σ) = (.ok b, s') ↔ _
  rw [Prod.mk.injEq, Except.ok.injEq]

theorem finishes_lift_bind {x : StateM σ β} {f : β → ExceptT ε (StateM σ) γ} {c : γ} :
    Finishes ((x : ExceptT ε (StateM σ) β) >>= f) s c s' ↔ Finishes (f (x s).1) (x s).2 c s' := by
  rw [finishes_bind]
  simp only [finishes_lift]
  exact ⟨fun ⟨_, _, ⟨hb, hs⟩, h⟩ => hb ▸ hs ▸ h, fun h => ⟨_, _, ⟨rfl, rfl⟩, h⟩⟩

end Finishes

/-! ### Steps of a run -/

variable {α : Type} [Scalar α] {r : Request α} {s s' : Session} {path : String}

@[simp] theorem Session.shell_read_fst : (Session.shell.read path s).1 = s.tree.read path := rfl

@[simp] theorem Session.shell_read_snd : (Session.shell.read path s).2 = s := rfl

@[simp] theorem Session.shell_create_fst {text : String} :
    (Session.shell.create path text s).1 = (s.create path text).1 := rfl

@[simp] theorem Session.shell_create_snd {text : String} :
    (Session.shell.create path text s).2 = (s.create path text).2 := rfl

theorem finishes_readPage {box : Rectangle α} {p : Page α} :
    Finishes (readPage Session.shell r box path) s p s' ↔
      ∃ bytes, s.tree.read path = .content bytes ∧ r.page box bytes = p ∧ s = s' := by
  rw [readPage, finishes_lift_bind, Session.shell_read_fst, Session.shell_read_snd]
  cases s.tree.read path <;> simp [finishes_pure, not_finishes_throw]

theorem finishes_readPages {box : Rectangle α} {paths : List String} {pages : List (Page α)}
    (h : Finishes (paths.mapM (readPage Session.shell r box)) s pages s') :
    s = s' ∧ ∃ contents,
      List.Forall₂ (fun path bytes => s.tree.read path = .content bytes) paths contents ∧
        pages = contents.map (r.page box) := by
  induction paths generalizing pages with
  | nil =>
    rw [List.mapM_nil, finishes_pure] at h
    exact ⟨h.2, [], .nil, h.1.symm⟩
  | cons path rest ih =>
    simp only [List.mapM_cons, finishes_bind, finishes_pure, finishes_readPage] at h
    obtain ⟨_, _, ⟨bytes, hread, rfl, rfl⟩, _, _, hrest, rfl, rfl⟩ := h
    obtain ⟨rfl, contents, hcontents, rfl⟩ := ih hrest
    exact ⟨rfl, bytes :: contents, .cons hread hcontents, rfl⟩

/-- The text of a document. -/
def Request.text (r : Request α) (d : Document α) : List UInt8 :=
  Utf8.encode (Markup.document d.root r.pretty)

theorem finishes_writeDocument {target : String} {result : Except (Fault α) (Document α)}
    (htarget : r.target path = some target)
    (h : Finishes (writeDocument Session.shell r path result) s () s') :
    ∃ d s₁, result = .ok d ∧ s.create target (Markup.document d.root r.pretty) = (.done, s₁) ∧
      s'.tree = s₁.tree := by
  cases result with
  | error fault => exact (not_finishes_throw h).elim
  | ok d =>
    simp only [writeDocument, htarget] at h
    rw [finishes_lift_bind, Session.shell_create_fst, Session.shell_create_snd] at h
    obtain ⟨written, s₁, hcreate⟩ : ∃ written s₁,
      s.create target (Markup.document d.root r.pretty) = (written, s₁) := ⟨_, _, rfl⟩
    rw [hcreate] at h
    cases written with
    | refused => exact (not_finishes_throw_bind h).elim
    | broken reason => exact (not_finishes_throw_bind h).elim
    | done =>
      refine ⟨d, s₁, rfl, hcreate, ?_⟩
      dsimp only at h
      split_ifs at h
      · exact (finishes_lift.1 h).2 ▸ rfl
      · exact (finishes_pure.1 h).2 ▸ rfl

/-! ### Places of documents -/

namespace Request

/-- The directory where the document of a file of a directory goes. -/
def directoryFor (r : Request α) (t : FileTree) (directory : Place) : Option Place :=
  match r.outputDirectory with
  | none => some directory
  | some path => t.directoryAt? path.toList

/-- The name of a document. -/
def documentName (name : List Char) : List Char := renamed "svg".toList name

omit [Scalar α] in
theorem directoryFor_congr {t t' : FileTree} (h : t'.directories = t.directories)
    (directory : Place) : r.directoryFor t' directory = r.directoryFor t directory := by
  unfold directoryFor FileTree.directoryAt?
  simp only [FileTree.walk_congr h]

section OwnPath

variable {before : List (List Char)} {name : List Char}

omit [Scalar α] in
/-- The path of the document of a name such as `..a` leads one level up. -/
theorem split_ownPath_of_dot (hpath : Path.split path.toList = before ++ [name])
    (hname : Path.IsLeaf name) (hstem : stem name = ['.']) :
    Path.split (r.ownPath path).toList = before ++ [Path.up] := by
  have hbefore (part : List Char) (hpart : part ∈ before) : '/' ∉ part :=
    Path.notMem_of_mem_split (hpath ▸ List.mem_append_left _ hpart)
  have hsplit : Path.split (Path.join (before ++ [Path.up])) = before ++ [Path.up] :=
    Path.split_join hbefore (by decide)
  have hrenamed : Path.withExtension "svg".toList path.toList = _ :=
    Path.withExtension_of_split hpath hname
  rw [if_pos hstem] at hrenamed
  have hown : r.ownPath path = String.ofList (Path.join (before ++ [Path.up])) := by
    simp only [ownPath, hrenamed, Path.leaf?_of_split hsplit (by decide)]
    cases r.outputDirectory <;> rfl
  rw [hown, String.toList_ofList, hsplit]

omit [Scalar α] in
/-- The path of a document leads through the directory where it goes to its name. -/
theorem split_ownPath (hpath : Path.split path.toList = before ++ [name])
    (hname : Path.IsLeaf name) (hstem : stem name ≠ ['.']) :
    ∃ parts, Path.split (r.ownPath path).toList = parts ++ [documentName name] ∧
      ∀ (t : FileTree) (directory : Place), t.walk (FileTree.start before) before = some directory →
        r.directoryFor t directory = t.walk (FileTree.start parts) parts := by
  have hbefore (part : List Char) (hpart : part ∈ before) : '/' ∉ part :=
    Path.notMem_of_mem_split (hpath ▸ List.mem_append_left _ hpart)
  have hleaf : Path.IsLeaf (documentName name) := hname.renamed (by decide) (by decide)
  have hsplit := Path.split_join hbefore hleaf.slash
  have hrenamed : Path.withExtension "svg".toList path.toList = _ :=
    Path.withExtension_of_split hpath hname
  rw [if_neg hstem, ← documentName] at hrenamed
  cases hdirectory : r.outputDirectory with
  | none =>
    have hown : r.ownPath path = String.ofList (Path.join (before ++ [documentName name])) := by
      simp only [ownPath, hrenamed, hdirectory]
    refine ⟨before, by rw [hown, String.toList_ofList, hsplit], fun t directory hwalk => ?_⟩
    rw [directoryFor, hdirectory, hwalk]
  | some outer =>
    have hown : r.ownPath path =
        String.ofList (Path.inDirectory outer.toList (documentName name)) := by
      simp only [ownPath, hrenamed, hdirectory, Path.leaf?_of_split hsplit hleaf.still,
        if_neg hleaf.notUp]
    obtain ⟨parts, hne, hparts, hcases⟩ := Path.split_inDirectory outer.toList hleaf.slash
    refine ⟨parts, by rw [hown, String.toList_ofList, hparts], fun t directory _ => ?_⟩
    rw [directoryFor, hdirectory]
    exact FileTree.directoryAt?_eq_walk hne hcases

omit [Scalar α] in
/-- A document goes to its own directory under the name of its file with another extension. -/
theorem leadsTo_ownPath {t : FileTree} {directory : Place} (h : t.LeadsTo path directory name)
    (hopen : (t.locate (r.ownPath path)).IsOpen) :
    ∃ out, r.directoryFor t directory = some out ∧
      t.LeadsTo (r.ownPath path) out (documentName name) := by
  obtain ⟨before, hpath, hwalk⟩ := h.walked
  by_cases hstem : stem name = ['.']
  · -- There is no file one level up.
    obtain ⟨_, name', h'⟩ := FileTree.exists_leadsTo hopen
    obtain ⟨before', hbefore', -⟩ := h'.walked
    rw [split_ownPath_of_dot hpath h.leaf hstem] at hbefore'
    exact absurd (List.append_singleton_inj.1 hbefore').2.symm h'.leaf.notUp
  · obtain ⟨parts, hparts, hdirectory⟩ := split_ownPath hpath h.leaf hstem
    have hleaf : Path.IsLeaf (documentName name) := h.leaf.renamed (by decide) (by decide)
    obtain ⟨out, hout, hleads⟩ := FileTree.leadsTo_of_isOpen hparts hleaf hopen
    exact ⟨out, (hdirectory t directory hwalk).trans hout, hleads⟩

end OwnPath

end Request

/-! ### The run -/

/-- A file of a request: where it stands, and what is read from it. -/
structure Input where
  directory : Place
  name : List Char
  content : List UInt8

/-- A file of a request, and what became of it. -/
structure Conversion (α : Type) extends Input where
  document : Document α
  /-- Where the document was written. -/
  target : Place

/-- The path leads to the file. -/
structure Input.Found (t : FileTree) (path : String) (i : Input) : Prop where
  leads : t.LeadsTo path i.directory i.name
  content : t.read path = .content i.content

/-- The path leads to the file, and the path of its document to the place where that was written. -/
structure Conversion.Places (r : Request α) (t : FileTree) (path : String) (c : Conversion α) :
    Prop where
  source : c.toInput.Found t path
  document : ∃ out, r.directoryFor t c.directory = some out ∧
    t.LeadsTo (r.ownPath path) out (Request.documentName c.name) ∧
    c.target = out ++ [Request.documentName c.name]

namespace Session

theorem isOpen_of_create {text : String} {s₁ : Session} (h : s.create path text = (.done, s₁)) :
    (s.tree.locate path).IsOpen := by
  rw [create] at h
  cases hlocate : s.tree.locate path <;> simp_all [FileTree.PathEnd.IsOpen]

/-- A document is written to its place. -/
theorem tree_of_create {directory : Place} {name : List Char} {text : String} {s₁ : Session}
    (h : s.tree.LeadsTo path directory (Request.documentName name))
    (hcreate : s.create path text = (.done, s₁)) :
    s₁.tree = s.tree.insert (directory ++ [Request.documentName name]) (Utf8.encode text) := by
  have hdevice : Place.devices.lookup (directory ++ [Request.documentName name]) = none :=
    FileTree.lookup_devices directory (stem name)
  rw [create, h.locate_eq] at hcreate
  rcases FileTree.contentAt_cases (t := s.tree) hdevice with hend | hend | hend <;>
    rw [hend] at hcreate <;> cases hcreate
  · rfl
  · rfl

end Session

/-- One document is written: to its place, unless it cannot be. -/
theorem writeDocument_inserts (several : r.files.length ≠ 1) {directory : Place} {name : List Char}
    {result : Except (Fault α) (Document α)} (h : s.tree.LeadsTo path directory name)
    (hrun : Finishes (writeDocument Session.shell r path result) s () s') :
    ∃ d out, result = .ok d ∧ r.directoryFor s.tree directory = some out ∧
      s.tree.LeadsTo (r.ownPath path) out (Request.documentName name) ∧
      s'.tree = s.tree.insert (out ++ [Request.documentName name]) (r.text d) := by
  have htarget : r.target path = some (r.ownPath path) := if_neg several
  obtain ⟨d, s₁, rfl, hcreate, htree⟩ := finishes_writeDocument htarget hrun
  obtain ⟨out, hout, hleads⟩ := Request.leadsTo_ownPath h (Session.isOpen_of_create hcreate)
  exact ⟨d, out, rfl, hout, hleads, htree.trans (Session.tree_of_create hleads hcreate)⟩

/-- The documents are written in order, each over what stands at its place. -/
theorem writeDocuments_insert {t : FileTree} (several : r.files.length ≠ 1)
    {paths : List String} {inputs : List Input} {results : List (Except (Fault α) (Document α))}
    (hinputs : List.Forall₂ (Input.Found t) paths inputs)
    (hlength : results.length = paths.length) (hdirectories : s.tree.directories = t.directories)
    (hrun : Finishes ((paths.zip results).forM fun (path, result) =>
      writeDocument Session.shell r path result) s () s') :
    ∃ done : List (Conversion α), done.map Conversion.toInput = inputs ∧
      results = done.map (.ok ·.document) ∧ List.Forall₂ (Conversion.Places r t) paths done ∧
      s'.tree = s.tree.insertAll (done.map fun c => (c.target, r.text c.document)) := by
  induction hinputs generalizing results s with
  | nil =>
    obtain rfl := List.eq_nil_of_length_eq_zero hlength
    obtain ⟨-, rfl⟩ := finishes_pure.1 hrun
    exact ⟨[], rfl, rfl, .nil, rfl⟩
  | @cons path i paths inputs hinput hinputs ih =>
    obtain _ | ⟨result, results⟩ := results
    · cases hlength
    obtain ⟨⟨⟩, s₁, hwrite, hrest⟩ := finishes_bind.1 hrun
    obtain ⟨d, out, rfl, hout, hleads, htree⟩ :=
      writeDocument_inserts several (hinput.leads.congr hdirectories) hwrite
    have hdirectories₁ : s₁.tree.directories = t.directories := by
      rw [htree, FileTree.directories_insert, hdirectories]
    obtain ⟨done, rfl, rfl, hplaces, htree'⟩ := ih (by simpa using hlength) hdirectories₁ hrest
    rw [Request.directoryFor_congr hdirectories] at hout
    let c : Conversion α := ⟨i, d, out ++ [Request.documentName i.name]⟩
    have hc : c.Places r t path := ⟨hinput, out, hout, hleads.congr hdirectories.symm, rfl⟩
    refine ⟨c :: done, rfl, rfl, .cons hc hplaces, ?_⟩
    rw [htree', htree]
    rfl

theorem convertEach_length (v : Converter α) (pages : List (Page α)) :
    (v.convertEach pages).length = pages.length := by
  induction pages generalizing v with
  | nil => rfl
  | cons p rest ih => exact congrArg (· + 1) (ih _)

/-- What a run has done: it converted the contents of the files in order and wrote the documents to
their places. -/
structure Delivered (r : Request α) (t t' : FileTree) (done : List (Conversion α)) : Prop where
  places : List.Forall₂ (Conversion.Places r t) r.files done
  documents : ∃ box converter, readBox r.box = .ok box ∧
    Converter.ofOptions r.options #[] = .ok converter ∧
    converter.convertEach (done.map fun c => r.page box c.content) = done.map (.ok ·.document)
  tree : t' = t.insertAll (done.map fun c => (c.target, r.text c.document))

theorem exists_inputs {t : FileTree} {paths : List String} {contents : List (List UInt8)}
    (h : List.Forall₂ (fun path bytes => t.read path = .content bytes) paths contents) :
    ∃ inputs : List Input, List.Forall₂ (Input.Found t) paths inputs ∧
      inputs.map Input.content = contents := by
  induction h with
  | nil => exact ⟨[], .nil, rfl⟩
  | @cons path bytes paths contents hread _ ih =>
    obtain ⟨directory, name, hleads⟩ := FileTree.exists_leadsTo (FileTree.isOpen_of_read hread)
    obtain ⟨inputs, hinputs, rfl⟩ := ih
    exact ⟨⟨directory, name, bytes⟩ :: inputs, .cons ⟨hleads, hread⟩ hinputs, rfl⟩

theorem convertFiles_delivers (several : 1 < r.files.length)
    (hrun : Finishes (convertFiles Session.shell r) s () s') :
    ∃ done, Delivered r s.tree s'.tree done := by
  unfold convertFiles at hrun
  split_ifs at hrun
  · exact (not_finishes_throw_bind hrun).elim
  · simp only [finishes_bind, finishes_except] at hrun
    obtain ⟨box, _, ⟨hbox, rfl⟩, converter, _, ⟨hconverter, rfl⟩, pages, _, hpages, hwrite⟩ := hrun
    obtain ⟨rfl, contents, hcontents, rfl⟩ := finishes_readPages hpages
    obtain ⟨inputs, hinputs, rfl⟩ := exists_inputs hcontents
    obtain ⟨done, rfl, hresults, hplaces, htree⟩ := writeDocuments_insert (by omega) hinputs
      (by simp [convertEach_length, hinputs.length_eq]) rfl hwrite
    have hoptions : Converter.ofOptions r.options #[] = .ok converter := by
      cases hresult : Converter.ofOptions r.options #[] <;> rw [hresult] at hconverter <;>
        cases hconverter
      rfl
    have hdocuments : converter.convertEach (done.map fun c => r.page box c.content) =
        done.map (.ok ·.document) := by
      rw [← hresults, List.map_map, List.map_map]
      rfl
    exact ⟨done, hplaces, ⟨box, converter, hbox, hoptions, hdocuments⟩, htree⟩

theorem finishes_of_success (h : (Invocation.convert r).run Session.shell s = (0, s')) :
    Finishes (convertFiles Session.shell r) s () s' := by
  simp only [Invocation.run] at h
  rw [bind_apply] at h
  unfold Finishes
  generalize ((convertFiles Session.shell r).run s : Except _ _ × Session) = result at h ⊢
  obtain ⟨failure | ⟨⟩, s₁⟩ := result
  · cases h
  · cases h
    rfl

/-! ### Documents at one place -/

/-- The documents of two files go to one place: the names have one stem, and the files are in one
directory unless there is a directory for all documents. -/
def Conversion.Clashes (r : Request α) (c d : Conversion α) : Prop :=
  stem c.name = stem d.name ∧ (r.outputDirectory = none → c.directory = d.directory)

omit [Scalar α] in
theorem Conversion.Clashes.symm {c d : Conversion α} (h : c.Clashes r d) : d.Clashes r c :=
  ⟨h.1.symm, fun hnone => (h.2 hnone).symm⟩

omit [Scalar α] in
theorem Conversion.Places.target_eq_iff {t : FileTree} {path' : String} {c d : Conversion α}
    (hc : c.Places r t path) (hd : d.Places r t path') :
    c.target = d.target ↔ c.Clashes r d := by
  obtain ⟨out, hout, -, hc⟩ := hc.document
  obtain ⟨out', hout', -, hd⟩ := hd.document
  rw [hc, hd, List.append_singleton_inj, Request.documentName, Request.documentName, renamed,
    renamed, List.append_left_inj, Conversion.Clashes, and_comm]
  refine and_congr_right fun _ => ?_
  unfold Request.directoryFor at hout hout'
  cases hdirectory : r.outputDirectory <;> simp_all

namespace Delivered

variable {t t' : FileTree} {done : List (Conversion α)}

theorem exists_places (h : Delivered r t t' done) {c : Conversion α} (hc : c ∈ done) :
    ∃ path, c.Places r t path := by
  obtain ⟨i, rfl⟩ := List.mem_iff_get.1 hc
  exact ⟨_, h.places.get (h.places.length_eq.symm ▸ i.isLt) i.isLt⟩

theorem target_eq_iff (h : Delivered r t t' done) {c d : Conversion α} (hc : c ∈ done)
    (hd : d ∈ done) : c.target = d.target ↔ c.Clashes r d := by
  obtain ⟨_, hc⟩ := h.exists_places hc
  obtain ⟨_, hd⟩ := h.exists_places hd
  exact hc.target_eq_iff hd

/-- A document is at its place if no later document went there. -/
theorem lookup_target (h : Delivered r t t' done) {earlier later : List (Conversion α)}
    {c : Conversion α} (hdone : done = earlier ++ c :: later)
    (hlater : ∀ d ∈ later, d.target ≠ c.target) :
    t'.files.lookup c.target = some (r.text c.document) := by
  have hnone :
      (later.map fun d => (d.target, r.text d.document)).reverse.lookup c.target = none := by
    rw [List.lookup_eq_none_iff]
    intro entry hentry
    obtain ⟨d, hd, rfl⟩ := List.mem_map.1 (List.mem_reverse.1 hentry)
    simpa [ne_comm] using hlater d hd
  rw [h.tree, FileTree.lookup_insertAll, hdone, List.map_append, List.map_cons,
    List.reverse_append, List.reverse_cons, List.append_assoc, List.lookup_append, hnone,
    List.singleton_append, List.lookup_cons_self]
  rfl

/-- A place is left alone if no document went there. -/
theorem lookup_other (h : Delivered r t t' done) {place : Place}
    (hplace : ∀ c ∈ done, c.target ≠ place) : t'.files.lookup place = t.files.lookup place := by
  have hnone : (done.map fun c => (c.target, r.text c.document)).reverse.lookup place = none := by
    rw [List.lookup_eq_none_iff]
    intro entry hentry
    obtain ⟨c, hc, rfl⟩ := List.mem_map.1 (List.mem_reverse.1 hentry)
    simpa [ne_comm] using hplace c hc
  rw [h.tree, FileTree.lookup_insertAll, hnone, Option.none_or]

theorem locate_ownPath (h : Delivered r t t' done) :
    List.Forall₂ (fun path c => t'.locate (r.ownPath path) = .file c.target) r.files done := by
  obtain ⟨hlength, hzip⟩ := List.forall₂_iff_zip.1 h.places
  refine List.forall₂_iff_zip.2 ⟨hlength, fun {path c} hmem => ?_⟩
  obtain ⟨out, -, hleads, htarget⟩ := (hzip hmem).document
  have hdirectories : t'.directories = t.directories := by
    rw [h.tree, FileTree.directories_insertAll]
  have hdevice : Place.devices.lookup c.target = none :=
    htarget ▸ FileTree.lookup_devices out (stem c.name)
  have hfile : (t'.files.lookup c.target).isSome = true := by
    rw [Option.isSome_iff_ne_none, h.tree, FileTree.lookup_insertAll, Ne, Option.or_eq_none_iff,
      List.lookup_eq_none_iff]
    refine fun hnone => absurd (hnone.1 (c.target, r.text c.document) ?_) (by simp)
    exact List.mem_reverse.2 (List.mem_map.2 ⟨c, (List.of_mem_zip hmem).2, rfl⟩)
  rw [(hleads.congr hdirectories).locate_eq, ← htarget, FileTree.contentAt, hdevice, hfile]
  rfl

end Delivered

/-- **The last document at each place stays.** A successful run for several files writes a document
for each of them, which is lost if a later file has the same stem, and the same directory unless
there is one for all documents. If no two files are so, each document is in a file of its own. A
file that was there before is only overwritten if its place is that of a document. -/
theorem last_document_stays (several : 1 < r.files.length)
    (success : (Invocation.convert r).run Session.shell s = (0, s')) :
    ∃ done : List (Conversion α), Delivered r s.tree s'.tree done ∧
      List.Forall₂ (fun path c => s'.tree.locate (r.ownPath path) = .file c.target) r.files done ∧
      (∀ c ∈ done, ∀ d ∈ done, c.target = d.target ↔ c.Clashes r d) ∧
      (∀ earlier c later, done = earlier ++ c :: later → (∀ d ∈ later, ¬ d.Clashes r c) →
        s'.tree.files.lookup c.target = some (r.text c.document)) ∧
      (done.Pairwise (fun c d => ¬ c.Clashes r d) → (done.map (·.target)).Nodup ∧
        ∀ c ∈ done, s'.tree.files.lookup c.target = some (r.text c.document)) ∧
      ∀ place, (∀ c ∈ done, c.target ≠ place) →
        s'.tree.files.lookup place = s.tree.files.lookup place := by
  obtain ⟨done, h⟩ := convertFiles_delivers several (finishes_of_success success)
  have hstays (earlier : List (Conversion α)) (c : Conversion α) (later : List (Conversion α))
      (hdone : done = earlier ++ c :: later) (hlater : ∀ d ∈ later, ¬ d.Clashes r c) :
      s'.tree.files.lookup c.target = some (r.text c.document) := by
    refine h.lookup_target hdone fun d hd => ?_
    rw [Ne, h.target_eq_iff (by simp [hdone, hd]) (by simp [hdone])]
    exact hlater d hd
  refine ⟨done, h, h.locate_ownPath, fun c hc d hd => h.target_eq_iff hc hd, hstays,
    fun hapart => ⟨?_, fun c hc => ?_⟩, fun place => h.lookup_other⟩
  · exact List.pairwise_map.2 (hapart.imp_of_mem fun hc hd hclash e =>
      hclash ((h.target_eq_iff hc hd).1 e))
  · obtain ⟨earlier, later, hdone⟩ := List.append_of_mem hc
    refine hstays earlier c later hdone fun d hd hclash => ?_
    have hafter := (List.pairwise_append.1 (hdone ▸ hapart)).2.1
    exact List.rel_of_pairwise_cons hafter hd hclash.symm

section Example

attribute [local instance] Scalar.rational

set_option maxRecDepth 10000 in
/-- Two files whose names have different stems. -/
theorem last_document_stays_two_stems :
    let r : Request ℚ :=
      { files := ["a/p", "b/q"], outputDirectory := some "out", options := .standard }
    let content := "0 0 5 5 re f".toUTF8.toList
    let s : Session := { tree := .ofFiles [("a/p", content), ("b/q", [])] ["out"] }
    let s' := ((Invocation.convert r).run Session.shell s).2
    1 < r.files.length ∧ (Invocation.convert r).run Session.shell s = (0, s') ∧
      (s'.tree.newFiles s.tree).map (·.1) = ["out/p.svg", "out/q.svg"] ∧
      ∃ done : List (Conversion ℚ), Delivered r s.tree s'.tree done ∧
        List.Forall₂ (fun path c => s'.tree.locate (r.ownPath path) = .file c.target) r.files
          done := by
  intro r content s s'
  have several : 1 < r.files.length := by decide
  have hcode : ((Invocation.convert r).run Session.shell s).1 = 0 := by decide +kernel
  have hnew : (s'.tree.newFiles s.tree).map (·.1) = ["out/p.svg", "out/q.svg"] := by
    decide +kernel
  have success : (Invocation.convert r).run Session.shell s = (0, s') := Prod.ext hcode rfl
  obtain ⟨done, h, hpaths, -⟩ := last_document_stays several success
  exact ⟨several, success, hnew, done, h, hpaths⟩

set_option maxRecDepth 10000 in
/-- Two files of one name, from different directories, leave one document. -/
theorem document_lost :
    let content := "0 0 5 5 re f".toUTF8.toList
    let s : Session := { tree := .ofFiles [("a/p", content), ("b/p", [])] ["out"] }
    let invocation : Invocation ℚ := .ofArguments ["-O", "out", "a/p", "b/p"]
    let s' := (invocation.run Session.shell s).2
    s.tree.files = [(Place.work ++ [['a'], ['p']], content), (Place.work ++ [['b'], ['p']], [])] ∧
      (invocation.run Session.shell s).1 = 0 ∧
      (s'.tree.newFiles s.tree).map (·.1) = ["out/p.svg"] := by
  decide +kernel

end Example

end PageSvg.CommandLine
