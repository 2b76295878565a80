import PageSvg.Proofs.Canvas.Simulation
import PageSvg.Proofs.Canvas.Sparing
import PageSvg.Proofs.SharedResources

/-!
# Pages that share resources

A page is drawn the same whether it shares resources with other pages or not, as long as names with
one number stand for the same thing: whatever is shared when it begins, and whatever other pages add
while it is drawn, was found in the library, and so it is what the page would have found itself.
-/

namespace PageSvg

open Draw

variable {α β : Type} [Scalar α]

/-! ### Searching -/

theorem eq_of_rel {γ : Type} {x y : Option γ} (h : Option.Rel (· = ·) x y) : x = y := by
  cases h with
  | some h => rw [h]
  | none => rfl

/-- The colour space of a name: a predefined one, or one of the resources. -/
def Setting.ownColorSpace? (s : Setting α) (resources : SetId) (name : String) :
    Option (ColorSpace α) :=
  (ColorSpace.predefined? name).or ((s.library.set resources).colorSpaces.get? name)

section Searching

variable {s : Setting α} {n : Nesting α} {c : Canvas α} {k : ResourceCache α}
  {same : ColorSpace α → ColorSpace α → Prop} (hcache : c.cache = some k)
  (hk : k.FoundIn s.library) (hlibrary : s.library.Coherent same)

include hcache hk hlibrary

/-- The font of a name is that of the page, whatever is shared; what is shared only grows. -/
theorem Canvas.findFont_own (name : String) :
    ∃ k', k'.FoundIn s.library ∧ k.Grows k' ∧
      c.findFont ⟨s, n⟩ name =
        (((s.library.set c.context.resources).fonts.get? name).getD .standIn,
          { c with cache := some k' }) := by
  have hsame : c = { c with cache := some k } := by rw [← hcache]
  unfold findFont Environment.resources
  dsimp only
  rw [hcache]
  cases hkey : (s.library.set c.context.resources).key? .font name with
  | none => exact ⟨k, hk, .refl k, congrArg (Prod.mk _) hsame⟩
  | some key =>
    obtain ⟨hfont, hfound⟩ := hk.font hlibrary (Library.mem_of_key? hkey) hkey
    exact ⟨_, hfound, k.grows_font key _,
      congrArg (fun f? => (Option.getD f? Font.standIn, _)) hfont⟩

omit [Scalar α] in
theorem Canvas.findColorSpace_own (hrefl : ∀ space, same space space) (name : String) :
    ∃ k', k'.FoundIn s.library ∧ k.Grows k' ∧
      (c.findColorSpace ⟨s, n⟩ name).2 = { c with cache := some k' } ∧
      Option.Rel same (c.findColorSpace ⟨s, n⟩ name).1
        (s.ownColorSpace? c.context.resources name) := by
  have hsame : c = { c with cache := some k } := by rw [← hcache]
  have hself (own : Option (ColorSpace α)) : Option.Rel same own own := by
    cases own with
    | none => exact .none
    | some space => exact .some (hrefl space)
  unfold findColorSpace Environment.resources Setting.ownColorSpace?
  cases hname : ColorSpace.predefined? (α := α) name with
  | some space => exact ⟨k, hk, .refl k, hsame, hself _⟩
  | none =>
    dsimp only
    rw [hcache]
    cases hkey : (s.library.set c.context.resources).key? .colorSpace name with
    | none => exact ⟨k, hk, .refl k, hsame, hself _⟩
    | some key =>
      obtain ⟨hspace, hfound⟩ :=
        hk.colorSpace hlibrary hrefl (Library.mem_of_key? hkey) hname hkey
      exact ⟨_, hfound, k.grows_colorSpace key _, rfl, hspace⟩

end Searching

/-! ### Canvases that share other resources -/

/-- Both watches look for a request that comes at the `onset`, and have looked as
often, if it comes at all. -/
structure Cancellation.Alike (onset : Option Nat) (t t' : Cancellation) : Prop where
  left : t.onset = onset
  right : t'.onset = onset
  looks : t'.looks = t.looks ∨ onset = none

namespace Canvas

/-- The canvas with other shared resources, and with another watch for the request to stop. -/
def reshared (c : Canvas α) (k : Option (ResourceCache α)) (watch : Cancellation) : Canvas α :=
  { c with cache := k, cancellation := watch }

/-- The canvas `c'` shares other resources than `c`. All of them were found in the library, and
those of `c'` are what was `shared` at first and more. -/
structure Reshares (library : Library α) (shared : ResourceCache α) (onset : Option Nat)
    (c c' : Canvas α) : Prop where
  found : ∃ k, c.cache = some k ∧ k.FoundIn library
  found' : ∃ k, c'.cache = some k ∧ k.FoundIn library ∧ shared.Grows k
  watch : c.cancellation.Alike onset c'.cancellation
  eq : c' = c.reshared c'.cache c'.cancellation

omit [Scalar α] in
theorem ite_reshared {k : Option (ResourceCache α)} {watch : Cancellation} {p : Prop} [Decidable p]
    {d d' e e' : Canvas α} (hd : d' = d.reshared k watch) (he : e' = e.reshared k watch) :
    (if p then d' else e') = (if p then d else e).reshared k watch := by
  rw [hd, he, apply_ite (reshared · k watch)]

end Canvas

/-- Another page adds to what pages share, and does nothing else. -/
def Draw.OnlyShares (library : Library α) (x : Draw α Unit) : Prop :=
  ∀ c k, c.cache = some k → k.FoundIn library →
    ∃ k', k'.FoundIn library ∧ k.Grows k' ∧ x c = .ok () { c with cache := some k' }

omit [Scalar α] in
theorem Draw.onlyShares_pure (library : Library α) : OnlyShares library (pure ()) :=
  fun _ k hcache hk => ⟨k, hk, .refl k, by rw [← hcache]; rfl⟩

section Steps

variable {s : Setting α} {shared : ResourceCache α} {onset : Option Nat} {c c' : Canvas α}

/-- Only adjustments that search for a resource see what is shared. -/
theorem Adjustment.apply_reshared (a : Adjustment α) (ha : a.searches = false) (env : Environment α)
    (k : Option (ResourceCache α)) (watch : Cancellation) :
    a.apply env (c.reshared k watch) = (a.apply env c).reshared k watch :=
  calc
    a.apply env (c.reshared k watch) = (a.apply env c).onto (c.reshared k watch) :=
      a.apply_onto ha env (c := c) (c.reshared k watch)
    _ = ((a.apply env c).onto c).reshared k watch := rfl
    _ = (a.apply env c).reshared k watch := by rw [← a.apply_onto ha env c, c.onto_self]

namespace Canvas.Reshares

variable {library : Library α}

omit [Scalar α] in
theorem agrees (h : c.Reshares library shared onset c') : c.Agrees c' := by
  rw [h.eq]
  exact ⟨.refl _, rfl, rfl, rfl, rfl, rfl, rfl, rfl, rfl⟩

omit [Scalar α] in
theorem isSeen_eq (h : c.Reshares library shared onset c') :
    c'.cancellation.isSeen = c.cancellation.isSeen := by
  unfold Cancellation.isSeen
  rw [h.watch.left, h.watch.right]
  rcases h.watch.looks with hlooks | rfl
  · rw [hlooks]
  · rfl

omit [Scalar α] in
theorem looked (h : c.Reshares library shared onset c') :
    c.looked.Reshares library shared onset c'.looked := by
  refine ⟨h.found, h.found', ⟨h.watch.left, h.watch.right, ?_⟩, ?_⟩
  · exact h.watch.looks.imp_left (congrArg (· + 1))
  · rw [h.eq]
    rfl

omit [Scalar α] in
/-- What does not see what is shared keeps the canvases alike. -/
theorem map (h : c.Reshares library shared onset c') {f : Canvas α → Canvas α}
    (hf : ∀ k watch, f (c.reshared k watch) = (f c).reshared k watch) :
    (f c).Reshares library shared onset (f c') := by
  have hself : f c = (f c).reshared c.cache c.cancellation := hf c.cache c.cancellation
  have hcache : (f c).cache = c.cache := congrArg (·.cache) hself
  have hwatch : (f c).cancellation = c.cancellation := congrArg (·.cancellation) hself
  have hother : f c' = (f c).reshared c'.cache c'.cancellation := by rw [← hf, ← h.eq]
  rw [hother]
  exact ⟨hcache ▸ h.found, h.found', hwatch ▸ h.watch, rfl⟩

omit [Scalar α] in
/-- Each canvas shares more, as it may. -/
theorem setCache (h : c.Reshares library shared onset c') {l k' l' : ResourceCache α}
    (hcache' : c'.cache = some k') (hl : l.FoundIn library) (hl' : l'.FoundIn library)
    (hgrows : k'.Grows l') :
    Reshares library shared onset { c with cache := some l } { c' with cache := some l' } := by
  obtain ⟨m, hm, _, hshared⟩ := h.found'
  cases hm.symm.trans hcache'
  refine ⟨⟨l, rfl, hl⟩, ⟨l', rfl, hl', hshared.trans hgrows⟩, h.watch, ?_⟩
  rw [h.eq]
  rfl

theorem restore (h : c.Reshares library shared onset c') :
    c.restore.Reshares library shared onset c'.restore := by
  refine h.map fun k watch => ?_
  unfold Canvas.restore
  rw [show (c.reshared k watch).context.saved = c.context.saved from rfl]
  cases c.context.saved with
  | nil => rfl
  | cons g rest =>
    have hdropped : (if g == c.graphics then c.reshared k watch
        else (c.reshared k watch).dropStyle) =
          (if g == c.graphics then c else c.dropStyle).reshared k watch := ite_reshared rfl rfl
    exact congrArg (mapContext fun k => { k with graphics := g, saved := rest }) hdropped

theorem append (h : c.Reshares library shared onset c') (o : Options α) (node : Node)
    (bounds : Option (Rectangle α)) :
    (c.append o node bounds).Reshares library shared onset (c'.append o node bounds) := by
  refine h.map (f := (·.append o node bounds)) fun k watch => ?_
  have hcall : (c.reshared k watch).call o node bounds = c.call o node bounds := rfl
  rw [append_eq, append_eq, hcall]
  rfl

theorem formRegion (h : c.Reshares library shared onset c') (viewport : Rectangle α)
    (parent : Option Nat) (box : Option (Rectangle α)) (m : Matrix α) :
    (c.formRegion viewport parent box m).2.Reshares library shared onset
      (c'.formRegion viewport parent box m).2 := by
  refine h.map (f := fun c => (c.formRegion viewport parent box m).2) fun k watch => ?_
  cases box with
  | none => rfl
  | some box =>
    show Prod.snd (ite _ _ _) = reshared (Prod.snd (ite _ _ _)) k watch
    rw [apply_ite Prod.snd, apply_ite Prod.snd]
    exact ite_reshared rfl rfl

section Searching

variable {n : Nesting α} (hlibrary : s.library.Coherent (· = ·))

include hlibrary

theorem selectFont (h : c.Reshares s.library shared onset c') (name : String) (size : α) :
    (c.selectFont ⟨s, n⟩ name size).Reshares s.library shared onset
      (c'.selectFont ⟨s, n⟩ name size) := by
  obtain ⟨k, hcache, hk⟩ := h.found
  obtain ⟨k', hcache', hk', _⟩ := h.found'
  obtain ⟨l, hl, _, hfound⟩ := c.findFont_own (n := n) hcache hk hlibrary name
  obtain ⟨l', hl', hgrows, hfound'⟩ := c'.findFont_own (n := n) hcache' hk' hlibrary name
  have hset := h.setCache hcache' hl hl' hgrows
  unfold Canvas.selectFont
  rw [hfound, hfound', h.agrees.resources]
  exact (hset.map (f := (Adjustment.apply ⟨s, n⟩ · (.font _ size)))
    fun k watch => Adjustment.apply_reshared _ rfl ⟨s, n⟩ k watch).map
      (f := fun c => c.mapText fun t => { t with fontName := some name }) fun _ _ => rfl

theorem setColorSpace (h : c.Reshares s.library shared onset c') (target : PaintTarget)
    (name : String) :
    (c.setColorSpace ⟨s, n⟩ target name).Reshares s.library shared onset
      (c'.setColorSpace ⟨s, n⟩ target name) := by
  obtain ⟨k, hcache, hk⟩ := h.found
  obtain ⟨k', hcache', hk', _⟩ := h.found'
  obtain ⟨l, hl, _, hfound, hspace⟩ :=
    c.findColorSpace_own (n := n) hcache hk hlibrary (fun _ => rfl) name
  obtain ⟨l', hl', hgrows, hfound', hspace'⟩ :=
    c'.findColorSpace_own (n := n) hcache' hk' hlibrary (fun _ => rfl) name
  have hset := h.setCache hcache' hl hl' hgrows
  unfold Canvas.setColorSpace
  rw [h.agrees.colorLocked]
  split
  · exact h
  · rw [h.agrees.resources] at hspace'
    rw [← Prod.eta (c.findColorSpace ⟨s, n⟩ name), ← Prod.eta (c'.findColorSpace ⟨s, n⟩ name),
      hfound, hfound', eq_of_rel hspace, eq_of_rel hspace']
    let space := (s.ownColorSpace? c.context.resources name).getD .deviceGray
    exact hset.map (f := fun d => (d.setPaint target
      { d.paint target with
        rgb := space.initialRgb
        components := List.replicate space.components 0
        space := space
        pattern := none }).dropStyle) fun _ _ => rfl

end Searching

end Canvas.Reshares

variable {w : List (Context α) → Draw α Unit}

/-- Each step keeps the canvases alike. -/
theorem steps_reshares (hlibrary : s.library.Coherent (· = ·))
    (hw : ∀ outer, (w outer).OnlyShares s.library) (outer : List (Context α)) (deep : Prop) :
    Steps s (Manner.watching w) outer deep (Canvas.Reshares s.library shared onset)
      fun _ g g' => g' = g where
  agrees h := h.agrees
  look h := ⟨h.isSeen_eq, h.looked⟩
  watch {c c'} h := by
    obtain ⟨k, hcache, hk⟩ := h.found
    obtain ⟨k', hcache', hk', _⟩ := h.found'
    obtain ⟨l', hl', hgrows, hrun⟩ := hw outer c' k' hcache' hk'
    have hset := h.setCache hcache' hk hl' hgrows
    rw [← hcache] at hset
    unfold Matches
    rw [show (Manner.watching w).watch outer c' = _ from hrun]
    exact ⟨rfl, hset, trivial⟩
  adjust {c c' n} a _ h := by
    by_cases ha : a.searches = true
    · cases a with
      | selectFont name size => exact h.selectFont hlibrary name size
      | colorSpace target name => exact h.setColorSpace hlibrary target name
      | _ => cases ha
    · exact h.map (f := (a.apply ⟨s, n⟩ ·)) fun k watch =>
        a.apply_reshared (Bool.not_eq_true _ ▸ ha) ⟨s, n⟩ k watch
  save h := h.map (f := Canvas.save) fun _ _ => rfl
  restore h := h.restore
  setSoftMask mask h := h.map (f := (·.setSoftMask mask)) fun _ _ => rfl
  text h := by
    rw [h.eq]
    exact List.forall₂_same.2 fun p _ => .refl _ p
  clearText h := h.map (f := Canvas.clearText) fun _ _ => rfl
  outlines outlines h :=
    h.map (f := fun c => c.mapContext fun k => { k with outlines }) fun _ _ => rfl
  addGlyphs nodes h := h.map
    (f := fun c => c.mapContext fun k => { k with layout := k.layout.addGlyphs nodes }) fun _ _ => rfl
  showPiece hn _ font piece spaces h := hn.showPiece rfl
    (fun h => by rw [h.eq]; rfl)
    (fun textStyle h => h.map (f := fun c => c.mapContext fun k => { k with textStyle })
      fun _ _ => rfl)
    (fun layout h => h.map
      (f := fun c => c.mapContext fun k => { k with layout := layout k.layout }) fun _ _ => rfl)
    (fun x h => h.map (f := fun c => c.advance x) fun _ _ => rfl) font piece spaces h
  push node _ h := h.map (f := (·.push node)) fun _ _ => rfl
  append node bounds _ h := h.append s.options node bounds
  classes classes _ h := h.map
    (f := fun c => { c with definitions := { c.definitions with classes } }) fun _ _ => rfl
  insert {_ _ kind} _ key node h := h.map
    (f := fun c => { c with definitions := c.definitions.insertNew (stableId kind key) node })
    fun _ _ => rfl
  insertCell _ _ _ key node h := h.map
    (f := fun c => { c with definitions := c.definitions.insertNew (stableId "pat" key) node })
    fun _ _ => rfl
  clipTo evenOdd _ h := h.map (f := fun c => c.clipTo _ evenOdd) fun _ _ => rfl
  clipToText nodes h := h.map (f := fun c => c.clipToText nodes) fun _ _ => rfl
  formRegion parent box placement _ h := h.formRegion s.viewport parent box placement
  activeForms forms _ h := h.map (f := fun c => { c with activeForms := forms }) fun _ _ => rfl
  startCell _ _ _ _ := rfl
  startGlyph _ h := by
    rw [h.eq]
    rfl
  startForm _ _ h := by
    rw [h.eq]
    rfl
  startPage _ _ _ _ _ := rfl

/-- Pages and nested content, on every level, come out alike. -/
theorem simulation_reshares (hlibrary : s.library.Coherent (· = ·))
    (hw : ∀ outer, (w outer).OnlyShares s.library) :
    Simulation s (Manner.watching w) (fun _ _ => Canvas.Reshares s.library shared onset)
      fun _ g g' => g' = g where
  steps level outer := steps_reshares hlibrary hw outer (level ≠ 0)
  content h := by
    rw [h.eq]
    rfl
  enter _ graphics resources locked h hg := by
    subst hg
    exact h.map (f := (·.entered graphics resources locked)) fun _ _ => rfl
  leave h _ hd := by
    refine ⟨hd.found, hd.found', hd.watch, ?_⟩
    rw [hd.eq, h.eq]
    rfl

end Steps

/-! ### Documents -/

/-- The documents are the same. -/
theorem Canvas.Reshares.finish_eq {s : Setting α} {shared : ResourceCache α} {onset : Option Nat}
    {c c' : Canvas α} (hlibrary : s.library.Coherent (· = ·))
    (h : c.Reshares s.library shared onset c') : c'.finish s = c.finish s := by
  have hflushed : (c.flushText s.options).Reshares s.library shared onset (c'.flushText s.options) :=
    (steps_reshares hlibrary (fun _ => onlyShares_pure s.library) [] True).flushText h
  unfold finish
  rw [hflushed.eq]
  rfl

end PageSvg
