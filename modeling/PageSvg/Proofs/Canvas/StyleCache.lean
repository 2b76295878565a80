import PageSvg.Proofs.Canvas.Reachability
import PageSvg.Proofs.Canvas.Styling

/-!
# The last style of text

The last style of text is kept with the scale it was made for. As long as it is kept it is the style
that would be made now, up to the sign of zeros: what changes something it depends on forgets it,
and the definition it fills with stays settled.
-/

namespace PageSvg

open Draw Scalar

variable {α : Type} [Scalar α]

/-! ### What is kept -/

namespace Canvas

/-- A style with its scale is the one that can be told from the state in force and the definitions,
up to the sign of zeros, and its fill is settled. -/
def Knows (s : Setting α) (deep : Prop) (c : Canvas α) (known : α × TextStyle α) : Prop :=
  ∃ style, known.2.tidied = style.tidied ∧
    s.StyleRecalled c.context.resources deep c.definitions c.graphics known.1 style

/-- The last style of text is known where so many levels of nesting are left. There is no request to
stop, and all fonts that are or may be in force are supplied. -/
structure Remembers (s : Setting α) (found : ResourceCache α) (level : Nat) (c : Canvas α) :
    Prop where
  running : ¬c.IsStopped
  nesting : c.depth + level = s.options.maxNestingDepth
  font : ∀ f, c.graphics.text.font = some f → f.Supplied s.library found
  saved : ∀ g ∈ c.context.saved, ∀ f, g.text.font = some f → f.Supplied s.library found
  cache : ∀ k, c.cache = some k → ∀ entry ∈ k.fonts, entry.2.Supplied s.library found
  style : ∀ known, c.context.textStyle = some known → c.Knows s (level ≠ 0) known

/-- From `c` to `d` fonts and resources stay the same, definitions are added, and the last style of
text is forgotten unless the styling stays the same. -/
structure Restyles (deep : Prop) (c d : Canvas α) : Prop where
  onset : d.cancellation.onset = c.cancellation.onset
  depth : d.depth = c.depth
  cache : d.cache = c.cache
  saved : d.context.saved = c.context.saved
  resources : d.context.resources = c.context.resources
  font : d.graphics.text.font = c.graphics.text.font
  definitions : c.definitions.Extends deep d.definitions
  style : d.context.textStyle = none ∨
    d.context.textStyle = c.context.textStyle ∧ d.graphics.styling = c.graphics.styling

variable {s : Setting α} {found : ResourceCache α} {level : Nat} {c d : Canvas α}

theorem Restyles.of_definitions {definitions : Definitions} {deep : Prop}
    (h : c.definitions.Extends deep definitions) :
    c.Restyles deep { c with definitions } := ⟨rfl, rfl, rfl, rfl, rfl, rfl, h, .inr ⟨rfl, rfl⟩⟩

theorem Remembers.onset (h : c.Remembers s found level) : c.cancellation.onset = none := by
  simpa only [IsStopped, Bool.not_eq_true, Option.isSome_eq_false_iff, Option.isNone_iff_eq_none]
    using h.running

section Known

variable [ZerosAlike α] {deep : Prop} {known : α × TextStyle α}

/-- A style stays known while the styling stays the same and definitions are added. -/
theorem Knows.keep (h : c.Knows s deep known) (hresources : d.context.resources = c.context.resources)
    (hdefinitions : c.definitions.Extends deep d.definitions)
    (hstyling : d.graphics.styling = c.graphics.styling) : d.Knows s deep known := by
  obtain ⟨style, htidied, hsettled, rfl⟩ := h
  have hid : s.fillId? d.context.resources d.graphics = s.fillId? c.context.resources c.graphics := by
    rw [hresources]
    exact s.fillId_congr _ hstyling
  refine ⟨s.styleOf d.context.resources d.definitions d.graphics known.1, ?_, ?_, rfl⟩
  · rw [htidied, ← Setting.styleOf_extends hsettled hdefinitions, hresources]
    exact s.styleOf_congr _ hstyling.symm _ rfl
  · rw [hid]
    exact fun id hid => (hsettled id hid).extends hdefinitions

theorem Remembers.restyled (h : c.Remembers s found level) (hd : c.Restyles (level ≠ 0) d) :
    d.Remembers s found level where
  running := by
    unfold IsStopped
    rw [hd.onset]
    exact h.running
  nesting := hd.depth ▸ h.nesting
  font := hd.font ▸ h.font
  saved := hd.saved ▸ h.saved
  cache := hd.cache ▸ h.cache
  style known hknown := by
    rcases hd.style with hnone | ⟨hsame, hstyling⟩
    · rw [hnone] at hknown
      cases hknown
    · exact (h.style known (hsame ▸ hknown)).keep hd.resources hd.definitions hstyling

omit [ZerosAlike α] in
/-- Whatever becomes of the graphics state, its fonts are supplied and the style is forgotten. -/
theorem Remembers.mapUnless (h : c.Remembers s found level) (same : Bool)
    {f : GraphicsState α → GraphicsState α}
    (hf : ∀ font, (f c.graphics).text.font = some font → font.Supplied s.library found) :
    (c.mapUnless same f).Remembers s found level := by
  unfold Canvas.mapUnless
  split
  · exact h
  · exact ⟨h.running, h.nesting, hf, h.saved, h.cache, fun _ e => by cases e⟩

theorem Remembers.mapGraphics (h : c.Remembers s found level)
    {f : GraphicsState α → GraphicsState α}
    (hfont : (f c.graphics).text.font = c.graphics.text.font)
    (hstyling : (f c.graphics).styling = c.graphics.styling) :
    (c.mapGraphics f).Remembers s found level :=
  h.restyled ⟨rfl, rfl, rfl, rfl, rfl, hfont, .refl _, .inr ⟨rfl, hstyling⟩⟩

theorem Remembers.mapText (h : c.Remembers s found level) (f : TextState α → TextState α)
    (hfont : (f c.graphics.text).font = c.graphics.text.font)
    (hstyling : { c.graphics with text := f c.graphics.text }.styling = c.graphics.styling) :
    (c.mapText f).Remembers s found level := h.mapGraphics hfont hstyling

/-- What is done to the rest of the context leaves the graphics states, the resources and the last
style alone. -/
theorem Remembers.mapContext (h : c.Remembers s found level) {f : Context α → Context α}
    (hf : f c.context = { f c.context with
      graphics := c.context.graphics, saved := c.context.saved,
      resources := c.context.resources, textStyle := c.context.textStyle }) :
    (c.mapContext f).Remembers s found level :=
  have hgraphics : (f c.context).graphics = c.context.graphics := congrArg (·.graphics) hf
  h.restyled ⟨rfl, rfl, rfl, congrArg (·.saved) hf, congrArg (·.resources) hf,
    congrArg (·.text.font) hgraphics, .refl _,
    .inr ⟨congrArg (·.textStyle) hf, congrArg (·.styling) hgraphics⟩⟩

omit [ZerosAlike α] in
theorem Remembers.setCache (h : c.Remembers s found level) {k : ResourceCache α}
    (hk : ∀ entry ∈ k.fonts, entry.2.Supplied s.library found) :
    Remembers s found level { c with cache := some k } where
  running := h.running
  nesting := h.nesting
  font := h.font
  saved := h.saved
  cache _ e := Option.some.inj e ▸ hk
  style := h.style

end Known

end Canvas

/-! ### Fonts that are found -/

omit [Scalar α] in
/-- What is found, and what is kept from then on, is what was kept before or the page's own. -/
theorem ResourceCache.findOrAdd_all {β : Type} (P : β → Prop) {entries : List (Nat × β)} (key : Nat)
    {own : Option β} (hentries : ∀ entry ∈ entries, P entry.2) (hown : ∀ x, own = some x → P x) :
    (∀ x, (findOrAdd entries key own).1 = some x → P x) ∧
      ∀ entry ∈ (findOrAdd entries key own).2, P entry.2 := by
  unfold findOrAdd
  cases hlookup : entries.lookup key with
  | some x =>
    obtain ⟨before, after, hmem, _⟩ := List.lookup_eq_some_iff.1 hlookup
    refine ⟨fun y hy => Option.some.inj hy ▸ hentries (key, x) ?_, hentries⟩
    rw [hmem]
    exact List.mem_append_right _ List.mem_cons_self
  | none =>
    cases own with
    | none => exact ⟨fun _ hx => (by cases hx), hentries⟩
    | some x =>
      refine ⟨hown, fun entry hentry => ?_⟩
      rcases List.mem_append.1 hentry with hentry | hentry
      · exact hentries entry hentry
      · rw [List.mem_singleton.1 hentry]
        exact hown x rfl

section Finding

variable {s : Setting α} {found : ResourceCache α} {level : Nat} {c : Canvas α}
  {n : GraphicsState α → SetId → ContentStream α → Bool → Draw α (List Node)}

/-- A font that is found is supplied, and so is what is kept of it. -/
theorem Canvas.supplied_findFont
    (h : ∀ k, c.cache = some k → ∀ entry ∈ k.fonts, entry.2.Supplied s.library found)
    (name : String) :
    (c.findFont ⟨s, n⟩ name).1.Supplied s.library found ∧
      ∃ cache, (c.findFont ⟨s, n⟩ name).2 = { c with cache } ∧
        ∀ k, cache = some k → ∀ entry ∈ k.fonts, entry.2.Supplied s.library found := by
  have hown (f : Font α) (hf : (s.library.set c.context.resources).fonts.get? name = some f) :
      f.Supplied s.library found := by
    obtain ⟨set, hset, entry, hentry, rfl⟩ := s.library.mem_of_get? (·.fonts) rfl hf
    exact .resource hset hentry
  have hgetD (font? : Option (Font α)) (hfont : ∀ f, font? = some f → f.Supplied s.library found) :
      (font?.getD .standIn).Supplied s.library found := by
    cases font? with
    | none => exact .standIn
    | some f => exact hfont f rfl
  unfold Canvas.findFont
  dsimp only
  split
  · next k key hcache _ =>
    have hall := ResourceCache.findOrAdd_all (Font.Supplied s.library found) key
      (h k hcache) hown
    exact ⟨hgetD _ hall.1, _, rfl, fun _ e => Option.some.inj e ▸ hall.2⟩
  · exact ⟨hgetD _ hown, _, rfl, h⟩

theorem Canvas.Remembers.findFont (h : c.Remembers s found level) (name : String) :
    (c.findFont ⟨s, n⟩ name).1.Supplied s.library found ∧
      (c.findFont ⟨s, n⟩ name).2.Remembers s found level := by
  obtain ⟨hfont, cache, hfound, hcache⟩ := c.supplied_findFont (n := n) h.cache name
  rw [hfound]
  exact ⟨hfont, h.running, h.nesting, h.font, h.saved, hcache, h.style⟩

theorem Canvas.Remembers.findColorSpace (h : c.Remembers s found level) (name : String) :
    (c.findColorSpace ⟨s, n⟩ name).2.Remembers s found level := by
  unfold Canvas.findColorSpace
  dsimp only
  split
  · exact h
  · split
    · next k _ hcache _ => exact h.setCache (h.cache k hcache)
    · exact h

end Finding

/-! ### Adjustments -/

namespace Canvas.Remembers

variable [ZerosAlike α] {s : Setting α} {found : ResourceCache α} {level : Nat} {c : Canvas α}
  {n : GraphicsState α → SetId → ContentStream α → Bool → Draw α (List Node)}

omit [ZerosAlike α] in
theorem setPaint (h : c.Remembers s found level) (same : Bool) (target : PaintTarget) (p : Paint α) :
    (c.mapUnless same fun g => g.setPaint target p).Remembers s found level := by
  refine h.mapUnless same fun f hf => h.font f ?_
  cases target with
  | stroke => exact hf
  | fill => exact hf

omit [ZerosAlike α] in
theorem setColorSpace (h : c.Remembers s found level) (target : PaintTarget) (name : String) :
    (c.setColorSpace ⟨s, n⟩ target name).Remembers s found level := by
  unfold Canvas.setColorSpace
  split
  · exact h
  · exact (h.findColorSpace name).setPaint false target _

omit [ZerosAlike α] in
theorem setComponents (h : c.Remembers s found level) (target : PaintTarget) (values : List α) :
    (c.setComponents target values).Remembers s found level := by
  unfold Canvas.setComponents
  split
  · exact h
  · dsimp only
    split
    · exact h
    · exact h.setPaint _ target _

omit [ZerosAlike α] in
theorem setPattern (h : c.Remembers s found level) (target : PaintTarget) (name : String)
    (values : List α) : (c.setPattern target name values).Remembers s found level := by
  unfold Canvas.setPattern
  split
  · exact h
  · exact h.setPaint false target _

theorem setDeviceColor (h : c.Remembers s found level) (target : PaintTarget) (space : ColorSpace α)
    (values : List α) : (c.setDeviceColor target space values).Remembers s found level := by
  unfold Canvas.setDeviceColor
  split
  · exact h
  · -- The space is no part of the styling.
    refine setComponents ?_ target values
    cases target with
    | stroke => exact h.mapGraphics rfl rfl
    | fill => exact h.mapGraphics rfl rfl

omit [ZerosAlike α] in
theorem setColorOrPattern (h : c.Remembers s found level) (target : PaintTarget)
    (operands : List (Operand α)) :
    (c.setColorOrPattern target operands).Remembers s found level := by
  unfold Canvas.setColorOrPattern
  dsimp only
  split
  · exact h.setPattern target _ _
  · split
    · exact h.setComponents target _
    · exact h

omit [ZerosAlike α] in
theorem setFont (h : c.Remembers s found level) {f : Font α} (hf : f.Supplied s.library found)
    (size : α) : (c.setFont f size).Remembers s found level :=
  h.mapUnless _ fun _ e => Option.some.inj e ▸ hf

theorem selectFont (h : c.Remembers s found level) (name : String) (size : α) :
    (c.selectFont ⟨s, n⟩ name size).Remembers s found level := by
  obtain ⟨hfont, hfound⟩ := h.findFont (n := n) name
  unfold Canvas.selectFont
  exact (hfound.setFont hfont size).mapText _ rfl rfl

theorem moveLine (h : c.Remembers s found level) (x y : α) :
    (c.moveLine x y).Remembers s found level := h.mapText _ rfl rfl

theorem setTextMatrix (h : c.Remembers s found level) (m : Matrix α) :
    (c.setTextMatrix m).Remembers s found level := h.mapText _ rfl rfl

/-- Adjustments forget the style of text when they change something it depends on. -/
theorem adjust (h : c.Remembers s found level) (a : Adjustment α) (ha : a.Known s) :
    (a.apply ⟨s, n⟩ c).Remembers s found level := by
  unfold Adjustment.apply
  cases a with
  | transform m => exact h.mapUnless m.isIdentity fun f hf => h.font f hf
  | lineWidth width => exact h.mapUnless _ fun f hf => h.font f hf
  | lineCap code =>
    dsimp only [setLineCap]
    split
    · exact h.mapGraphics rfl rfl
    · exact h
  | lineJoin code =>
    dsimp only [setLineJoin]
    split
    · exact h.mapGraphics rfl rfl
    · exact h
  | miterLimit limit => exact h.mapGraphics rfl rfl
  | dash array phase => exact h.mapGraphics rfl rfl
  | renderingIntent name => exact h.mapGraphics rfl rfl
  | flatness tolerance => exact h.mapGraphics rfl rfl
  | fillAlpha alpha => exact h.mapUnless _ fun f hf => h.font f hf
  | strokeAlpha alpha => exact h.mapUnless _ fun f hf => h.font f hf
  | blendMode name => exact h.mapGraphics rfl rfl
  | font f size =>
    obtain ⟨set, hset, entry, hentry, size', hfont⟩ := ha
    exact h.setFont (.parameter hset hentry hfont) size
  | selectFont name size => exact h.selectFont name size
  | path f => exact h.mapContext rfl
  | takePath => exact h.mapContext rfl
  | pendingClip evenOdd => exact h.mapContext rfl
  | colorSpace target name => exact h.setColorSpace target name
  | components target values => exact h.setComponents target values
  | pattern target name values => exact h.setPattern target name values
  | colorOrPattern target operands => exact h.setColorOrPattern target operands
  | deviceColor target space values => exact h.setDeviceColor target space values
  | beginText =>
    have hbegun : (c.mapContext fun k => { k with inText := true }).Remembers s found level :=
      h.mapContext rfl
    exact hbegun.setTextMatrix _
  | leaveText => exact h.mapContext rfl
  | charSpacing spacing => exact h.mapUnless _ fun f hf => h.font f hf
  | wordSpacing spacing => exact h.mapText _ rfl rfl
  | scaling percent => exact h.mapUnless _ fun f hf => h.font f hf
  | leading distance => exact h.mapText _ rfl rfl
  | rise distance => exact h.mapText _ rfl rfl
  | renderMode code =>
    dsimp only [setRenderMode]
    split
    · exact h.mapUnless _ fun f hf => h.font f hf
    · exact h
  | moveLine x y => exact h.moveLine x y
  | moveLineSettingLeading x y =>
    exact (h.mapText (fun t => { t with leading := -y }) rfl rfl).moveLine x y
  | textMatrix m => exact h.setTextMatrix m
  | nextLine => exact h.moveLine _ _
  | advance x => exact h.mapText _ rfl rfl
  | kern n => exact h.mapText _ rfl rfl
  | lockColors => exact h.mapContext rfl
  | beginMarked => exact h.mapContext rfl
  | endMarked => exact h.mapContext rfl

/-! ### Saved states -/

omit [ZerosAlike α] in
theorem save (h : c.Remembers s found level) : c.save.Remembers s found level where
  running := h.running
  nesting := h.nesting
  font := h.font
  saved := List.forall_mem_cons.2 ⟨h.font, h.saved⟩
  cache := h.cache
  style := h.style

/-- Going back to a saved state keeps the style of text only if the state compares as equal. -/
theorem restore (hfonts : Font.Coherent s.library found) (h : c.Remembers s found level) :
    c.restore.Remembers s found level := by
  cases hsaved : c.context.saved with
  | nil =>
    unfold Canvas.restore
    rw [hsaved]
    exact h
  | cons g rest =>
    have hall := h.saved
    rw [hsaved, List.forall_mem_cons] at hall
    have hrestore : c.restore = (if g == c.graphics then c else c.dropStyle).mapContext
        fun k => { k with graphics := g, saved := rest } := by
      unfold Canvas.restore
      rw [hsaved]
    rw [hrestore]
    by_cases hsame : (g == c.graphics) = true
    · have hlooks (hfont : (g.text.font == c.graphics.text.font) = true) :
          g.currentFont.LooksAs c.graphics.currentFont := by
        have hforce := h.font
        unfold GraphicsState.currentFont
        cases hg : g.text.font with
        | none =>
          cases hc : c.graphics.text.font with
          | none => exact ⟨rfl, rfl, rfl⟩
          | some f =>
            rw [hg, hc] at hfont
            cases hfont
        | some f =>
          cases hc : c.graphics.text.font with
          | none =>
            rw [hg, hc] at hfont
            cases hfont
          | some f' =>
            rw [hg, hc] at hfont
            have hid : f.id = f'.id := eq_of_beq hfont
            exact hfonts f f' (hall.1 f hg) (hforce f' hc) hid
      have hstyling : g.styling = c.graphics.styling := GraphicsState.styling_of_beq hsame hlooks
      rw [if_pos hsame]
      exact ⟨h.running, h.nesting, hall.1, hall.2, h.cache, fun known hknown =>
        (h.style known hknown).keep rfl (.refl _) hstyling⟩
    · rw [if_neg hsame]
      exact ⟨h.running, h.nesting, hall.1, hall.2, h.cache, fun _ e => by cases e⟩

end Canvas.Remembers

/-! ### Steps -/

/-- A definition that is no cell leaves it settled which cells there are. -/
theorem Definitions.extends_insertNew {kind : String} (hkind : kind ∈ paintKinds) (deep : Prop)
    (d : Definitions) (key : String) (node : Node) :
    d.Extends deep (d.insertNew (stableId kind key) node) where
  contains id hid := (d.contains_insertNew_iff _ _ _).2 (.inr hid)
  cell _ key' hid := by
    have hall : ∀ kind ∈ paintKinds, ∃ c rest, kind.toList = c :: rest ∧ c ≠ 'p' := by
      simp only [paintKinds, List.forall_mem_cons]
      exact ⟨⟨_, _, rfl, by decide⟩, ⟨_, _, rfl, by decide⟩, ⟨_, _, rfl, by decide⟩,
        ⟨_, _, rfl, by decide⟩, by simp⟩
    obtain ⟨c, rest, hc, hne⟩ := hall kind hkind
    have hcell : "pat".toList = 'p' :: ['a', 't'] := by decide
    exact ((d.contains_insertNew_iff _ _ _).1 hid).resolve_left
      (stableId_ne hcell hc hne.symm key' key)

theorem Definitions.extends_of_deep {deep : Prop} (hdeep : deep) {d e : Definitions}
    (h : ∀ id, d.contains id = true → e.contains id = true) : d.Extends deep e :=
  ⟨h, fun hnot => absurd hdeep hnot⟩

section Keeping

variable [ZerosAlike α] {s : Setting α} {found : ResourceCache α} {level : Nat} {c : Canvas α}

namespace Canvas.Remembers

theorem append (h : c.Remembers s found level) (o : Options α) (node : Node)
    (bounds : Option (Rectangle α)) : (c.append o node bounds).Remembers s found level := by
  rw [Canvas.append_eq]
  exact h.restyled ⟨rfl, rfl, rfl, rfl, rfl, rfl, .refl _, .inr ⟨rfl, rfl⟩⟩

theorem formRegion (h : c.Remembers s found level) (viewport : Rectangle α) (parent : Option Nat)
    (box : Option (Rectangle α)) (m : Matrix α) :
    (c.formRegion viewport parent box m).2.Remembers s found level := by
  unfold Canvas.formRegion Canvas.clipToBox
  split
  · exact h
  · dsimp only
    split
    · exact h
    · exact h.restyled ⟨rfl, rfl, rfl, rfl, rfl, rfl, .refl _, .inr ⟨rfl, rfl⟩⟩

omit [ZerosAlike α] in
/-- A style is kept that can be told from the definitions. -/
theorem keepStyle {scale : α} {style : TextStyle α} (h : c.Remembers s found level)
    (hstyle : s.StyleRecalled c.context.resources (level ≠ 0) c.definitions c.graphics scale style) :
    (c.mapContext fun k => { k with textStyle := some (scale, style) }).Remembers s found level where
  running := h.running
  nesting := h.nesting
  font := h.font
  saved := h.saved
  cache := h.cache
  style _ e := Option.some.inj e ▸ ⟨style, rfl, hstyle⟩

end Canvas.Remembers

variable {n n' : Nesting α}

omit [ZerosAlike α] in
/-- The style that is made can be told from the definitions that there are then. -/
theorem Painting.matches_makeStyle_recalled {R : Canvas α → Canvas α → Prop} {c' : Canvas α}
    (hn : Painting s n n' (level ≠ 0) R) (hi : (Environment.mk s n).Isolates)
    (hremembers : ∀ {c c'}, R c c' → c.Remembers s found level) (hR : R c c') (scale : α) :
    Matches R (makeStyle ⟨s, n⟩ c.graphics scale) (makeStyle ⟨s, n'⟩ c.graphics scale) c c'
      fun style d _ =>
        d.context = c.context ∧
          s.StyleRecalled d.context.resources (level ≠ 0) d.definitions d.graphics scale style := by
  refine (matches_makeStyle (hn.keeping hi c.context) ⟨hR, rfl⟩ c.graphics scale).mono
    (fun _ _ hd => hd.1) fun style d d' hd hstyle => ⟨hd.2, ?_⟩
  have hrecalled := hstyle.resolve_left (hremembers hd.1).running
  rw [← hd.2] at hrecalled
  rw [show d.graphics = c.graphics from congrArg (·.graphics) hd.2]
  exact hrecalled

omit [ZerosAlike α] in
/-- The style that is made is known afterwards. -/
theorem matches_currentStyle_remembers
    (hn : Painting s n n' (level ≠ 0) (Canvas.Both (Canvas.Remembers s found level)))
    (hi : (Environment.mk s n).Isolates) (scale : α) (h : c.Remembers s found level) :
    Matches (Canvas.Both (Canvas.Remembers s found level)) (currentStyle ⟨s, n⟩ scale)
      (currentStyle ⟨s, n'⟩ scale) c c fun _ _ _ => True := by
  have hnew : Matches (Canvas.Both (Canvas.Remembers s found level))
      (renewStyle ⟨s, n⟩ c.graphics scale)
      (renewStyle ⟨s, n'⟩ c.graphics scale) c c fun _ _ _ => True := by
    have hmake := hn.matches_makeStyle_recalled hi And.right ⟨rfl, h⟩ scale
    refine .bind hmake fun style d d' hd hstyle => ?_
    obtain ⟨rfl, hd⟩ := hd
    exact .modifyBind (.pure ⟨rfl, hd.keepStyle hstyle.2⟩ trivial)
  rw [currentStyle_eq, currentStyle_eq]
  refine .getBind ?_
  cases c.context.textStyle with
  | none => exact hnew
  | some known => exact .ite (fun _ => .pure ⟨rfl, h⟩ trivial) fun _ => hnew

/-- **The last style of text stays known**, step by step. -/
theorem kept_remembers (hfonts : Font.Coherent s.library found) (level : Nat) :
    Kept s (level ≠ 0) (Canvas.Remembers s found level)
      fun _ g => ∀ f, g.text.font = some f → f.Supplied s.library found where
  look h := h.restyled ⟨rfl, rfl, rfl, rfl, rfl, rfl, .refl _, .inr ⟨rfl, rfl⟩⟩
  adjust a ha h := h.adjust a ha
  save h := h.save
  restore h := h.restore hfonts
  setSoftMask _ h := h.mapGraphics rfl rfl
  layout _ h := h.mapContext rfl
  outlines _ h := h.mapContext rfl
  style hn hi scale h := matches_currentStyle_remembers hn hi scale h
  push _ h := h.mapContext rfl
  append node bounds h := h.append s.options node bounds
  classes _ _ h := h.restyled (.of_definitions ⟨fun _ hid => hid, fun _ _ hid => hid⟩)
  insert hkind key node h :=
    h.restyled (.of_definitions (Definitions.extends_insertNew hkind _ _ key node))
  insertCell hdeep _ key node h := h.restyled (.of_definitions (Definitions.extends_of_deep hdeep
    fun _ hid => (Definitions.contains_insertNew_iff _ _ _ _).2 (.inr hid)))
  clipTo evenOdd _ h :=
    h.restyled ⟨rfl, rfl, rfl, rfl, rfl, rfl, .refl _, .inr ⟨rfl, rfl⟩⟩
  clipToText nodes h :=
    h.restyled ⟨rfl, rfl, rfl, rfl, rfl, rfl, .refl _, .inr ⟨rfl, rfl⟩⟩
  formRegion parent box placement _ h := h.formRegion s.viewport parent box placement
  activeForms _ _ h := h.restyled ⟨rfl, rfl, rfl, rfl, rfl, rfl, .refl _, .inr ⟨rfl, rfl⟩⟩
  startCell t paint _ _ := fun _ e => by cases t.text_cellState paint ▸ e
  startGlyph _ _ := fun _ e => by cases e
  startForm _ _ h := h.font
  startPage _ _ _ _ _ := fun _ e => by cases e

namespace Canvas.Remembers

omit [ZerosAlike α] in
/-- Nested content begins without a style. -/
theorem entered (h : c.Remembers s found (level + 1)) {graphics : GraphicsState α}
    (hfont : ∀ f, graphics.text.font = some f → f.Supplied s.library found) (resources : SetId)
    (locked : Bool) : (c.entered graphics resources locked).Remembers s found level where
  running := h.running
  nesting := by
    have hnesting := h.nesting
    show c.depth + 1 + level = _
    omega
  font := hfont
  saved _ hg := absurd hg List.not_mem_nil
  cache := h.cache
  style _ e := by cases e

/-- What nested content has defined leaves the style around it known. -/
theorem left {graphics : GraphicsState α} {resources : SetId} {locked : Bool} {d : Canvas α}
    (h : c.Remembers s found (level + 1)) (hframe : (c.entered graphics resources locked).Frame d)
    (hd : d.Remembers s found level) : (c.left d).Remembers s found (level + 1) where
  running := hd.running
  nesting := h.nesting
  font := h.font
  saved := h.saved
  cache := hd.cache
  style known hknown := (h.style known hknown).keep rfl (Definitions.extends_of_deep
    level.succ_ne_zero fun _ hid => hframe.definitions.contains hid) rfl

end Canvas.Remembers

theorem invariant_remembers (hfonts : Font.Coherent s.library found) :
    Invariant s (fun level _ => Canvas.Remembers s found level)
      fun _ g => ∀ f, g.text.font = some f → f.Supplied s.library found where
  kept level _ := kept_remembers hfonts level
  enter _ resources locked h hG := h.entered hG resources locked
  leave h hframe hd := h.left hframe hd

end Keeping

end PageSvg
