import Mathlib.Data.List.Forall2
import PageSvg.Proofs.Canvas.Following
import PageSvg.Proofs.Canvas.Orderly

/-!
# Copies of canvases

A canvas is a copy of another one if the same has been drawn on it so far, in the same state, while
its page may have more definitions, other regions, and more forms being drawn around. What is drawn
on both in the same way leaves a copy again.
-/

namespace PageSvg

variable {α : Type}

/-! ### What lies in regions that are alike -/

/-- The graphics states are the same, in regions that are alike. -/
structure GraphicsState.CutAlike (f g : ClipForest α) (x y : GraphicsState α) : Prop where
  rest : y = { x with clip := y.clip }
  clip : f.CutAlike g x.clip y.clip

section CutAlike

variable {f f' g g' : ClipForest α}

theorem GraphicsState.CutAlike.mono (hf : f.Grows f') (hg : g.Grows g') {x y : GraphicsState α}
    (h : x.CutAlike f g y) : x.CutAlike f' g' y := ⟨h.rest, h.clip.mono hf hg⟩

variable [Scalar α]

/-- Saved states are the same or not on both sides. -/
theorem GraphicsState.CutAlike.beq_eq (hf : f.Distinct) (hg : g.Distinct)
    {x x' y y' : GraphicsState α} (h : x.CutAlike f g y) (h' : x'.CutAlike f g y') : (y == y') = (x == x') := by
  have hclip : (y.clip == y'.clip) = (x.clip == x'.clip) := by
    rw [Bool.eq_iff_iff, beq_iff_eq, beq_iff_eq]
    exact (h.clip.eq_iff hf hg h'.clip).symm
  obtain ⟨_, _, _, _, _, _, _, _, _, _, _, _, _, _⟩ := x
  obtain ⟨_, _, _, _, _, _, _, _, _, _, _, _, _, _⟩ := x'
  rw [h.rest, h'.rest]
  show instBEqGraphicsState.beq _ _ = instBEqGraphicsState.beq _ _
  unfold instBEqGraphicsState.beq
  dsimp only at hclip ⊢
  rw [hclip]

/-- A cell begins in the whole area. -/
theorem Tiling.cutAlike_cellState (t : Tiling α) (paint : Paint α) :
    (t.cellState paint).CutAlike f g (t.cellState paint) := by
  refine ⟨rfl, ?_⟩
  rw [t.clip_cellState]
  exact .whole

end CutAlike

/-! ### Copies -/

/-- The page of `d` has all the definitions that the page of `c` has, and it has one of
the `name` only if that page does. The forms being drawn on `d` are those on `c`, and
some of the `forms` around. -/
structure Canvas.Hosts (s : Setting α) (name : String) (forms : List String) (c d : Canvas α) :
    Prop where
  orderly : c.Orderly s
  orderly' : d.Orderly s
  known : ∀ id, c.definitions.contains id = true → d.definitions.contains id = true
  named : d.definitions.contains name = true → c.definitions.contains name = true
  active : ∃ around, (∀ id ∈ around, id ∈ forms) ∧ d.activeForms = c.activeForms ++ around

/-- The canvas `d` is a copy of `c`, on a page that has more on it. -/
structure Canvas.Copies (s : Setting α) (name : String) (forms : List String) (c d : Canvas α) : Prop
    extends Canvas.Hosts s name forms c d where
  rest : d.context = c.context.onto d.context
  clip : c.clips.CutAlike d.clips c.graphics.clip d.graphics.clip
  saved : List.Forall₂ (GraphicsState.CutAlike c.clips d.clips) c.context.saved d.context.saved
  content : d.context.content = c.context.content
  openClip : c.clips.CutAlike d.clips c.context.openClip d.context.openClip

variable {s : Setting α} {name : String} {forms : List String} {c c' d d' : Canvas α}

namespace Canvas.Hosts

/-- Definitions of one name are added on both pages. -/
theorem insertNew (h : c.Hosts s name forms d) (id : String) (node node' : Node) :
    Hosts s name forms { c with definitions := c.definitions.insertNew id node }
      { d with definitions := d.definitions.insertNew id node' } := by
  refine ⟨h.orderly.insertNew id node, h.orderly'.insertNew id node', fun other hother => ?_,
    fun hname => ?_, h.active⟩
  · exact (Definitions.contains_insertNew_iff ..).2
      (((Definitions.contains_insertNew_iff ..).1 hother).imp_right (h.known other))
  · exact (Definitions.contains_insertNew_iff ..).2
      (((Definitions.contains_insertNew_iff ..).1 hname).imp_right h.named)

/-- The contexts do not matter. -/
theorem within (h : c.Hosts s name forms d) (hc : c' = { c with context := c'.context })
    (hd : d' = { d with context := d'.context }) : c'.Hosts s name forms d' := by
  rw [hc, hd]
  exact ⟨h.orderly.within rfl, h.orderly'.within rfl, h.known, h.named, h.active⟩

theorem withCache (h : c.Hosts s name forms d) {k l : Option (ResourceCache α)}
    (hk : ∀ m, k = some m → m.FoundIn s.library) (hl : ∀ m, l = some m → m.FoundIn s.library) :
    Hosts s name forms { c with cache := k } { d with cache := l } :=
  ⟨h.orderly.withCache hk, h.orderly'.withCache hl, h.known, h.named, h.active⟩

end Canvas.Hosts

namespace Canvas.Copies

/-! ### What copies have in common -/

theorem eq (h : c.Copies s name forms d) : d = c.onto d := by
  rw [onto, ← h.rest]

theorem graphics_eq (h : c.Copies s name forms d) :
    d.graphics = { c.graphics with clip := d.graphics.clip } := congrArg (·.graphics) h.rest

theorem graphics (h : c.Copies s name forms d) :
    c.graphics.CutAlike c.clips d.clips d.graphics := ⟨h.graphics_eq, h.clip⟩

theorem clipRectangle?_eq (h : c.Copies s name forms d) : d.clipRectangle? = c.clipRectangle? :=
  h.clip.plainRectangle?_eq

theorem resources_eq (h : c.Copies s name forms d) : d.context.resources = c.context.resources :=
  congrArg (·.resources) h.rest

theorem environment (h : c.Copies s name forms d) (n n' : Nesting α) :
    (Environment.mk s n').resources d = (Environment.mk s n).resources c :=
  congrArg s.library.set h.resources_eq

/-! ### Changes of the context -/

theorem onto (h : c.Copies s name forms d) (x : Canvas α) :
    (x.onto c).Copies s name forms (x.onto d) where
  toHosts := h.toHosts.within rfl rfl
  rest := rfl
  clip := h.clip
  saved := h.saved
  content := h.content
  openClip := h.openClip

/-- What does not look at the page, or at what has been drawn on it, gives copies of copies. -/
theorem map (h : c.Copies s name forms d) {f : Canvas α → Canvas α}
    (hf : ∀ page, f (c.onto page) = (f c).onto page) : (f c).Copies s name forms (f d) := by
  have hc : f c = (f c).onto c := hf c
  have hd : f d = (f c).onto d := by rw [← hf, ← h.eq]
  have hcopy := h.onto (f c)
  rwa [← hc, ← hd] at hcopy

/-- The contexts are left alone. -/
theorem of_hosts (h : c.Copies s name forms d) (hosts : c'.Hosts s name forms d')
    (hc : c'.context = c.context) (hd : d'.context = d.context) (hclips : c.clips.Grows c'.clips)
    (hclips' : d.clips.Grows d'.clips) : c'.Copies s name forms d' where
  toHosts := hosts
  rest := by rw [hc, hd, ← h.rest]
  clip := by
    unfold Canvas.graphics
    rw [hc, hd]
    exact h.clip.mono hclips hclips'
  saved := by
    rw [hc, hd]
    exact h.saved.imp fun _ _ hg => hg.mono hclips hclips'
  content := by
    rw [hc, hd]
    exact h.content
  openClip := by
    rw [hc, hd]
    exact h.openClip.mono hclips hclips'

theorem insertNew (h : c.Copies s name forms d) (id : String) (node node' : Node) :
    Copies s name forms { c with definitions := c.definitions.insertNew id node }
      { d with definitions := d.definitions.insertNew id node' } :=
  h.of_hosts (h.toHosts.insertNew id node node') rfl rfl (.refl _) (.refl _)

theorem looked (h : c.Copies s name forms d) : c.looked.Copies s name forms d.looked :=
  h.of_hosts ⟨⟨h.orderly.precision, h.orderly.distinct, h.orderly.named, h.orderly.found,
    h.orderly.running⟩, ⟨h.orderly'.precision, h.orderly'.distinct, h.orderly'.named,
    h.orderly'.found, h.orderly'.running⟩, h.known, h.named, h.active⟩ rfl rfl (.refl _) (.refl _)

theorem save (h : c.Copies s name forms d) : c.save.Copies s name forms d.save where
  toHosts := h.toHosts.within rfl rfl
  rest := congrArg (fun k => { k with saved := d.graphics :: d.context.saved }) h.rest
  clip := h.clip
  saved := .cons h.graphics h.saved
  content := h.content
  openClip := h.openClip

/-- The graphics state and the saved ones are replaced. -/
theorem resume (h : c.Copies s name forms d) {g g' : GraphicsState α}
    {rest rest' : List (GraphicsState α)} (hg : g.CutAlike c.clips d.clips g')
    (hrest : List.Forall₂ (GraphicsState.CutAlike c.clips d.clips) rest rest') :
    (c.mapContext fun k => { k with graphics := g, saved := rest }).Copies s name forms
      (d.mapContext fun k => { k with graphics := g', saved := rest' }) := by
  have hclip := hg.clip
  obtain ⟨k, rfl⟩ : ∃ k, g' = { g with clip := k } := ⟨_, hg.rest⟩
  refine ⟨h.toHosts.within rfl rfl, ?_, hclip, hrest, h.content, h.openClip⟩
  exact congrArg (fun l => { l with graphics := { g with clip := k }, saved := rest' }) h.rest

/-- The clip region is replaced. -/
theorem clipped (h : c.Copies s name forms d) {p q : Option Nat}
    (hclip : c.clips.CutAlike d.clips p q) :
    (c.mapGraphics fun g => { g with clip := p }).Copies s name forms
      (d.mapGraphics fun g => { g with clip := q }) := by
  refine ⟨h.toHosts.within rfl rfl, ?_, hclip, h.saved, h.content, h.openClip⟩
  exact congrArg (fun l => { l with graphics := { l.graphics with clip := q } }) h.rest

/-- More has been drawn. -/
theorem redrawn (h : c.Copies s name forms d) {content content' : List Node} {p q : Option Nat}
    (hcontent : content' = content) (hopen : c.clips.CutAlike d.clips p q) :
    (c.mapContext fun k => { k with content, openClip := p }).Copies s name forms
      (d.mapContext fun k => { k with content := content', openClip := q }) := by
  refine ⟨h.toHosts.within rfl rfl, ?_, h.clip, h.saved, hcontent, hopen⟩
  exact congrArg (fun l => { l with content := content', openClip := q }) h.rest

theorem push (h : c.Copies s name forms d) (node : Node) :
    (c.push node).Copies s name forms (d.push node) :=
  h.redrawn (congrArg (node :: ·) h.content) .whole

theorem pushAll (h : c.Copies s name forms d) (nodes : List Node) :
    (c.pushAll nodes).Copies s name forms (d.pushAll nodes) := by
  unfold Canvas.pushAll
  induction nodes generalizing c d with
  | nil => exact h
  | cons node rest ih => exact ih (h.push node)

section Scalars

variable [Scalar α]

theorem restore (h : c.Copies s name forms d) : c.restore.Copies s name forms d.restore := by
  have hsaved := h.saved
  unfold Canvas.restore
  generalize c.context.saved = states at hsaved ⊢
  generalize d.context.saved = states' at hsaved ⊢
  cases hsaved with
  | nil => exact h
  | @cons g g' rest rest' hg hrest =>
    dsimp only
    rw [hg.beq_eq h.orderly.distinct h.orderly'.distinct h.graphics]
    by_cases hsame : (g == c.graphics) = true
    · rw [if_pos hsame, if_pos hsame]
      exact h.resume hg hrest
    · rw [if_neg hsame, if_neg hsame]
      exact (h.map (f := dropStyle) fun _ => rfl).resume hg hrest

theorem adjust {n n' : Nesting α} (hlibrary : s.library.Coherent (· = ·))
    (h : c.Copies s name forms d) (a : Adjustment α) :
    (a.apply ⟨s, n⟩ c).Copies s name forms (a.apply ⟨s, n'⟩ d) := by
  by_cases ha : a.searches = true
  · cases a with
    | selectFont label size =>
      obtain ⟨k, hk, hfound⟩ := h.orderly.findFont (n := n) hlibrary label
      obtain ⟨l, hl, hfound'⟩ := h.orderly'.findFont (n := n') hlibrary label
      have hcopy := h.of_hosts (h.toHosts.withCache hk hl) rfl rfl (.refl _) (.refl _)
      show (c.selectFont ⟨s, n⟩ label size).Copies s name forms (d.selectFont ⟨s, n'⟩ label size)
      unfold Canvas.selectFont
      rw [hfound, hfound', h.resources_eq]
      exact (hcopy.map (f := (Adjustment.apply ⟨s, n⟩ · (.font _ size))) fun page =>
        Adjustment.apply_onto _ rfl ⟨s, n⟩ page).map
          (f := fun c => c.mapText fun t => { t with fontName := some label }) fun _ => rfl
    | colorSpace target label =>
      obtain ⟨k, hk, hfound⟩ := h.orderly.findColorSpace (n := n) hlibrary label
      obtain ⟨l, hl, hfound'⟩ := h.orderly'.findColorSpace (n := n') hlibrary label
      have hcopy := h.of_hosts (h.toHosts.withCache hk hl) rfl rfl (.refl _) (.refl _)
      show (c.setColorSpace ⟨s, n⟩ target label).Copies s name forms
        (d.setColorSpace ⟨s, n'⟩ target label)
      have hlocked : d.context.colorLocked = c.context.colorLocked := congrArg (·.colorLocked) h.rest
      unfold Canvas.setColorSpace
      rw [hfound, hfound', h.resources_eq, hlocked]
      split
      · exact h
      · let space := (s.ownColorSpace? c.context.resources label).getD .deviceGray
        refine hcopy.map (f := fun d => (d.setPaint target
          { d.paint target with
            rgb := space.initialRgb
            components := List.replicate space.components 0
            space := space
            pattern := none }).dropStyle) fun _ => ?_
        cases target <;> rfl
    | _ => cases ha
  · exact h.map (f := (a.apply ⟨s, n⟩ ·)) fun page =>
      a.apply_onto (Bool.not_eq_true _ ▸ ha) ⟨s, n⟩ page

/-! ### Marks -/

theorem fits_eq (h : c.Copies s name forms d) (o : Options α) (bounds : Option (Rectangle α)) :
    d.fits o bounds = c.fits o bounds := by
  unfold fits
  rw [h.clipRectangle?_eq]

omit [Scalar α] in
/-- The group of a region is open on both sides or on neither. -/
theorem pushClipped (h : c.Copies s name forms d) {i j : Nat}
    (hregion : c.clips.CutAlike d.clips (some i) (some j)) (node : Node) :
    (c.mapContext (·.pushClipped i (c.clips.id i) node)).Copies s name forms
      (d.mapContext (·.pushClipped j (d.clips.id j) node)) := by
  have hsame : c.context.openClip = some i ↔ d.context.openClip = some j :=
    h.openClip.eq_iff h.orderly.distinct h.orderly'.distinct hregion
  unfold mapContext
  rw [hregion.id_eq]
  dsimp only
  rw [Context.pushClipped_eq, Context.pushClipped_eq]
  rcases Call.open_or_closed c.context.drawn i with ⟨group, rest, hopen, hcontent⟩ | hclosed
  · rw [Call.addTo_of_open hopen hcontent,
      Call.addTo_of_open (hsame.1 hopen) (h.content.trans hcontent)]
    exact h.redrawn rfl hregion
  · rw [Call.addTo_of_closed hclosed,
      Call.addTo_of_closed fun hopen => h.content.trans (hclosed (hsame.2 hopen))]
    exact h.redrawn (congrArg (_ :: ·) h.content) hregion

theorem append (h : c.Copies s name forms d) (o : Options α) (node : Node)
    (bounds : Option (Rectangle α)) :
    (c.append o node bounds).Copies s name forms (d.append o node bounds) := by
  have heffects : d.graphics.withEffects node = c.graphics.withEffects node := by
    rw [h.graphics_eq]
    rfl
  have hclip := h.clip
  unfold Canvas.append
  rw [heffects, h.fits_eq]
  generalize c.graphics.clip = clip at hclip ⊢
  generalize d.graphics.clip = clip' at hclip ⊢
  cases clip with
  | none =>
    cases hclip
    exact h.push _
  | some i =>
    obtain ⟨j, rfl⟩ : ∃ j, clip' = some j := by
      cases hclip
      exact ⟨_, rfl⟩
    dsimp only
    split
    · exact h.push _
    · have hgrows := c.clips.grows_mark i
      have hgrows' := d.clips.grows_mark j
      have hmarked : Copies s name forms { c with clips := c.clips.mark i }
          { d with clips := d.clips.mark j } :=
        h.of_hosts ⟨h.orderly.mark i, h.orderly'.mark j, h.known, h.named, h.active⟩ rfl rfl hgrows
          hgrows'
      exact hmarked.pushClipped (hclip.mono hgrows hgrows') _

/-- The elements of a paragraph are the same, whatever rules there are. -/
theorem paragraphNodes (h : c.Copies s name forms d) (p : Paragraph α) (part : TextPart) :
    (d.paragraphNodes s.options p part).1 = (c.paragraphNodes s.options p part).1 ∧
      (c.paragraphNodes s.options p part).2.Copies s name forms
        (d.paragraphNodes s.options p part).2 := by
  obtain ⟨nodes, hnodes⟩ := Layout.steady_nodes s.options p part
  obtain ⟨hc, hcnamed⟩ := hnodes c.definitions h.orderly.named
  obtain ⟨hd, hdnamed⟩ := hnodes d.definitions h.orderly'.named
  have hcontains (e : Definitions) (id : String) :
      ((Layout.nodes s.options p part).run e).2.contains id = e.contains id := by
    rw [Layout.onlyRules_nodes s.options p part e]
    rfl
  refine ⟨hd.trans hc.symm, h.of_hosts ⟨?_, ?_, fun id hid => ?_, fun hname => ?_, h.active⟩ rfl rfl
    (.refl _) (.refl _)⟩
  · exact ⟨h.orderly.precision, h.orderly.distinct, hcnamed, h.orderly.found, h.orderly.running⟩
  · exact ⟨h.orderly'.precision, h.orderly'.distinct, hdnamed, h.orderly'.found, h.orderly'.running⟩
  · exact (hcontains _ id).trans (h.known id ((hcontains _ id).symm.trans hid))
  · exact (hcontains _ name).trans (h.named ((hcontains _ name).symm.trans hname))

theorem drawPart (h : c.Copies s name forms d) (p : Paragraph α) (bounds : Option (Rectangle α))
    (part : TextPart) : (c.drawPart s.options p bounds part).Copies s name forms
      (d.drawPart s.options p bounds part) := by
  have happend (nodes : List Node) {c d : Canvas α} (h : c.Copies s name forms d) :
      (nodes.foldl (fun c node => c.append s.options node bounds) c).Copies s name forms
        (nodes.foldl (fun c node => c.append s.options node bounds) d) := by
    induction nodes generalizing c d with
    | nil => exact h
    | cons node rest ih => exact ih (h.append s.options node bounds)
  obtain ⟨hnodes, hcopy⟩ := h.paragraphNodes p part
  unfold Canvas.drawPart
  dsimp only
  rw [hnodes]
  exact happend _ hcopy

theorem drawParagraph (h : c.Copies s name forms d) (p : Paragraph α) :
    (c.drawParagraph s.options p).Copies s name forms (d.drawParagraph s.options p) := by
  have hparts (parts : List TextPart) {c d : Canvas α} (h : c.Copies s name forms d) :
      (parts.foldl (Canvas.drawPart s.options p (paragraphBounds p)) c).Copies s name forms
        (parts.foldl (Canvas.drawPart s.options p (paragraphBounds p)) d) := by
    induction parts generalizing c d with
    | nil => exact h
    | cons part rest ih => exact ih (h.drawPart p _ part)
  unfold Canvas.drawParagraph
  cases p.glyphs? with
  | some nodes => exact h.pushAll nodes
  | none =>
    dsimp only
    obtain ⟨hnodes, hcopy⟩ := (hparts
      (.visible :: if s.options.includeHiddenText then [.invisible] else []) h).paragraphNodes p .clip
    rw [hnodes]
    exact hcopy.map (f := fun c => c.mapContext fun k => { k with outlines := k.outlines ++ _ })
      fun _ => rfl

theorem flushText (h : c.Copies s name forms d) :
    (c.flushText s.options).Copies s name forms (d.flushText s.options) := by
  have hparagraphs (paragraphs : List (Paragraph α)) {c d : Canvas α} (h : c.Copies s name forms d) :
      (paragraphs.foldl (Canvas.drawParagraph s.options) c).Copies s name forms
        (paragraphs.foldl (Canvas.drawParagraph s.options) d) := by
    induction paragraphs generalizing c d with
    | nil => exact h
    | cons p rest ih => exact ih (h.drawParagraph p)
  have hlayout : d.context.layout = c.context.layout := congrArg (·.layout) h.rest
  unfold Canvas.flushText
  rw [hlayout]
  split
  · exact h
  · exact hparagraphs _ (h.map (f := mapContext fun k => { k with layout := .empty }) fun _ => rfl)

theorem gradient (h : c.Copies s name forms d) (shading : Shading α) (m : Matrix α) :
    (d.gradient s.options shading m).1 = (c.gradient s.options shading m).1 ∧
      (c.gradient s.options shading m).2.Copies s name forms (d.gradient s.options shading m).2 := by
  unfold Canvas.gradient
  cases shading.gradient? s.options m with
  | none => exact ⟨rfl, h⟩
  | some node => exact ⟨rfl, h.insertNew _ node node⟩

theorem paintShading (h : c.Copies s name forms d) (shading : Shading α) :
    (c.paintShading s shading).Copies s name forms (d.paintShading s shading) := by
  have hflushed := h.flushText
  unfold Canvas.paintShading
  dsimp only
  generalize c.flushText s.options = e at hflushed ⊢
  generalize d.flushText s.options = e' at hflushed ⊢
  have hctm : e'.graphics.ctm = e.graphics.ctm := by rw [hflushed.graphics_eq]
  obtain ⟨hid, hcopy⟩ := hflushed.gradient shading e.graphics.ctm
  unfold shadingArea
  rw [hctm, hflushed.clipRectangle?_eq, hid]
  exact hcopy.append s.options _ _

theorem drawBroken (h : c.Copies s name forms d) :
    (Image.drawBroken s.options c).Copies s name forms (Image.drawBroken s.options d) := by
  have hctm : d.graphics.ctm = c.graphics.ctm := by rw [h.graphics_eq]
  unfold Image.drawBroken Image.placement
  rw [hctm]
  exact h.append s.options _ _

omit [Scalar α] in
theorem place (h : c.Copies s name forms d) (f : Form α) (nodes : List Node) :
    (f.place c nodes).Copies s name forms (f.place d nodes) := by
  unfold Form.place
  rw [h.graphics_eq]
  dsimp only
  split
  · exact h
  · split
    · exact h.pushAll nodes
    · exact h.push _

omit [Scalar α] in
/-- The same has been drawn. -/
theorem content_eq (h : c.Copies s name forms d) : d.content = c.content :=
  congrArg List.reverse h.content

/-! ### Clip regions

Regions are cut alike as long as one name stands for one shape. -/

theorem cut (h : c.Copies s name forms d) (cut : ClipCut α)
    (hgood : (c.clips.cut c.graphics.clip cut).2.Consistent (d.clips.cut d.graphics.clip cut).2) :
    Copies s name forms
      (mapGraphics (fun g => { g with clip := some (c.clips.cut c.graphics.clip cut).1 })
        { c with clips := (c.clips.cut c.graphics.clip cut).2 })
      (mapGraphics (fun g => { g with clip := some (d.clips.cut d.graphics.clip cut).1 })
        { d with clips := (d.clips.cut d.graphics.clip cut).2 }) := by
  have hprecision := h.orderly'.precision.trans h.orderly.precision.symm
  have hcopy : Copies s name forms { c with clips := (c.clips.cut c.graphics.clip cut).2 }
      { d with clips := (d.clips.cut d.graphics.clip cut).2 } :=
    h.of_hosts ⟨h.orderly.cut _ cut, h.orderly'.cut _ cut, h.known, h.named, h.active⟩ rfl rfl
      (c.clips.grows_cut _ cut) (d.clips.grows_cut _ cut)
  exact hcopy.clipped (h.clip.cut_alike hprecision cut hgood)

theorem clipTo (h : c.Copies s name forms d) (device : Path α) (evenOdd : Bool)
    (hgood : (c.clipTo device evenOdd).Unspoilt name (d.clipTo device evenOdd)) :
    (c.clipTo device evenOdd).Copies s name forms (d.clipTo device evenOdd) :=
  h.cut (.path device evenOdd) hgood.consistent

theorem clipToText (h : c.Copies s name forms d) (nodes : List Node)
    (hgood : (c.clipToText nodes).Unspoilt name (d.clipToText nodes)) :
    (c.clipToText nodes).Copies s name forms (d.clipToText nodes) :=
  h.cut (.text nodes) hgood.consistent

theorem endText (h : c.Copies s name forms d)
    (hgood : (c.endText s.options).Unspoilt name (d.endText s.options)) :
    (c.endText s.options).Copies s name forms (d.endText s.options) := by
  have hended := h.map (f := mapContext fun k => { k with inText := false }) fun _ => rfl
  have hflushed := hended.flushText
  unfold Canvas.endText at hgood ⊢
  dsimp only at hgood ⊢
  generalize (c.mapContext fun k => { k with inText := false }).flushText s.options = e at *
  generalize (d.mapContext fun k => { k with inText := false }).flushText s.options = e' at *
  have houtlines : e'.context.outlines = e.context.outlines := congrArg (·.outlines) hflushed.rest
  rw [houtlines] at hgood ⊢
  by_cases hempty : e.context.outlines.isEmpty = true
  · rw [if_pos hempty, if_pos hempty]
    exact hflushed
  · rw [if_neg hempty, if_neg hempty] at hgood ⊢
    exact (hflushed.map (f := mapContext fun k => { k with outlines := [] }) fun _ => rfl).clipToText
      _ hgood

end Scalars

end Canvas.Copies

section Boxes

variable [Scalar α]

/-- The box of a form matters on both pages or on neither, and regions that are alike are cut to it
alike. -/
theorem Canvas.Hosts.formRegion (h : c.Hosts s name forms d) {p q : Option Nat}
    (hclip : c.clips.CutAlike d.clips p q) (viewport : Rectangle α) (box : Option (Rectangle α))
    (m : Matrix α)
    (hgood : (c.formRegion viewport p box m).2.Unspoilt name (d.formRegion viewport q box m).2) :
    (c.formRegion viewport p box m).2.Hosts s name forms (d.formRegion viewport q box m).2 ∧
      (c.formRegion viewport p box m).2.clips.CutAlike (d.formRegion viewport q box m).2.clips
        (c.formRegion viewport p box m).1 (d.formRegion viewport q box m).1 := by
  have hprecision := h.orderly'.precision.trans h.orderly.precision.symm
  unfold Canvas.formRegion Canvas.clipToBox at hgood ⊢
  cases box with
  | none => exact ⟨h, hclip⟩
  | some box =>
    have hmoot : boxIsMoot viewport d.clips q (Path.transform m box.toPath) =
        boxIsMoot viewport c.clips p (Path.transform m box.toPath) := by
      unfold boxIsMoot
      rw [hclip.plainRectangle?_eq, hclip.isNone_eq]
    dsimp only at hgood ⊢
    rw [hmoot] at hgood ⊢
    by_cases hbox : boxIsMoot viewport c.clips p (Path.transform m box.toPath) = true
    · rw [if_pos hbox, if_pos hbox]
      exact ⟨h, hclip⟩
    · rw [if_neg hbox, if_neg hbox] at hgood ⊢
      exact ⟨⟨h.orderly.cut p (.path _ false), h.orderly'.cut q (.path _ false), h.known, h.named,
        h.active⟩, hclip.cut_alike hprecision (.path _ false) hgood.consistent⟩

/-- The region of a form on the first page alone. -/
theorem Canvas.Hosts.formRegion_left (h : c.Hosts s name forms d) (viewport : Rectangle α)
    (p : Option Nat) (box : Option (Rectangle α)) (m : Matrix α) :
    (c.formRegion viewport p box m).2.Hosts s name forms d := by
  have horderly := h.orderly.formRegion viewport p box m
  rw [c.snd_formRegion] at horderly ⊢
  exact ⟨horderly, h.orderly', h.known, h.named, h.active⟩

end Boxes

end PageSvg
