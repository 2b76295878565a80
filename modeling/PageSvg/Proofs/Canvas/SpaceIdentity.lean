import PageSvg.Proofs.Canvas.Rebuilding
import PageSvg.Proofs.Canvas.SharedCache

/-!
# The identities of colour spaces

Where resources are shared, a colour space may be taken that is the same but for its identity.
Whether a restored state is the one in force may come out differently then, and with it whether the
last style of text is kept. What is drawn does not change: a page whose styles are kept comes out as
one with spaces of other identities whose styles are made anew.
-/

namespace PageSvg

open Draw

variable {α β : Type}

/-! ### Spaces, paints and states -/

/-- The spaces are the same but for the identities of their conversions. -/
inductive ColorSpace.Alike : ColorSpace α → ColorSpace α → Prop
  | refl (space : ColorSpace α) : Alike space space
  | custom (conversion : ColorConversion α) (identity : Nat) :
    Alike (custom conversion) (custom { conversion with identity })
  | patternOver {a b : ColorSpace α} (h : Alike a b) : Alike (patternOver a) (patternOver b)

namespace ColorSpace.Alike

variable {a b c : ColorSpace α}

theorem symm (h : a.Alike b) : b.Alike a := by
  induction h with
  | refl space => exact .refl space
  | custom conversion identity => exact .custom { conversion with identity } conversion.identity
  | patternOver _ ih => exact .patternOver ih

theorem trans (h : a.Alike b) (h' : b.Alike c) : a.Alike c := by
  induction h generalizing c with
  | refl space => exact h'
  | custom conversion identity =>
    cases h' with
    | refl _ => exact .custom conversion identity
    | custom _ identity' => exact .custom conversion identity'
  | patternOver h ih =>
    cases h' with
    | refl _ => exact .patternOver h
    | patternOver h' => exact .patternOver (ih h')

theorem components_eq (h : a.Alike b) : b.components = a.components := by
  induction h with
  | refl space => rfl
  | custom conversion identity => rfl
  | patternOver _ ih => exact ih

theorem isPattern_eq (h : a.Alike b) : b.isPattern = a.isPattern := by
  cases h <;> rfl

variable [Scalar α]

theorem initialRgb_eq (h : a.Alike b) : b.initialRgb = a.initialRgb := by
  induction h with
  | refl space => rfl
  | custom conversion identity => rfl
  | patternOver _ ih => exact ih

theorem toRgb?_eq (h : a.Alike b) : b.toRgb? = a.toRgb? := by
  induction h with
  | refl space => rfl
  | custom conversion identity =>
    funext values
    unfold ColorSpace.toRgb?
    rfl
  | patternOver _ ih =>
    funext values
    unfold ColorSpace.toRgb?
    rw [ih]

end ColorSpace.Alike

/-- The paints are the same but for the identities of their spaces. -/
def Paint.Alike (p p' : Paint α) : Prop :=
  ∃ space, p.space.Alike space ∧ p' = { p with space }

theorem Paint.Alike.refl (p : Paint α) : p.Alike p := ⟨p.space, .refl _, rfl⟩

/-- The states are the same but for the identities of the spaces of their paints. -/
def GraphicsState.Alike (g g' : GraphicsState α) : Prop :=
  ∃ fill stroke, g.fill.space.Alike fill ∧ g.stroke.space.Alike stroke ∧ g' = g.inSpaces fill stroke

namespace GraphicsState.Alike

variable {g g' : GraphicsState α}

theorem refl (g : GraphicsState α) : g.Alike g :=
  ⟨g.fill.space, g.stroke.space, .refl _, .refl _, rfl⟩

theorem marks (h : g.Alike g') : g.MarksAlike g' := by
  obtain ⟨fill, stroke, _, _, rfl⟩ := h
  exact ⟨fill, stroke, rfl⟩

/-- A function of states that does not look at spaces. -/
theorem map (h : g.Alike g') {f : GraphicsState α → GraphicsState α}
    (hf : ∀ g fill stroke, f (g.inSpaces fill stroke) = (f g).inSpaces fill stroke) :
    (f g).Alike (f g') := by
  obtain ⟨fill, stroke, hfill, hstroke, rfl⟩ := h
  have hself : f g = (f g).inSpaces g.fill.space g.stroke.space := hf g g.fill.space g.stroke.space
  refine ⟨fill, stroke, ?_, ?_, hf g fill stroke⟩
  · rw [hself]
    exact hfill
  · rw [hself]
    exact hstroke

end GraphicsState.Alike

/-! ### Canvases -/

/-- The canvas with other states, in force and saved, and with other shared resources. -/
def Canvas.inStates (c : Canvas α) (g : GraphicsState α) (saved : List (GraphicsState α))
    (k : Option (ResourceCache α)) : Canvas α :=
  { c with context := { c.context with graphics := g, saved }, cache := k }

/-- The canvas `c'` is the same as `c` but for the identities of spaces and for what is shared. All
that is shared was found in the library, and that of `c` is what was `shared` at first and more. -/
structure Canvas.Respaced (library : Library α) (shared : ResourceCache α) (c c' : Canvas α) :
    Prop where
  graphics : c.graphics.Alike c'.graphics
  saved : List.Forall₂ GraphicsState.Alike c.context.saved c'.context.saved
  found : ∃ k, c.cache = some k ∧ k.FoundIn library ∧ shared.Grows k
  found' : ∃ k, c'.cache = some k ∧ k.FoundIn library
  eq : c' = c.inStates c'.graphics c'.context.saved c'.cache

namespace Canvas.Respaced

variable {library : Library α} {shared : ResourceCache α} {c c' : Canvas α}

theorem agrees (h : c.Respaced library shared c') : c.Agrees c' := by
  refine ⟨h.graphics.marks, ?_, ?_, ?_, ?_, ?_, ?_, ?_, ?_⟩ <;> rw [h.eq] <;> rfl

/-- What does not look at spaces is the same in both states. -/
theorem read (h : c.Respaced library shared c') {γ : Type} {f : GraphicsState α → γ}
    (hf : ∀ g fill stroke, f (g.inSpaces fill stroke) = f g) : f c'.graphics = f c.graphics := by
  obtain ⟨fill, stroke, hg⟩ := h.graphics.marks
  rw [hg, hf]

/-- A function that leaves alone the states and what is shared, and does not look at spaces. -/
theorem map (h : c.Respaced library shared c') {f : Canvas α → Canvas α}
    (hf : ∀ fill stroke saved k, f (c.inStates (c.graphics.inSpaces fill stroke) saved k) =
      (f c).inStates (c.graphics.inSpaces fill stroke) saved k) :
    (f c).Respaced library shared (f c') := by
  have hself : f c = (f c).inStates c.graphics c.context.saved c.cache :=
    hf c.graphics.fill.space c.graphics.stroke.space c.context.saved c.cache
  have hother : f c' = (f c).inStates c'.graphics c'.context.saved c'.cache := by
    obtain ⟨fill, stroke, hg⟩ := h.graphics.marks
    rw [hg, ← hf, ← hg, ← h.eq]
  have hgraphics : (f c).graphics = c.graphics := congrArg (·.graphics) hself
  have hsaved : (f c).context.saved = c.context.saved := congrArg (·.context.saved) hself
  have hcache : (f c).cache = c.cache := congrArg (·.cache) hself
  rw [hother]
  exact ⟨hgraphics ▸ h.graphics, hsaved ▸ h.saved, hcache ▸ h.found, h.found', rfl⟩

/-- Both states are replaced. -/
theorem setGraphics (h : c.Respaced library shared c') {g g' : GraphicsState α} (hg : g.Alike g') :
    Respaced library shared (c.mapContext fun k => { k with graphics := g })
      (c'.mapContext fun k => { k with graphics := g' }) := by
  refine ⟨hg, h.saved, h.found, h.found', ?_⟩
  rw [h.eq]
  rfl

theorem mapGraphics (h : c.Respaced library shared c') {f : GraphicsState α → GraphicsState α}
    (hf : ∀ g fill stroke, f (g.inSpaces fill stroke) = (f g).inSpaces fill stroke) :
    (c.mapGraphics f).Respaced library shared (c'.mapGraphics f) := h.setGraphics (h.graphics.map hf)

theorem mapText (h : c.Respaced library shared c') (f : TextState α → TextState α) :
    (c.mapText f).Respaced library shared (c'.mapText f) :=
  h.mapGraphics (f := fun g => { g with text := f g.text }) fun _ _ _ => rfl

theorem dropStyle (h : c.Respaced library shared c') :
    c.dropStyle.Respaced library shared c'.dropStyle :=
  h.map (f := Canvas.dropStyle) fun _ _ _ _ => rfl

theorem ite (h : c.Respaced library shared c') {d d' : Canvas α} (hd : d.Respaced library shared d')
    {b b' : Bool} (hb : b' = b) :
    Respaced library shared (if b then c else d) (if b' then c' else d') := by
  cases hb
  split
  · exact h
  · exact hd

/-- A change of the state, unless the value in question is the same as before. -/
theorem mapUnless (h : c.Respaced library shared c') (same : GraphicsState α → Bool)
    {f : GraphicsState α → GraphicsState α}
    (hsame : ∀ g fill stroke, same (g.inSpaces fill stroke) = same g)
    (hf : ∀ g fill stroke, f (g.inSpaces fill stroke) = (f g).inSpaces fill stroke) :
    (c.mapUnless (same c.graphics) f).Respaced library shared
      (c'.mapUnless (same c'.graphics) f) :=
  h.ite (h.mapGraphics hf).dropStyle (h.read hsame)

/-! ### Colours -/

theorem paint (h : c.Respaced library shared c') (target : PaintTarget) :
    (c.paint target).Alike (c'.paint target) := by
  obtain ⟨fill, stroke, hfill, hstroke, hg⟩ := h.graphics
  unfold Canvas.paint
  rw [hg]
  cases target with
  | fill => exact ⟨fill, hfill, rfl⟩
  | stroke => exact ⟨stroke, hstroke, rfl⟩

theorem setPaint (h : c.Respaced library shared c') (target : PaintTarget) {p p' : Paint α}
    (hp : p.Alike p') :
    (c.setPaint target p).Respaced library shared (c'.setPaint target p') := by
  refine h.setGraphics ?_
  obtain ⟨fill, stroke, hfill, hstroke, hg⟩ := h.graphics
  obtain ⟨space, hspace, rfl⟩ := hp
  rw [show c'.context.graphics = c.graphics.inSpaces fill stroke from hg]
  cases target with
  | fill => exact ⟨space, stroke, hspace, hstroke, rfl⟩
  | stroke => exact ⟨fill, space, hfill, hspace, rfl⟩

variable [Scalar α]

theorem setComponents (h : c.Respaced library shared c') (target : PaintTarget) (values : List α) :
    (c.setComponents target values).Respaced library shared (c'.setComponents target values) := by
  obtain ⟨space, hspace, hp⟩ := h.paint target
  unfold Canvas.setComponents
  refine h.ite ?_ h.agrees.colorLocked
  dsimp only
  rw [hp, hspace.toRgb?_eq]
  cases (c.paint target).space.toRgb? values with
  | none => exact h
  | some rgb =>
    have hset := h.setPaint target
      (p := { c.paint target with rgb, components := values, pattern := none }) ⟨space, hspace, rfl⟩
    exact h.ite hset.dropStyle rfl

theorem setDeviceColor (h : c.Respaced library shared c') (target : PaintTarget)
    (space : ColorSpace α) (values : List α) :
    (c.setDeviceColor target space values).Respaced library shared
      (c'.setDeviceColor target space values) := by
  obtain ⟨_, _, hp⟩ := h.paint target
  have hset := (h.setPaint target (p := { c.paint target with space })
    (.refl _)).setComponents target values
  unfold Canvas.setDeviceColor
  refine h.ite ?_ h.agrees.colorLocked
  rw [hp]
  exact hset

theorem setPattern (h : c.Respaced library shared c') (target : PaintTarget) (name : String)
    (values : List α) :
    (c.setPattern target name values).Respaced library shared (c'.setPattern target name values) := by
  obtain ⟨space, hspace, hp⟩ := h.paint target
  have hpattern : ColorSpace.Alike
      (if (c.paint target).space.isPattern then (c.paint target).space else .pattern)
      (if space.isPattern then space else .pattern) := by
    rw [hspace.isPattern_eq]
    split
    · exact hspace
    · exact .refl _
  unfold Canvas.setPattern
  refine h.ite ?_ h.agrees.colorLocked
  dsimp only
  rw [hp]
  refine (h.setPaint target ⟨_, hpattern, ?_⟩).dropStyle
  unfold Canvas.patternRgb
  rw [hpattern.toRgb?_eq]

theorem setColorOrPattern (h : c.Respaced library shared c') (target : PaintTarget)
    (operands : List (Operand α)) :
    (c.setColorOrPattern target operands).Respaced library shared
      (c'.setColorOrPattern target operands) := by
  unfold Canvas.setColorOrPattern
  dsimp only
  split
  · exact h.setPattern target _ _
  · split
    · exact h.setComponents target _
    · exact h

/-! ### Searching -/

omit [Scalar α] in
/-- Both canvases share more, as they may. -/
theorem setCache (h : c.Respaced library shared c') {k l l' : ResourceCache α}
    (hcache : c.cache = some k) (hl : l.FoundIn library) (hl' : l'.FoundIn library)
    (hgrows : k.Grows l) :
    Respaced library shared { c with cache := some l } { c' with cache := some l' } := by
  obtain ⟨_, hk, _, hshared⟩ := h.found
  cases hk.symm.trans hcache
  refine ⟨h.graphics, h.saved, ⟨l, rfl, hl, hshared.trans hgrows⟩, ⟨l', rfl, hl'⟩, ?_⟩
  rw [h.eq]
  rfl

section Searching

variable {s : Setting α} {n : Nesting α} (hlibrary : s.library.Coherent ColorSpace.Alike)

include hlibrary

theorem selectFont (h : c.Respaced s.library shared c') (name : String) (size : α) :
    (c.selectFont ⟨s, n⟩ name size).Respaced s.library shared
      (c'.selectFont ⟨s, n⟩ name size) := by
  obtain ⟨k, hcache, hk, _⟩ := h.found
  obtain ⟨k', hcache', hk'⟩ := h.found'
  obtain ⟨l, hl, hgrows, hfound⟩ := c.findFont_own (n := n) hcache hk hlibrary name
  obtain ⟨l', hl', _, hfound'⟩ := c'.findFont_own (n := n) hcache' hk' hlibrary name
  have hset := h.setCache hcache hl hl' hgrows
  unfold Canvas.selectFont
  rw [hfound, hfound', h.agrees.resources]
  let font := ((s.library.set c.context.resources).fonts.get? name).getD .standIn
  exact (hset.mapUnless (fun g => g.text.font == some font && g.text.fontSize == size)
    (f := fun g => { g with text := { g.text with font := some font, fontSize := size } })
    (fun _ _ _ => rfl) fun _ _ _ => rfl).mapGraphics fun _ _ _ => rfl

theorem setColorSpace (h : c.Respaced s.library shared c') (target : PaintTarget) (name : String) :
    (c.setColorSpace ⟨s, n⟩ target name).Respaced s.library shared
      (c'.setColorSpace ⟨s, n⟩ target name) := by
  obtain ⟨k, hcache, hk, _⟩ := h.found
  obtain ⟨k', hcache', hk'⟩ := h.found'
  obtain ⟨l, hl, hgrows, hfound, hspace⟩ :=
    c.findColorSpace_own (n := n) hcache hk hlibrary .refl name
  obtain ⟨l', hl', _, hfound', hspace'⟩ :=
    c'.findColorSpace_own (n := n) hcache' hk' hlibrary .refl name
  have hset := h.setCache hcache hl hl' hgrows
  have halike : ColorSpace.Alike ((c.findColorSpace ⟨s, n⟩ name).1.getD .deviceGray)
      ((c'.findColorSpace ⟨s, n⟩ name).1.getD .deviceGray) := by
    rw [h.agrees.resources] at hspace'
    generalize s.ownColorSpace? c.context.resources name = own at hspace hspace'
    generalize (c.findColorSpace ⟨s, n⟩ name).1 = space at hspace
    generalize (c'.findColorSpace ⟨s, n⟩ name).1 = space' at hspace'
    cases hspace with
    | none =>
      cases hspace'
      exact .refl _
    | some h =>
      cases hspace' with
      | some h' => exact h.trans h'.symm
  unfold Canvas.setColorSpace
  refine h.ite ?_ h.agrees.colorLocked
  rw [← Prod.eta (c.findColorSpace ⟨s, n⟩ name), ← Prod.eta (c'.findColorSpace ⟨s, n⟩ name),
    hfound, hfound']
  dsimp only
  generalize (c.findColorSpace ⟨s, n⟩ name).1.getD .deviceGray = space at halike
  generalize (c'.findColorSpace ⟨s, n⟩ name).1.getD .deviceGray = space' at halike
  obtain ⟨_, _, hp⟩ := hset.paint target
  rw [hp, halike.initialRgb_eq, halike.components_eq]
  exact (hset.setPaint target (p := Paint.mk space.initialRgb space
    (List.replicate space.components 0) none (c.paint target).alpha) ⟨space', halike, rfl⟩).dropStyle

/-- Adjustments keep the canvases alike. -/
theorem adjust (h : c.Respaced s.library shared c') (a : Adjustment α) :
    (a.apply ⟨s, n⟩ c).Respaced s.library shared (a.apply ⟨s, n⟩ c') := by
  have hcontext (f : Context α → Context α)
      (hf : ∀ g saved k, (c.inStates g saved k).mapContext f = (c.mapContext f).inStates g saved k) :=
    h.map (f := Canvas.mapContext f) fun _ _ => hf _
  have hgraphics (f : GraphicsState α → GraphicsState α)
      (hf : ∀ g fill stroke, f (g.inSpaces fill stroke) = (f g).inSpaces fill stroke) :=
    h.mapGraphics hf
  have hunless (same : GraphicsState α → Bool) (f : GraphicsState α → GraphicsState α)
      (hsame : ∀ g fill stroke, same (g.inSpaces fill stroke) = same g)
      (hf : ∀ g fill stroke, f (g.inSpaces fill stroke) = (f g).inSpaces fill stroke) :=
    h.mapUnless same hsame hf
  let moved (x y : α) (t : TextState α) : TextState α :=
    { t with
      lineMatrix := (Matrix.shift x y).multiply t.lineMatrix
      matrix := (Matrix.shift x y).multiply t.lineMatrix }
  let advanced (x : α) (t : TextState α) : TextState α :=
    { t with matrix := (Matrix.shift x 0).multiply t.matrix }
  cases a with
  | selectFont name size => exact h.selectFont hlibrary name size
  | colorSpace target name => exact h.setColorSpace hlibrary target name
  | components target values => exact h.setComponents target values
  | pattern target name values => exact h.setPattern target name values
  | colorOrPattern target operands => exact h.setColorOrPattern target operands
  | deviceColor target space values => exact h.setDeviceColor target space values
  | transform m =>
    exact hunless (fun _ => m.isIdentity) (fun g => { g with ctm := m.multiply g.ctm })
      (fun _ _ _ => rfl) fun _ _ _ => rfl
  | lineWidth width =>
    exact hunless (fun g => g.lineWidth == Scalar.abs width)
      (fun g => { g with lineWidth := Scalar.abs width }) (fun _ _ _ => rfl) fun _ _ _ => rfl
  | lineCap code =>
    dsimp only [Adjustment.apply, Canvas.setLineCap]
    split
    · next cap _ => exact hgraphics (fun g => { g with lineCap := cap }) fun _ _ _ => rfl
    · exact h
  | lineJoin code =>
    dsimp only [Adjustment.apply, Canvas.setLineJoin]
    split
    · next join _ => exact hgraphics (fun g => { g with lineJoin := join }) fun _ _ _ => rfl
    · exact h
  | renderMode code =>
    dsimp only [Adjustment.apply, Canvas.setRenderMode]
    split
    · next mode _ =>
      exact hunless (fun g => g.text.mode == mode)
        (fun g => { g with text := { g.text with mode := mode } }) (fun _ _ _ => rfl) fun _ _ _ => rfl
    · exact h
  | fillAlpha alpha =>
    exact hunless (fun g => g.fill.alpha == alpha)
      (fun g => { g with fill := { g.fill with alpha := Scalar.clamp 0 1 alpha } })
      (fun _ _ _ => rfl) fun _ _ _ => rfl
  | strokeAlpha alpha =>
    exact hunless (fun g => g.stroke.alpha == alpha)
      (fun g => { g with stroke := { g.stroke with alpha := Scalar.clamp 0 1 alpha } })
      (fun _ _ _ => rfl) fun _ _ _ => rfl
  | font f size =>
    exact hunless (fun g => g.text.font == some f && g.text.fontSize == size)
      (fun g => { g with text := { g.text with font := some f, fontSize := size } })
      (fun _ _ _ => rfl) fun _ _ _ => rfl
  | charSpacing spacing =>
    exact hunless (fun g => g.text.charSpacing == spacing)
      (fun g => { g with text := { g.text with charSpacing := spacing } }) (fun _ _ _ => rfl)
      fun _ _ _ => rfl
  | scaling percent =>
    exact hunless (fun g => g.text.scaling == percent)
      (fun g => { g with text := { g.text with scaling := percent } }) (fun _ _ _ => rfl)
      fun _ _ _ => rfl
  | miterLimit limit => exact hgraphics (fun g => { g with miterLimit := limit }) fun _ _ _ => rfl
  | dash array phase => exact hgraphics (fun g => { g with dash := ⟨array, phase⟩ }) fun _ _ _ => rfl
  | renderingIntent name =>
    exact hgraphics (fun g => { g with renderingIntent := some name }) fun _ _ _ => rfl
  | flatness tolerance =>
    exact hgraphics (fun g => { g with flatness := tolerance }) fun _ _ _ => rfl
  | blendMode name =>
    exact hgraphics (fun g => { g with blendMode := blendModeCss? name }) fun _ _ _ => rfl
  | wordSpacing spacing => exact h.mapText (fun t => { t with wordSpacing := spacing })
  | leading distance => exact h.mapText (fun t => { t with leading := distance })
  | rise distance => exact h.mapText (fun t => { t with rise := distance })
  | moveLine x y => exact h.mapText (moved x y)
  | moveLineSettingLeading x y =>
    exact (h.mapText fun t => { t with leading := -y }).mapText (moved x y)
  | textMatrix m => exact h.mapText (fun t => { t with matrix := m, lineMatrix := m })
  | nextLine =>
    dsimp only [Adjustment.apply, Canvas.nextLine]
    rw [h.agrees.text_eq]
    exact h.mapText (moved 0 _)
  | advance x => exact h.mapText (advanced x)
  | kern n =>
    dsimp only [Adjustment.apply]
    rw [h.agrees.text_eq]
    exact h.mapText (advanced _)
  | path f => exact hcontext (fun k => { k with path := f k.path }) fun _ _ _ => rfl
  | takePath =>
    exact hcontext (fun k => { k with path := [], pendingClip := none }) fun _ _ _ => rfl
  | pendingClip evenOdd =>
    exact hcontext (fun k => { k with pendingClip := some evenOdd }) fun _ _ _ => rfl
  | beginText =>
    exact (hcontext (fun k => { k with inText := true }) fun _ _ _ => rfl).mapText
      (fun t => { t with matrix := .identity, lineMatrix := .identity })
  | leaveText => exact hcontext (fun k => { k with inText := false }) fun _ _ _ => rfl
  | lockColors => exact hcontext (fun k => { k with colorLocked := true }) fun _ _ _ => rfl
  | beginMarked =>
    exact hcontext (fun k => { k with markedDepth := k.markedDepth + 1 }) fun _ _ _ => rfl
  | endMarked =>
    exact hcontext (fun k => { k with markedDepth := k.markedDepth - 1 }) fun _ _ _ => rfl

end Searching

/-! ### Other steps -/

omit [Scalar α] in
theorem save (h : c.Respaced library shared c') : c.save.Respaced library shared c'.save := by
  refine ⟨h.graphics, .cons h.graphics h.saved, h.found, h.found', ?_⟩
  rw [h.eq]
  rfl

/-- Where no style is kept, none is forgotten. -/
theorem restore (h : c.Respaced library shared c') (hstyle : c.context.textStyle = none) :
    c.restore.Respaced library shared c'.restore := by
  have hdrop {d : Canvas α} (hd : d.context.textStyle = none) (p : Prop) [Decidable p] :
      (if p then d else d.dropStyle) = d := by
    have hsame : d.dropStyle = d := by
      unfold Canvas.dropStyle Canvas.mapContext
      rw [← hd]
    rw [hsame, ite_self]
  have hstyle' : c'.context.textStyle = none := by
    rw [h.eq]
    exact hstyle
  have hsaved := h.saved
  unfold Canvas.restore
  generalize c.context.saved = saved at hsaved
  generalize c'.context.saved = saved' at hsaved
  cases hsaved with
  | nil => exact h
  | @cons g g' rest rest' hg hrest =>
    dsimp only
    rw [hdrop hstyle, hdrop hstyle']
    refine ⟨hg, hrest, h.found, h.found', ?_⟩
    rw [h.eq]
    rfl

omit [Scalar α] in
theorem setDefinitions (h : c.Respaced library shared c') (f : Definitions → Definitions) :
    Respaced library shared { c with definitions := f c.definitions }
      { c' with definitions := f c'.definitions } :=
  h.map (f := fun c => { c with definitions := f c.definitions }) fun _ _ _ _ => rfl

theorem append (h : c.Respaced library shared c') (o : Options α) (node : Node)
    (bounds : Option (Rectangle α)) :
    (c.append o node bounds).Respaced library shared (c'.append o node bounds) := by
  refine h.map (f := (·.append o node bounds)) fun fill stroke saved k => ?_
  have hcall : (c.inStates (c.graphics.inSpaces fill stroke) saved k).call o node bounds =
      c.call o node bounds := rfl
  rw [append_eq, append_eq, hcall]
  rfl

theorem clipTo (h : c.Respaced library shared c') (device : Path α) (evenOdd : Bool) :
    (c.clipTo device evenOdd).Respaced library shared (c'.clipTo device evenOdd) := by
  unfold Canvas.clipTo
  rw [h.agrees.clips, h.agrees.clip_eq]
  exact (h.map
    (f := fun d => { d with clips := (c.clips.insertPath c.graphics.clip device evenOdd).2 })
    fun _ _ _ _ => rfl).mapGraphics fun _ _ _ => rfl

theorem clipToText (h : c.Respaced library shared c') (nodes : List Node) :
    (c.clipToText nodes).Respaced library shared (c'.clipToText nodes) := by
  unfold Canvas.clipToText
  rw [h.agrees.clips, h.agrees.clip_eq]
  exact (h.map (f := fun d => { d with clips := (c.clips.insertText c.graphics.clip nodes).2 })
    fun _ _ _ _ => rfl).mapGraphics fun _ _ _ => rfl

theorem formRegion (h : c.Respaced library shared c') (viewport : Rectangle α)
    (parent : Option Nat) (box : Option (Rectangle α)) (m : Matrix α) :
    (c.formRegion viewport parent box m).2.Respaced library shared
      (c'.formRegion viewport parent box m).2 := by
  cases box with
  | none => exact h
  | some box =>
    unfold Canvas.formRegion Canvas.clipToBox
    dsimp only
    rw [h.agrees.clips, apply_ite Prod.snd, apply_ite Prod.snd]
    exact h.ite (h.map (f := fun d => { d with
      clips := (c.clips.insertPath parent (Path.transform m box.toPath) false).2 })
      fun _ _ _ _ => rfl) rfl

end Canvas.Respaced

/-! ### Steps -/

theorem Canvas.Agrees.trans {c d e : Canvas α} (h : c.Agrees d) (h' : d.Agrees e) : c.Agrees e := by
  obtain ⟨fill, stroke, hg⟩ := h.graphics
  obtain ⟨fill', stroke', hg'⟩ := h'.graphics
  exact ⟨⟨fill', stroke', by rw [hg', hg]; rfl⟩, h'.path.trans h.path,
    h'.pendingClip.trans h.pendingClip, h'.resources.trans h.resources,
    h'.outlines.trans h.outlines, h'.colorLocked.trans h.colorLocked, h'.clips.trans h.clips,
    h'.definitions.trans h.definitions, h'.activeForms.trans h.activeForms⟩

variable [Scalar α]

/-- The canvas `c'` has been drawn on with styles made anew and with spaces of other identities. -/
def Canvas.FollowsApart (s : Setting α) (shared : ResourceCache α) (level : Nat) (c c' : Canvas α) :
    Prop :=
  ∃ d, c.Follows s {} level d ∧ d.Respaced s.library shared c'

section Steps

variable [Scalar.ZerosAlike α] {s : Setting α} {shared : ResourceCache α} {level : Nat}

open Canvas

omit [Scalar.ZerosAlike α] in
theorem Canvas.FollowsApart.remembers {c c' : Canvas α} (h : c.FollowsApart s shared level c') :
    c.Remembers s {} level := by
  obtain ⟨_, h, _⟩ := h
  exact h.2

theorem restyling_followsApart : Restyling s {} level (FollowsApart s shared level) :=
  have hfollows : Restyling s {} level (Follows s {} level) := restyling_follows
  { remembers := fun h => h.remembers
    keep := fun known ⟨d, h, hd⟩ hknown => ⟨d, hfollows.keep known h hknown, hd⟩
    looked := fun ⟨d, h, hd⟩ => ⟨d.looked, hfollows.looked h, hd.map fun _ _ _ _ => rfl⟩
    position := fun m ⟨_, h, hd⟩ => ⟨_, hfollows.position m h, hd.map fun _ _ _ _ => rfl⟩
    addText := fun text width distance _ _ hstyle ⟨_, h, hd⟩ =>
      ⟨_, hfollows.addText text width distance hstyle h,
        (hd.map (f := fun d => d.mapContext fun k =>
          { k with layout := k.layout.addText s.options text width _ })
          fun _ _ _ _ => rfl).mapText _⟩ }

/-- Each step keeps what is drawn in spaces of other identities the same. -/
theorem steps_followsApart (hlibrary : s.library.Coherent ColorSpace.Alike)
    (hfonts : Font.Coherent s.library {}) (outer : List (Context α)) :
    Steps s Manner.rebuilding outer (level ≠ 0) (FollowsApart s shared level)
      fun _ g g' => g.Alike g' ∧ ∀ f, g.text.font = some f → f.Supplied s.library {} :=
  have hfollows : Steps s Manner.rebuilding outer (level ≠ 0) (Follows s {} level) _ :=
    steps_follows hfonts outer
  have hkept := kept_remembers hfonts level
  { agrees := fun ⟨_, h, hd⟩ => h.1.agrees.trans hd.agrees
    look := fun {c c'} ⟨d, h, hd⟩ => by
      refine ⟨?_, d.looked, (hfollows.look h).2, hd.map fun _ _ _ _ => rfl⟩
      rw [hd.eq]
      exact (hfollows.look h).1
    watch := fun h => .pure h trivial
    adjust := fun {c c' n} a ha ⟨d, h, hd⟩ =>
      ⟨a.apply ⟨s, n⟩ d, hfollows.adjust a ha h, hd.adjust hlibrary a⟩
    save := fun ⟨d, h, hd⟩ => ⟨d.save, hfollows.save h, hd.save⟩
    restore := fun ⟨d, h, hd⟩ => by
      refine ⟨d.restore, hfollows.restore h, hd.restore ?_⟩
      rw [h.1.eq]
      rfl
    setSoftMask := fun mask ⟨d, h, hd⟩ =>
      ⟨d.setSoftMask mask, hfollows.setSoftMask mask h, hd.mapGraphics fun _ _ _ => rfl⟩
    text := fun {c c'} ⟨d, h, hd⟩ => by
      have hlayout : c'.context.layout = d.context.layout := congrArg (·.context.layout) hd.eq
      rw [hlayout]
      exact hfollows.text h
    clearText := fun ⟨d, h, hd⟩ => ⟨d.clearText, hfollows.clearText h, hd.map fun _ _ _ _ => rfl⟩
    outlines := fun outlines ⟨_, h, hd⟩ =>
      ⟨_, hfollows.outlines outlines h, hd.map fun _ _ _ _ => rfl⟩
    addGlyphs := fun nodes ⟨_, h, hd⟩ =>
      ⟨_, hfollows.addGlyphs nodes h, hd.map fun _ _ _ _ => rfl⟩
    showPiece := fun {c c' n n'} hn hi font piece spaces h =>
      matches_showPiece_rebuilt restyling_followsApart hn hi h font piece spaces
    push := fun node hempty ⟨d, h, hd⟩ =>
      ⟨d.push node, hfollows.push node hempty h, hd.map fun _ _ _ _ => rfl⟩
    append := fun node bounds hempty ⟨d, h, hd⟩ =>
      ⟨d.append s.options node bounds, hfollows.append node bounds hempty h,
        hd.append s.options node bounds⟩
    classes := fun classes hnamed ⟨_, h, hd⟩ =>
      ⟨_, hfollows.classes classes hnamed h, hd.setDefinitions fun defs => { defs with classes }⟩
    insert := fun {_ _ kind} hkind key node ⟨_, h, hd⟩ =>
      ⟨_, hfollows.insert hkind key node h, hd.setDefinitions (·.insertNew (stableId kind key) node)⟩
    insertCell := fun hdeep _ _ key node ⟨_, h, hd⟩ =>
      ⟨_, hfollows.insertCell hdeep key node h,
        hd.setDefinitions (·.insertNew (stableId "pat" key) node)⟩
    clipTo := fun evenOdd ⟨_, hb, _⟩ ⟨_, h, hd⟩ =>
      ⟨_, hfollows.clipTo evenOdd hb h, hd.clipTo _ evenOdd⟩
    clipToText := fun nodes ⟨d, h, hd⟩ =>
      ⟨d.clipToText nodes, hfollows.clipToText nodes h, hd.clipToText nodes⟩
    formRegion := fun {c c'} parent box placement hparent ⟨d, h, hd⟩ =>
      ⟨_, hfollows.formRegion parent box placement hparent h,
        hd.formRegion s.viewport parent box placement⟩
    activeForms := fun forms hforms ⟨_, h, hd⟩ =>
      ⟨_, hfollows.activeForms forms hforms h,
        hd.map (f := fun d => { d with activeForms := forms }) fun _ _ _ _ => rfl⟩
    startCell := fun t paint ht h => ⟨.refl _, hkept.startCell t paint ht h.remembers⟩
    startGlyph := fun {c c'} ctm ⟨d, h, hd⟩ => by
      have halike := hd.graphics.map (f := fun g => { g with ctm := ctm, text := .standard })
        fun _ _ _ => rfl
      rw [h.1.graphics_eq] at halike
      exact ⟨halike, hkept.startGlyph ctm h.2⟩
    startForm := fun {c c'} box ctm ⟨d, h, hd⟩ => by
      have halike := hd.graphics.map (f := fun g =>
        { g with
          ctm := ctm
          blendMode := none
          softMask := none
          clip := (c.formRegion s.viewport c.graphics.clip box ctm).1 }) fun _ _ _ => rfl
      rw [h.1.graphics_eq] at halike
      exact ⟨halike, hkept.startForm box ctm h.2⟩
    startPage := fun parent box ctm hparent h =>
      ⟨.refl _, hkept.startPage parent box ctm hparent h.remembers⟩ }

/-- Pages and nested content, on every level, come out the same in spaces of other identities. -/
theorem simulation_followsApart (hlibrary : s.library.Coherent ColorSpace.Alike)
    (hfonts : Font.Coherent s.library {}) :
    Simulation s Manner.rebuilding (fun level _ => FollowsApart s shared level)
      fun _ g g' => g.Alike g' ∧ ∀ f, g.text.font = some f → f.Supplied s.library {} where
  steps level outer := steps_followsApart hlibrary hfonts outer
  content := by
    rintro _ _ c c' ⟨d, h, hd⟩
    rw [hd.eq, h.1.eq]
    rfl
  enter {level outer c c'} graphics graphics' resources locked h hG := by
    obtain ⟨d, h, hd⟩ := h
    refine ⟨d.entered graphics resources locked,
      @Simulation.enter _ _ _ _ _ _ (simulation_follows hfonts) level outer _ _ graphics graphics
        resources locked h ⟨rfl, hG.2⟩, hG.1, .nil, hd.found, hd.found', ?_⟩
    rw [hd.eq]
    rfl
  leave {level outer c c' graphics resources locked e e'} h hframe he := by
    obtain ⟨d, h, hd⟩ := h
    obtain ⟨f, he, hf⟩ := he
    refine ⟨d.left f, @Simulation.leave _ _ _ _ _ _ (simulation_follows hfonts) level outer _ _ _ _ _
      _ _ h hframe he, hd.graphics, hd.saved, hf.found, hf.found', ?_⟩
    rw [hf.eq, hd.eq]
    rfl

/-! ### Documents -/

namespace Canvas.FollowsApart

variable {c c' : Canvas α}

omit [Scalar.ZerosAlike α] in
theorem found (h : c.FollowsApart s shared level c') :
    ∃ k, c.cache = some k ∧ k.FoundIn s.library ∧ shared.Grows k := by
  obtain ⟨d, h, hd⟩ := h
  obtain ⟨k, hk, hfound⟩ := hd.found
  have hcache : d.cache = c.cache := congrArg (·.cache) h.1.eq
  exact ⟨k, hcache.symm.trans hk, hfound⟩

omit [Scalar.ZerosAlike α] in
theorem onset' (h : c.FollowsApart s shared level c') : c'.cancellation.onset = none := by
  obtain ⟨d, h, hd⟩ := h
  rw [hd.eq]
  exact h.1.onset_eq.trans h.2.onset

/-- The documents are the same. -/
theorem finish_eq (hlibrary : s.library.Coherent ColorSpace.Alike)
    (hfonts : Font.Coherent s.library {}) (h : c.FollowsApart s shared level c') :
    c'.finish s = c.finish s := by
  have hflushed : (c.flushText s.options).FollowsApart s shared level (c'.flushText s.options) :=
    (steps_followsApart hlibrary hfonts []).flushText h
  obtain ⟨d, h, hd⟩ := hflushed
  unfold finish
  rw [hd.eq, h.1.eq]
  rfl

end Canvas.FollowsApart

end Steps

end PageSvg
