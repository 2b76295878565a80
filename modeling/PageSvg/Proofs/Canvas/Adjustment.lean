import PageSvg.Proofs.Canvas.Frame

/-!
# Adjustments

The operators that draw nothing, as data: what they do to the canvas is one function, and what holds
of all of them is stated once. An adjustment does not look at what has been drawn, at the text still
to be drawn, at the last style of text or at how often the request to stop was looked for, and of
these it can only forget the style. Nor does it look at what belongs to the page as a whole, unless
it searches for a resource.
-/

namespace PageSvg

variable {α : Type}

/-! ### Revisions -/

namespace Canvas

/-- The canvas with other output, other text still to be drawn, another style and another count of
looks. -/
def revise (c : Canvas α) (drawn : List Node × Option Nat) (layout : TextLayout α)
    (style : Option (α × TextStyle α)) (looks : Nat) : Canvas α :=
  { c with
    context := { c.context with
      content := drawn.1
      openClip := drawn.2
      layout
      textStyle := style }
    cancellation := { c.cancellation with looks } }

/-- The function does the same to every revision of the canvas, but for a style that it may
forget. -/
def Overlooks (f : Canvas α → Canvas α) (c : Canvas α) : Prop :=
  ∃ forgets : Bool, ∀ drawn layout style looks,
    f (c.revise drawn layout style looks) =
      (f c).revise drawn layout (if forgets then none else style) looks

section Overlooking

variable {f g : Canvas α → Canvas α} {c : Canvas α}

theorem Overlooks.comp (hf : Overlooks f c) (hg : Overlooks g (f c)) :
    Overlooks (fun c => g (f c)) c := by
  obtain ⟨forgets, hf⟩ := hf
  obtain ⟨forgets', hg⟩ := hg
  refine ⟨forgets' || forgets, fun drawn layout style looks => ?_⟩
  dsimp only
  rw [hf, hg]
  cases forgets' <;> cases forgets <;> rfl

theorem overlooks_id (c : Canvas α) : Overlooks (fun c => c) c := ⟨false, fun _ _ _ _ => rfl⟩

theorem overlooks_dropStyle (c : Canvas α) : Overlooks dropStyle c :=
  ⟨true, fun _ _ _ _ => rfl⟩

theorem overlooks_mapGraphics (c : Canvas α) (f : GraphicsState α → GraphicsState α) :
    Overlooks (mapGraphics f) c := ⟨false, fun _ _ _ _ => rfl⟩

/-- What overlooks what has been drawn does not touch it. -/
theorem Overlooks.drawn_eq (h : Overlooks f c) :
    (f c).context.drawn = c.context.drawn := by
  obtain ⟨forgets, h⟩ := h
  exact congrArg (·.context.drawn)
    (h c.context.drawn c.context.layout c.context.textStyle c.cancellation.looks)

theorem Overlooks.of_eq (hg : Overlooks g c)
    (h : ∀ drawn layout style looks,
      f (c.revise drawn layout style looks) = g (c.revise drawn layout style looks)) :
    Overlooks f c := by
  obtain ⟨forgets, hg⟩ := hg
  have hc : f c = g c :=
    h c.context.drawn c.context.layout c.context.textStyle c.cancellation.looks
  refine ⟨forgets, fun drawn layout style looks => ?_⟩
  rw [h, hg, hc]

theorem overlooks_mapUnless (c : Canvas α) (same : GraphicsState α → Bool)
    (f : GraphicsState α → GraphicsState α) :
    Overlooks (fun c => c.mapUnless (same c.graphics) f) c := by
  by_cases h : same c.graphics = true
  · exact c.overlooks_id.of_eq fun _ _ _ _ => if_pos h
  · exact ((c.overlooks_mapGraphics f).comp (overlooks_dropStyle _)).of_eq fun _ _ _ _ => if_neg h

end Overlooking

section Contexts

variable [Scalar α] (c : Canvas α)

theorem overlooks_restore : Overlooks restore c := by
  cases hsaved : c.context.saved with
  | nil =>
    refine c.overlooks_id.of_eq fun drawn layout style looks => ?_
    unfold restore
    rw [show (c.revise drawn layout style looks).context.saved = [] from hsaved]
  | cons g rest =>
    have hback (c : Canvas α) :
        Overlooks (mapContext fun k => { k with graphics := g, saved := rest }) c :=
      ⟨false, fun _ _ _ _ => rfl⟩
    have hrestore (drawn : List Node × Option Nat) (layout : TextLayout α)
        (style : Option (α × TextStyle α)) (looks : Nat) :
        (c.revise drawn layout style looks).restore =
          (if g == c.graphics then c.revise drawn layout style looks
            else (c.revise drawn layout style looks).dropStyle).mapContext
              fun k => { k with graphics := g, saved := rest } := by
      unfold restore
      rw [show (c.revise drawn layout style looks).context.saved = g :: rest from hsaved]
      rfl
    by_cases hsame : (g == c.graphics) = true
    · exact (hback c).of_eq fun _ _ _ _ => by rw [hrestore, if_pos hsame]
    · exact (c.overlooks_dropStyle.comp (hback _)).of_eq fun _ _ _ _ => by
        rw [hrestore, if_neg hsame]

theorem overlooks_formRegion (viewport : Rectangle α) (parent : Option Nat)
    (box : Option (Rectangle α)) (m : Matrix α) :
    Overlooks (fun c => (c.formRegion viewport parent box m).2) c := by
  unfold formRegion clipToBox
  cases box with
  | none => exact c.overlooks_id
  | some box =>
    by_cases hmoot : boxIsMoot viewport c.clips parent (Path.transform m box.toPath) = true
    · refine c.overlooks_id.of_eq fun _ _ _ _ => ?_
      dsimp only [revise]
      rw [if_pos hmoot]
    · have hcut : Overlooks (fun c => { c with
          clips := (c.clips.insertPath parent (Path.transform m box.toPath) false).2 }) c :=
        ⟨false, fun _ _ _ _ => rfl⟩
      refine hcut.of_eq fun _ _ _ _ => ?_
      dsimp only [revise]
      rw [if_neg hmoot]

end Contexts

end Canvas

/-! ### Adjustments -/

/-- What the operators that draw nothing do, apart from those on saved states, clip regions and
masks. -/
inductive Adjustment (α : Type)
  | transform (m : Matrix α)
  | lineWidth (width : α)
  | lineCap (code : Int64)
  | lineJoin (code : Int64)
  | miterLimit (limit : α)
  | dash (array : List α) (phase : α)
  | renderingIntent (name : String)
  | flatness (tolerance : α)
  | fillAlpha (alpha : α)
  | strokeAlpha (alpha : α)
  | blendMode (name : String)
  /-- The font of a set of parameters. -/
  | font (f : Font α) (size : α)
  | selectFont (name : String) (size : α)
  | path (f : Path α → Path α)
  /-- The path is taken to be painted. -/
  | takePath
  | pendingClip (evenOdd : Bool)
  | colorSpace (target : PaintTarget) (name : String)
  | components (target : PaintTarget) (values : List α)
  | pattern (target : PaintTarget) (name : String) (values : List α)
  | colorOrPattern (target : PaintTarget) (operands : List (Operand α))
  | deviceColor (target : PaintTarget) (space : ColorSpace α) (values : List α)
  | beginText
  /-- The text object is over, its text not yet drawn. -/
  | leaveText
  | charSpacing (spacing : α)
  | wordSpacing (spacing : α)
  | scaling (percent : α)
  | leading (distance : α)
  | rise (distance : α)
  | renderMode (code : Int64)
  | moveLine (x y : α)
  | moveLineSettingLeading (x y : α)
  | textMatrix (m : Matrix α)
  | nextLine
  | advance (x : α)
  /-- The number of an array of strings. -/
  | kern (n : α)
  | lockColors
  | beginMarked
  | endMarked

namespace Adjustment

variable [Scalar α]

/-- What an adjustment does to the canvas. -/
def apply (env : Environment α) (c : Canvas α) : Adjustment α → Canvas α
  | transform m => c.transform m
  | lineWidth width => c.setLineWidth width
  | lineCap code => c.setLineCap code
  | lineJoin code => c.setLineJoin code
  | miterLimit limit => c.setMiterLimit limit
  | dash array phase => c.setDash array phase
  | renderingIntent name => c.mapGraphics fun g => { g with renderingIntent := some name }
  | flatness tolerance => c.mapGraphics fun g => { g with flatness := tolerance }
  | fillAlpha alpha => c.setFillAlpha alpha
  | strokeAlpha alpha => c.setStrokeAlpha alpha
  | blendMode name => c.setBlendMode name
  | font f size => c.setFont f size
  | selectFont name size => c.selectFont env name size
  | path f => c.mapPath f
  | takePath => c.mapContext fun k => { k with path := [], pendingClip := none }
  | pendingClip evenOdd => c.setPendingClip evenOdd
  | colorSpace target name => c.setColorSpace env target name
  | components target values => c.setComponents target values
  | pattern target name values => c.setPattern target name values
  | colorOrPattern target operands => c.setColorOrPattern target operands
  | deviceColor target space values => c.setDeviceColor target space values
  | beginText => c.beginText
  | leaveText => c.mapContext fun k => { k with inText := false }
  | charSpacing spacing => c.setCharSpacing spacing
  | wordSpacing spacing => c.setWordSpacing spacing
  | scaling percent => c.setScaling percent
  | leading distance => c.mapText fun t => { t with leading := distance }
  | rise distance => c.mapText fun t => { t with rise := distance }
  | renderMode code => c.setRenderMode code
  | moveLine x y => c.moveLine x y
  | moveLineSettingLeading x y => c.moveLineSettingLeading x y
  | textMatrix m => c.setTextMatrix m
  | nextLine => c.nextLine
  | advance x => c.advance x
  | kern n =>
    let t := c.graphics.text
    c.advance (-n / 1000 * t.fontSize * t.scaling / 100)
  | lockColors => c.mapContext fun k => { k with colorLocked := true }
  | beginMarked => c.beginMarked
  | endMarked => c.endMarked

theorem adjusts (a : Adjustment α) (env : Environment α) (c : Canvas α) :
    c.Adjusts (a.apply env c) := by
  unfold apply
  cases a with
  | transform m => exact c.adjusts_transform m
  | lineWidth width => exact c.adjusts_setLineWidth width
  | lineCap code => exact c.adjusts_setLineCap code
  | lineJoin code => exact c.adjusts_setLineJoin code
  | miterLimit limit => exact c.adjusts_setMiterLimit limit
  | dash array phase => exact c.adjusts_setDash array phase
  | renderingIntent name => exact c.adjusts_mapGraphics rfl rfl
  | flatness tolerance => exact c.adjusts_mapGraphics rfl rfl
  | fillAlpha alpha => exact c.adjusts_setFillAlpha alpha
  | strokeAlpha alpha => exact c.adjusts_setStrokeAlpha alpha
  | blendMode name => exact c.adjusts_setBlendMode name
  | font f size => exact c.adjusts_setFont f size
  | selectFont name size => exact c.adjusts_selectFont env name size
  | path f => exact c.adjusts_mapPath f
  | takePath => exact ⟨rfl, rfl, rfl, rfl, rfl, rfl, rfl, rfl, rfl, rfl, .inl rfl⟩
  | pendingClip evenOdd => exact c.adjusts_setPendingClip evenOdd
  | colorSpace target name => exact c.adjusts_setColorSpace env target name
  | components target components => exact c.adjusts_setComponents target components
  | pattern target name components => exact c.adjusts_setPattern target name components
  | colorOrPattern target operands => exact c.adjusts_setColorOrPattern target operands
  | deviceColor target space components => exact c.adjusts_setDeviceColor target space components
  | beginText => exact c.adjusts_beginText
  | leaveText => exact ⟨rfl, rfl, rfl, rfl, rfl, rfl, rfl, rfl, rfl, rfl, .inl rfl⟩
  | charSpacing spacing => exact c.adjusts_setCharSpacing spacing
  | wordSpacing spacing => exact c.adjusts_mapText _
  | scaling scaling => exact c.adjusts_setScaling scaling
  | leading leading => exact c.adjusts_mapText _
  | rise rise => exact c.adjusts_mapText _
  | renderMode code => exact c.adjusts_setRenderMode code
  | moveLine x y => exact c.adjusts_moveLine x y
  | moveLineSettingLeading x y => exact c.adjusts_moveLineSettingLeading x y
  | textMatrix m => exact c.adjusts_mapText _
  | nextLine => exact c.adjusts_nextLine
  | advance x => exact c.adjusts_mapText _
  | kern n => exact c.adjusts_mapText _
  | lockColors => exact c.adjusts_lockColors
  | beginMarked => exact c.adjusts_beginMarked
  | endMarked => exact c.adjusts_endMarked

section Overlooking

open Canvas

variable (c : Canvas α)

omit [Scalar α] in
theorem findColorSpace_revise (env : Environment α) (name : String) (drawn : List Node × Option Nat)
    (layout : TextLayout α) (style : Option (α × TextStyle α)) (looks : Nat) :
    (c.revise drawn layout style looks).findColorSpace env name =
      ((c.findColorSpace env name).1,
        (c.findColorSpace env name).2.revise drawn layout style looks) := by
  unfold findColorSpace
  cases ColorSpace.predefined? (α := α) name with
  | some space => rfl
  | none =>
    dsimp only [Canvas.revise, Environment.resources]
    split
    · rfl
    · rfl

theorem findFont_revise (env : Environment α) (name : String) (drawn : List Node × Option Nat)
    (layout : TextLayout α) (style : Option (α × TextStyle α)) (looks : Nat) :
    (c.revise drawn layout style looks).findFont env name =
      ((c.findFont env name).1, (c.findFont env name).2.revise drawn layout style looks) := by
  unfold findFont
  dsimp only [Canvas.revise, Environment.resources]
  split
  · rfl
  · rfl

theorem overlooks_setColorSpace (env : Environment α) (target : PaintTarget) (name : String) :
    Overlooks (fun c => c.setColorSpace env target name) c := by
  by_cases hlocked : c.context.colorLocked = true
  · exact c.overlooks_id.of_eq fun _ _ _ _ => if_pos hlocked
  · refine ⟨true, fun drawn layout style looks => ?_⟩
    dsimp only
    rw [setColorSpace, setColorSpace, if_neg hlocked]
    refine (if_neg hlocked).trans ?_
    rw [findColorSpace_revise]
    rfl

omit [Scalar α] in
theorem overlooks_setPaint (target : PaintTarget) (p : Paint α) :
    Overlooks (fun c => c.setPaint target p) c := c.overlooks_mapGraphics _

/-- Gives a target a paint with components, unless it has them. -/
def paintComponents (c : Canvas α) (target : PaintTarget) (p : Paint α) (values : List α) :
    Canvas α :=
  match p.space.toRgb? values with
  | none => c
  | some rgb =>
    if p.rgb == rgb && p.pattern.isNone && p.components == values then c
    else (c.setPaint target { p with rgb, components := values, pattern := none }).dropStyle

theorem overlooks_paintComponents (target : PaintTarget) (p : Paint α) (values : List α) :
    Overlooks (fun c => paintComponents c target p values) c := by
  unfold paintComponents
  cases p.space.toRgb? values with
  | none => exact c.overlooks_id
  | some rgb =>
    by_cases hsame : (p.rgb == rgb && p.pattern.isNone && p.components == values) = true
    · exact c.overlooks_id.of_eq fun _ _ _ _ => if_pos hsame
    · have hset := (overlooks_setPaint c target
        { p with rgb, components := values, pattern := none }).comp
        (overlooks_dropStyle _)
      exact hset.of_eq fun _ _ _ _ => if_neg hsame

theorem overlooks_setComponents (target : PaintTarget) (values : List α) :
    Overlooks (fun c => c.setComponents target values) c := by
  by_cases hlocked : c.context.colorLocked = true
  · exact c.overlooks_id.of_eq fun _ _ _ _ => if_pos hlocked
  · exact (overlooks_paintComponents c target (c.paint target) values).of_eq
      fun _ _ _ _ => if_neg hlocked

theorem overlooks_setPattern (target : PaintTarget) (name : String) (values : List α) :
    Overlooks (fun c => c.setPattern target name values) c := by
  by_cases hlocked : c.context.colorLocked = true
  · exact c.overlooks_id.of_eq fun _ _ _ _ => if_pos hlocked
  · refine ⟨true, fun drawn layout style looks => ?_⟩
    dsimp only
    rw [setPattern, setPattern, if_neg hlocked]
    exact if_neg hlocked

theorem overlooks_setColorOrPattern (target : PaintTarget) (operands : List (Operand α)) :
    Overlooks (fun c => c.setColorOrPattern target operands) c := by
  unfold setColorOrPattern
  dsimp only
  split
  · exact overlooks_setPattern c target _ _
  · split
    · exact overlooks_setComponents c target _
    · exact c.overlooks_id

theorem overlooks_setDeviceColor (target : PaintTarget) (space : ColorSpace α)
    (values : List α) : Overlooks (fun c => c.setDeviceColor target space values) c := by
  by_cases hlocked : c.context.colorLocked = true
  · exact c.overlooks_id.of_eq fun _ _ _ _ => if_pos hlocked
  · have hset := (overlooks_setPaint c target { c.paint target with space }).comp
      (overlooks_setComponents _ target values)
    exact hset.of_eq fun _ _ _ _ => if_neg hlocked

theorem overlooks_selectFont (env : Environment α) (name : String) (size : α) :
    Overlooks (fun c => c.selectFont env name size) c := by
  have hset (font : Font α) (c : Canvas α) :
      Overlooks (fun c => (c.setFont font size).mapText fun t => { t with fontName := some name })
        c :=
    (c.overlooks_mapUnless (fun g => g.text.font == some font && g.text.fontSize == size) _).comp
      (overlooks_mapGraphics _ _)
  obtain ⟨forgets, hset⟩ := hset (c.findFont env name).1 (c.findFont env name).2
  refine ⟨forgets, fun drawn layout style looks => ?_⟩
  dsimp only
  rw [Canvas.selectFont, Canvas.selectFont, findFont_revise]
  exact hset drawn layout style looks

theorem overlooks (a : Adjustment α) (env : Environment α) : Overlooks (a.apply env ·) c := by
  unfold apply
  cases a with
  | transform m =>
    by_cases hm : m.isIdentity = true
    · exact c.overlooks_id.of_eq fun _ _ _ _ => if_pos hm
    · exact ((c.overlooks_mapGraphics _).comp (overlooks_dropStyle _)).of_eq
        fun _ _ _ _ => if_neg hm
  | lineWidth width => exact c.overlooks_mapUnless (fun g => g.lineWidth == Scalar.abs width) _
  | lineCap code =>
    dsimp only [setLineCap]
    split
    · exact c.overlooks_mapGraphics _
    · exact c.overlooks_id
  | lineJoin code =>
    dsimp only [setLineJoin]
    split
    · exact c.overlooks_mapGraphics _
    · exact c.overlooks_id
  | miterLimit limit => exact ⟨false, fun _ _ _ _ => rfl⟩
  | dash array phase => exact ⟨false, fun _ _ _ _ => rfl⟩
  | renderingIntent name => exact ⟨false, fun _ _ _ _ => rfl⟩
  | flatness tolerance => exact ⟨false, fun _ _ _ _ => rfl⟩
  | fillAlpha alpha => exact c.overlooks_mapUnless (fun g => g.fill.alpha == alpha) _
  | strokeAlpha alpha => exact c.overlooks_mapUnless (fun g => g.stroke.alpha == alpha) _
  | blendMode name => exact ⟨false, fun _ _ _ _ => rfl⟩
  | font f size =>
    exact c.overlooks_mapUnless (fun g => g.text.font == some f && g.text.fontSize == size) _
  | selectFont name size => exact overlooks_selectFont c env name size
  | path f => exact ⟨false, fun _ _ _ _ => rfl⟩
  | takePath => exact ⟨false, fun _ _ _ _ => rfl⟩
  | pendingClip evenOdd => exact ⟨false, fun _ _ _ _ => rfl⟩
  | colorSpace target name => exact overlooks_setColorSpace c env target name
  | components target values => exact overlooks_setComponents c target values
  | pattern target name values => exact overlooks_setPattern c target name values
  | colorOrPattern target operands => exact overlooks_setColorOrPattern c target operands
  | deviceColor target space values => exact overlooks_setDeviceColor c target space values
  | beginText => exact ⟨false, fun _ _ _ _ => rfl⟩
  | leaveText => exact ⟨false, fun _ _ _ _ => rfl⟩
  | charSpacing spacing => exact c.overlooks_mapUnless (fun g => g.text.charSpacing == spacing) _
  | wordSpacing spacing => exact ⟨false, fun _ _ _ _ => rfl⟩
  | scaling percent => exact c.overlooks_mapUnless (fun g => g.text.scaling == percent) _
  | leading distance => exact ⟨false, fun _ _ _ _ => rfl⟩
  | rise distance => exact ⟨false, fun _ _ _ _ => rfl⟩
  | renderMode code =>
    dsimp only [setRenderMode]
    split
    · exact c.overlooks_mapUnless (fun g => g.text.mode == _) _
    · exact c.overlooks_id
  | moveLine x y => exact ⟨false, fun _ _ _ _ => rfl⟩
  | moveLineSettingLeading x y => exact ⟨false, fun _ _ _ _ => rfl⟩
  | textMatrix m => exact ⟨false, fun _ _ _ _ => rfl⟩
  | nextLine => exact ⟨false, fun _ _ _ _ => rfl⟩
  | advance x => exact ⟨false, fun _ _ _ _ => rfl⟩
  | kern n => exact ⟨false, fun _ _ _ _ => rfl⟩
  | lockColors => exact ⟨false, fun _ _ _ _ => rfl⟩
  | beginMarked => exact ⟨false, fun _ _ _ _ => rfl⟩
  | endMarked => exact ⟨false, fun _ _ _ _ => rfl⟩

end Overlooking

end Adjustment

/-! ### Other pages

What belongs to the page as a whole is not looked at either, but by those that search for a
font or a colour space. -/

/-- The context `k` with the clip region, the saved states and the output of the context `l`. -/
def Context.onto (k l : Context α) : Context α :=
  { k with
    graphics := { k.graphics with clip := l.graphics.clip }
    saved := l.saved
    content := l.content
    openClip := l.openClip }

namespace Canvas

/-- The `page` with the context of the canvas `c`, but for the clip region, the saved states and the
output, which stay those of the page. -/
def onto (c page : Canvas α) : Canvas α := { page with context := c.context.onto page.context }

theorem onto_self (c : Canvas α) : c.onto c = c := rfl

theorem ite_onto {page : Canvas α} {p : Prop} [Decidable p] {c c' d d' : Canvas α}
    (hc : c' = c.onto page) (hd : d' = d.onto page) :
    (if p then c' else d') = (if p then c else d).onto page := by
  rw [hc, hd, apply_ite (onto · page)]

end Canvas

namespace Adjustment

/-- Does the adjustment look for a resource? -/
def searches : Adjustment α → Bool
  | selectFont _ _ | colorSpace _ _ => true
  | _ => false

variable [Scalar α] {c : Canvas α}

theorem apply_onto (a : Adjustment α) (ha : a.searches = false) (env : Environment α)
    (page : Canvas α) : a.apply env (c.onto page) = (a.apply env c).onto page := by
  have hcomponents (c : Canvas α) (target : PaintTarget) (p : Paint α) (values : List α) :
      paintComponents (c.onto page) target p values =
        (paintComponents c target p values).onto page := by
    unfold paintComponents
    cases p.space.toRgb? values with
    | none => rfl
    | some rgb =>
      cases target with
      | fill => exact Canvas.ite_onto rfl rfl
      | stroke => exact Canvas.ite_onto rfl rfl
  have hset (c : Canvas α) (target : PaintTarget) (values : List α) :
      (c.onto page).setComponents target values = (c.setComponents target values).onto page := by
    cases target with
    | fill => exact Canvas.ite_onto rfl (hcomponents c .fill (c.paint .fill) values)
    | stroke => exact Canvas.ite_onto rfl (hcomponents c .stroke (c.paint .stroke) values)
  have hpattern (target : PaintTarget) (name : String) (values : List α) :
      (c.onto page).setPattern target name values =
        (c.setPattern target name values).onto page := by
    cases target with
    | fill => exact Canvas.ite_onto rfl rfl
    | stroke => exact Canvas.ite_onto rfl rfl
  cases a with
  | selectFont name size => cases ha
  | colorSpace target name => cases ha
  | transform m => exact Canvas.ite_onto rfl rfl
  | lineCap code =>
    dsimp only [apply, Canvas.setLineCap]
    split <;> rfl
  | lineJoin code =>
    dsimp only [apply, Canvas.setLineJoin]
    split <;> rfl
  | renderMode code =>
    dsimp only [apply, Canvas.setRenderMode]
    split
    · exact Canvas.ite_onto rfl rfl
    · rfl
  | lineWidth width => exact Canvas.ite_onto rfl rfl
  | fillAlpha alpha => exact Canvas.ite_onto rfl rfl
  | strokeAlpha alpha => exact Canvas.ite_onto rfl rfl
  | font f size => exact Canvas.ite_onto rfl rfl
  | charSpacing spacing => exact Canvas.ite_onto rfl rfl
  | scaling percent => exact Canvas.ite_onto rfl rfl
  | components target values => exact hset c target values
  | pattern target name values => exact hpattern target name values
  | colorOrPattern target operands =>
    dsimp only [apply, Canvas.setColorOrPattern]
    split
    · exact hpattern target _ _
    · exact Canvas.ite_onto (hset c target _) rfl
  | deviceColor target space values =>
    cases target with
    | fill =>
      exact Canvas.ite_onto rfl
        (hset (c.setPaint .fill { c.paint .fill with space }) .fill values)
    | stroke =>
      exact Canvas.ite_onto rfl
        (hset (c.setPaint .stroke { c.paint .stroke with space }) .stroke values)
  | _ => rfl

end Adjustment

/-! ### Operators that adjust -/

namespace Operator

variable [Scalar α]

/-- What an operator does, where that is one adjustment. -/
def adjustment? (args : Arguments α) : Operator → Option (Adjustment α)
  | transform => some (.transform args.matrix)
  | lineWidth => some (.lineWidth (args.number 0))
  | lineCap => some (.lineCap (args.integer 0))
  | lineJoin => some (.lineJoin (args.integer 0))
  | miterLimit => some (.miterLimit (args.number 0))
  | dash => some (.dash (args.numbers 0) (args.number 1))
  | renderingIntent => some (.renderingIntent (args.name 0))
  | flatness => some (.flatness (args.number 0))
  | moveTo => some (.path (· ++ [.move (args.point 0)]))
  | lineTo =>
    some (.path fun path =>
      path ++ if path.isEmpty then [.move (args.point 0)] else [.line (args.point 0)])
  | curveTo =>
    some (.path fun path =>
      path ++
        if path.isEmpty then
          [.move (args.point 0), .curve (args.point 0) (args.point 2) (args.point 4)]
        else [.curve (args.point 0) (args.point 2) (args.point 4)])
  | curveFromCurrent =>
    some (.path fun path =>
      match Path.currentPoint? path with
      | some p => path ++ [.curve p (args.point 0) (args.point 2)]
      | none => path)
  | curveIntoEnd =>
    some (.path fun path =>
      path ++
        if path.isEmpty then
          [.move (args.point 0), .curve (args.point 0) (args.point 2) (args.point 2)]
        else [.curve (args.point 0) (args.point 2) (args.point 2)])
  | closePath => some (.path fun path => if path.isEmpty then path else path ++ [.close])
  | rectangle =>
    some (.path
      (· ++ Path.rectangle (args.number 0) (args.number 1) (args.number 2) (args.number 3)))
  | clip evenOdd => some (.pendingClip evenOdd)
  | colorSpace target => some (.colorSpace target (args.name 0))
  | color target => some (.components target (args.numbers 0))
  | pattern target => some (.pattern target (args.name 0) [])
  | colorOrPattern target => some (.colorOrPattern target (args.items 0))
  | gray target => some (.deviceColor target .deviceGray [args.number 0])
  | rgb target =>
    some (.deviceColor target .deviceRgb [args.number 0, args.number 1, args.number 2])
  | cmyk target =>
    some (.deviceColor target .deviceCmyk
      [args.number 0, args.number 1, args.number 2, args.number 3])
  | beginText => some .beginText
  | charSpacing => some (.charSpacing (args.number 0))
  | wordSpacing => some (.wordSpacing (args.number 0))
  | textScaling => some (.scaling (args.number 0))
  | leading => some (.leading (args.number 0))
  | font => some (.selectFont (args.name 0) (args.number 1))
  | renderMode => some (.renderMode (args.integer 0))
  | rise => some (.rise (args.number 0))
  | moveLine => some (.moveLine (args.number 0) (args.number 1))
  | moveLineSettingLeading => some (.moveLineSettingLeading (args.number 0) (args.number 1))
  | textMatrix => some (.textMatrix args.matrix)
  | nextLine => some .nextLine
  | glyphBox => some .lockColors
  | beginMarked => some .beginMarked
  | endMarked => some .endMarked
  | _ => none

theorem perform_of_adjustment? {op : Operator} {args : Arguments α} {a : Adjustment α}
    (h : op.adjustment? args = some a) (env : Environment α) :
    op.perform env args = modify (a.apply env ·) := by
  cases op <;> cases h <;> rfl

end Operator

end PageSvg
