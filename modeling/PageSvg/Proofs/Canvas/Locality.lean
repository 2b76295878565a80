import PageSvg.Proofs.Canvas.Adjustment

/-!
# What adjustments leave alone

Most adjustments leave the font, the render mode, the paints and the path alone, apart from the
opacity of the paints; those that set one of them leave the others alone.
-/

namespace PageSvg

variable {α : Type}

namespace Adjustment

/-- Does it set the font? -/
def setsFont : Adjustment α → Bool
  | font .. | selectFont .. => true
  | _ => false

/-- Does it set the render mode? -/
def setsMode : Adjustment α → Bool
  | renderMode _ => true
  | _ => false

/-- Does it set the colour of a paint? -/
def setsColor : Adjustment α → Bool
  | colorSpace .. | components .. | pattern .. | colorOrPattern .. | deviceColor .. => true
  | _ => false

/-- Does it change the path? -/
def setsPath : Adjustment α → Bool
  | path _ | takePath => true
  | _ => false

/-- From `g` to `g'` nothing changes that an adjustment leaves alone. -/
structure Leaves (a : Adjustment α) (g g' : GraphicsState α) : Prop where
  font : a.setsFont = false → g'.text.font = g.text.font
  mode : a.setsMode = false → g'.text.mode = g.text.mode
  fill : a.setsColor = false → ∃ alpha, g'.fill = { g.fill with alpha }
  stroke : a.setsColor = false → ∃ alpha, g'.stroke = { g.stroke with alpha }

variable {a : Adjustment α} {g g' : GraphicsState α}

theorem Leaves.of_eq (hfont : g'.text.font = g.text.font) (hmode : g'.text.mode = g.text.mode)
    (hfill : g'.fill = g.fill) (hstroke : g'.stroke = g.stroke) : a.Leaves g g' :=
  ⟨fun _ => hfont, fun _ => hmode, fun _ => ⟨_, hfill⟩, fun _ => ⟨_, hstroke⟩⟩

/-- Whatever becomes of the paints. -/
theorem Leaves.of_color (h : a.setsColor = true) (htext : g'.text = g.text) : a.Leaves g g' :=
  ⟨fun _ => congrArg (·.font) htext, fun _ => congrArg (·.mode) htext,
    fun hnot => Bool.noConfusion (h.symm.trans hnot),
    fun hnot => Bool.noConfusion (h.symm.trans hnot)⟩

/-- Whatever becomes of the font. -/
theorem Leaves.of_font (h : a.setsFont = true) (hmode : g'.text.mode = g.text.mode)
    (hfill : g'.fill = g.fill) (hstroke : g'.stroke = g.stroke) : a.Leaves g g' :=
  ⟨fun hnot => Bool.noConfusion (h.symm.trans hnot), fun _ => hmode, fun _ => ⟨_, hfill⟩,
    fun _ => ⟨_, hstroke⟩⟩

theorem Leaves.mapUnless {c : Canvas α} (same : Bool) {f : GraphicsState α → GraphicsState α}
    (hf : ∀ g, a.Leaves g (f g)) : a.Leaves c.graphics (c.mapUnless same f).graphics := by
  unfold Canvas.mapUnless
  split
  · exact .of_eq rfl rfl rfl rfl
  · exact hf _

end Adjustment

/-! ### Fonts and colours -/

namespace Canvas

variable (c : Canvas α)

/-- From `c` to `d` neither the state of text nor the path changes. -/
structure Repaints (c d : Canvas α) : Prop where
  text : d.graphics.text = c.graphics.text
  path : d.context.path = c.context.path

theorem Repaints.refl : c.Repaints c := ⟨rfl, rfl⟩

theorem Repaints.trans {c d e : Canvas α} (h : c.Repaints d) (h' : d.Repaints e) : c.Repaints e :=
  ⟨h'.text.trans h.text, h'.path.trans h.path⟩

theorem Repaints.dropStyle {c d : Canvas α} (h : c.Repaints d) : c.Repaints d.dropStyle :=
  ⟨h.text, h.path⟩

theorem repaints_setPaint (target : PaintTarget) (p : Paint α) :
    c.Repaints (c.setPaint target p) := by
  cases target <;> exact ⟨rfl, rfl⟩

theorem path_mapUnless (same : Bool) (f : GraphicsState α → GraphicsState α) :
    (c.mapUnless same f).context.path = c.context.path := by
  unfold mapUnless
  split <;> rfl

variable [Scalar α]

theorem context_findFont (env : Environment α) (name : String) :
    (c.findFont env name).2.context = c.context := by
  unfold findFont
  dsimp only
  split <;> rfl

omit [Scalar α] in
theorem context_findColorSpace (env : Environment α) (name : String) :
    (c.findColorSpace env name).2.context = c.context := by
  unfold findColorSpace
  dsimp only
  split
  · rfl
  · split <;> rfl

theorem graphics_findFont (env : Environment α) (name : String) :
    (c.findFont env name).2.graphics = c.graphics :=
  congrArg Context.graphics (c.context_findFont env name)

omit [Scalar α] in
theorem graphics_findColorSpace (env : Environment α) (name : String) :
    (c.findColorSpace env name).2.graphics = c.graphics :=
  congrArg Context.graphics (c.context_findColorSpace env name)

theorem repaints_setColorSpace (env : Environment α) (target : PaintTarget) (name : String) :
    c.Repaints (c.setColorSpace env target name) := by
  have hfound : c.Repaints (c.findColorSpace env name).2 :=
    ⟨congrArg (·.text) (c.graphics_findColorSpace env name),
      congrArg (·.path) (c.context_findColorSpace env name)⟩
  unfold setColorSpace
  split
  · exact .refl c
  · exact (hfound.trans (repaints_setPaint _ target _)).dropStyle

theorem repaints_setComponents (target : PaintTarget) (values : List α) :
    c.Repaints (c.setComponents target values) := by
  unfold setComponents
  split
  · exact .refl c
  · dsimp only
    split
    · exact .refl c
    · split
      · exact .refl c
      · exact (c.repaints_setPaint target _).dropStyle

theorem repaints_setPattern (target : PaintTarget) (name : String) (values : List α) :
    c.Repaints (c.setPattern target name values) := by
  unfold setPattern
  split
  · exact .refl c
  · exact (c.repaints_setPaint target _).dropStyle

theorem repaints_setColorOrPattern (target : PaintTarget) (operands : List (Operand α)) :
    c.Repaints (c.setColorOrPattern target operands) := by
  unfold setColorOrPattern
  dsimp only
  split
  · exact c.repaints_setPattern target _ _
  · split
    · exact c.repaints_setComponents target _
    · exact .refl c

theorem repaints_setDeviceColor (target : PaintTarget) (space : ColorSpace α) (values : List α) :
    c.Repaints (c.setDeviceColor target space values) := by
  unfold setDeviceColor
  split
  · exact .refl c
  · exact (c.repaints_setPaint target _).trans (repaints_setComponents _ target values)

theorem leaves_setFont {a : Adjustment α} (h : a.setsFont = true) (f : Font α) (size : α) :
    a.Leaves c.graphics (c.setFont f size).graphics :=
  .mapUnless (c.graphics.text.font == some f && c.graphics.text.fontSize == size)
    fun _ => .of_font h rfl rfl rfl

theorem leaves_selectFont (env : Environment α) (name : String) (size : α) :
    (Adjustment.selectFont name size).Leaves c.graphics (c.selectFont env name size).graphics := by
  have hfound := c.graphics_findFont env name
  have hset := leaves_setFont (c.findFont env name).2 (a := .selectFont name size) rfl
    (c.findFont env name).1 size
  rw [hfound] at hset
  exact ⟨fun hnot => Bool.noConfusion hnot, hset.mode, hset.fill, hset.stroke⟩

end Canvas

/-- An adjustment leaves alone what it does not set. -/
theorem Adjustment.leaves [Scalar α] (a : Adjustment α) (env : Environment α) (c : Canvas α) :
    a.Leaves c.graphics (a.apply env c).graphics := by
  unfold apply
  cases a with
  | transform m => exact .mapUnless m.isIdentity fun _ => .of_eq rfl rfl rfl rfl
  | lineWidth width => exact .mapUnless _ fun _ => .of_eq rfl rfl rfl rfl
  | lineCap code =>
    dsimp only [Canvas.setLineCap]
    split <;> exact .of_eq rfl rfl rfl rfl
  | lineJoin code =>
    dsimp only [Canvas.setLineJoin]
    split <;> exact .of_eq rfl rfl rfl rfl
  | fillAlpha alpha =>
    exact .mapUnless _ fun _ => ⟨fun _ => rfl, fun _ => rfl, fun _ => ⟨_, rfl⟩, fun _ => ⟨_, rfl⟩⟩
  | strokeAlpha alpha =>
    exact .mapUnless _ fun _ => ⟨fun _ => rfl, fun _ => rfl, fun _ => ⟨_, rfl⟩, fun _ => ⟨_, rfl⟩⟩
  | font f size => exact c.leaves_setFont rfl f size
  | selectFont name size => exact c.leaves_selectFont env name size
  | colorSpace target name => exact .of_color rfl (c.repaints_setColorSpace env target name).text
  | components target values => exact .of_color rfl (c.repaints_setComponents target values).text
  | pattern target name values => exact .of_color rfl (c.repaints_setPattern target name values).text
  | colorOrPattern target operands =>
    exact .of_color rfl (c.repaints_setColorOrPattern target operands).text
  | deviceColor target space values =>
    exact .of_color rfl (c.repaints_setDeviceColor target space values).text
  | charSpacing spacing => exact .mapUnless _ fun _ => .of_eq rfl rfl rfl rfl
  | scaling percent => exact .mapUnless _ fun _ => .of_eq rfl rfl rfl rfl
  | renderMode code =>
    dsimp only [Canvas.setRenderMode]
    split
    · exact .mapUnless _ fun _ =>
        ⟨fun _ => rfl, fun hnot => Bool.noConfusion hnot, fun _ => ⟨_, rfl⟩, fun _ => ⟨_, rfl⟩⟩
    · exact .of_eq rfl rfl rfl rfl
  | _ => exact .of_eq rfl rfl rfl rfl

/-- An adjustment that does not change the path leaves it as it is. -/
theorem Adjustment.path_apply [Scalar α] {a : Adjustment α} (h : a.setsPath = false)
    (env : Environment α) (c : Canvas α) : (a.apply env c).context.path = c.context.path := by
  unfold apply
  cases a with
  | path f => cases h
  | takePath => cases h
  | transform m => exact c.path_mapUnless m.isIdentity fun g => { g with ctm := m.multiply g.ctm }
  | lineWidth width => exact c.path_mapUnless _ _
  | lineCap code =>
    dsimp only [Canvas.setLineCap]
    split <;> rfl
  | lineJoin code =>
    dsimp only [Canvas.setLineJoin]
    split <;> rfl
  | fillAlpha alpha => exact c.path_mapUnless _ _
  | strokeAlpha alpha => exact c.path_mapUnless _ _
  | font f size => exact c.path_mapUnless _ _
  | selectFont name size =>
    exact (Canvas.path_mapUnless (c.findFont env name).2 _ _).trans
      (congrArg (·.path) (c.context_findFont env name))
  | colorSpace target name => exact (c.repaints_setColorSpace env target name).path
  | components target values => exact (c.repaints_setComponents target values).path
  | pattern target name values => exact (c.repaints_setPattern target name values).path
  | colorOrPattern target operands => exact (c.repaints_setColorOrPattern target operands).path
  | deviceColor target space values => exact (c.repaints_setDeviceColor target space values).path
  | charSpacing spacing => exact c.path_mapUnless _ _
  | scaling percent => exact c.path_mapUnless _ _
  | renderMode code =>
    dsimp only [Canvas.setRenderMode]
    split
    · exact c.path_mapUnless _ _
    · rfl
  | _ => rfl

end PageSvg
