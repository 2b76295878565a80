import PageSvg.Proofs.Canvas.Locality
import PageSvg.Proofs.Canvas.Reachability
import PageSvg.Proofs.Number.Rational

/-!
# Colours and their components

A paint keeps its colour twice: by components in a colour space, and as it is on screen. A colour
that has been set is the colour of its components. Selecting a space sets the components to zeros
and the colour to the initial one, whatever components that has, and a cell that takes its colour
from where it is used begins with that colour beside the components of black.
-/

namespace PageSvg

open Scalar

variable {α : Type} [Scalar α]

/-! ### Colour spaces -/

namespace Scalar

variable [ZerosAlike α]

theorem map_tidy_of_beq {values values' : List α} (h : (values == values') = true) :
    values.map tidy = values'.map tidy := by
  induction values generalizing values' with
  | nil =>
    cases values' with
    | nil => rfl
    | cons y rest' => cases h
  | cons x rest ih =>
    cases values' with
    | nil => cases h
    | cons y rest' =>
      rw [List.cons_beq_cons, Bool.and_eq_true] at h
      rw [List.map_cons, List.map_cons, tidy_of_beq h.1, ih h.2]

end Scalar

/-- Zero is a part of a colour. -/
theorem Rgb.unit_zero (hone : ¬(1 : α) < 0) : unit (0 : α) = 0 := by
  unfold unit clamp
  simp only [if_neg hone, ite_self]

namespace ColorSpace

/-- The components of the initial colour. -/
def initialComponents : ColorSpace α → List α
  | deviceGray => [0]
  | deviceRgb => [0, 0, 0]
  | deviceCmyk => [0, 0, 0, 1]
  | pattern => []
  | patternOver base => base.initialComponents
  | custom c => c.initial

/-- The initial colour is that of its components. -/
theorem toRgb?_initialComponents (hone : ¬(1 : α) < 0) {space : ColorSpace α}
    (hpattern : space.isPattern = false)
    (hcount : space.initialComponents.length = space.components) :
    space.toRgb? space.initialComponents = some space.initialRgb := by
  cases space with
  | deviceGray =>
    show some (Rgb.gray 0) = some Rgb.black
    rw [Rgb.gray, Rgb.unit_zero hone, Rgb.black]
  | deviceRgb =>
    show some (Rgb.ofUnits 0 0 0) = some Rgb.black
    rw [Rgb.ofUnits, Rgb.unit_zero hone, Rgb.black]
  | deviceCmyk => rfl
  | pattern => cases hpattern
  | patternOver base => cases hpattern
  | custom c => exact if_pos hcount

theorem DeviceColor.exists_toRgb? {space : ColorSpace α} {values : List α}
    (h : space.DeviceColor values) : ∃ rgb, space.toRgb? values = some rgb := by
  unfold DeviceColor at h
  split at h
  · exact ⟨_, rfl⟩
  · exact ⟨_, rfl⟩
  · exact ⟨_, rfl⟩
  · exact h.elim

/-- Components of device spaces that are the same up to the signs of zeros have the same colour. -/
theorem toRgb?_congr [ZerosAlike α] {space : ColorSpace α} {values values' : List α}
    (hdevice : space.DeviceColor values) (h : values'.map tidy = values.map tidy) :
    (space.toRgb? values').map Rgb.tidied = (space.toRgb? values).map Rgb.tidied := by
  unfold DeviceColor at hdevice
  split at hdevice
  · obtain ⟨x, _, rfl, hx, hnil⟩ := List.map_eq_cons_iff.1 h
    obtain rfl := List.map_eq_nil_iff.1 hnil
    show some (Rgb.gray x).tidied = some (Rgb.gray _).tidied
    unfold Rgb.gray Rgb.tidied
    rw [Rgb.unit_congr hx]
  · obtain ⟨x, _, rfl, hx, h⟩ := List.map_eq_cons_iff.1 h
    obtain ⟨y, _, rfl, hy, h⟩ := List.map_eq_cons_iff.1 h
    obtain ⟨z, _, rfl, hz, hnil⟩ := List.map_eq_cons_iff.1 h
    obtain rfl := List.map_eq_nil_iff.1 hnil
    show some (Rgb.ofUnits x y z).tidied = some (Rgb.ofUnits _ _ _).tidied
    unfold Rgb.ofUnits Rgb.tidied
    rw [Rgb.unit_congr hx, Rgb.unit_congr hy, Rgb.unit_congr hz]
  · obtain ⟨x, _, rfl, hx, h⟩ := List.map_eq_cons_iff.1 h
    obtain ⟨y, _, rfl, hy, h⟩ := List.map_eq_cons_iff.1 h
    obtain ⟨z, _, rfl, hz, h⟩ := List.map_eq_cons_iff.1 h
    obtain ⟨k, _, rfl, hk, hnil⟩ := List.map_eq_cons_iff.1 h
    obtain rfl := List.map_eq_nil_iff.1 hnil
    have hpart {u u' : α} (hu : tidy u = tidy u') :=
      mul_congr (sub_congr (rfl : tidy (1 : α) = _) (Rgb.unit_congr hu))
        (sub_congr (rfl : tidy (1 : α) = _) (Rgb.unit_congr hk))
    show some (Rgb.ofCmyk x y z k).tidied = some (Rgb.ofCmyk _ _ _ _).tidied
    unfold Rgb.ofCmyk Rgb.tidied
    dsimp only
    rw [hpart hx, hpart hy, hpart hz]
  · exact hdevice.elim

end ColorSpace

/-! ### Paints -/

namespace Paint

/-- The colour is that of the components in the space, up to the signs of zeros. -/
def Described (p : Paint α) : Prop :=
  (p.space.toRgb? p.components).map Rgb.tidied = some p.rgb.tidied

/-- The colour is the initial one of the space, and the components are zeros, which are not those of
the initial colour. -/
structure Unset (p : Paint α) : Prop where
  rgb : p.rgb = p.space.initialRgb
  components : p.components = List.replicate p.space.components 0
  differs : p.components ≠ p.space.initialComponents

/-- The components are those of black, whatever the colour is. -/
structure Imposed (p : Paint α) : Prop where
  space : p.space = .deviceGray
  components : p.components = [0]

/-- A plain colour is described by its components, or is an initial one that is not, or it may have
been imposed. -/
def Accounted (imposed : Prop) (p : Paint α) : Prop :=
  p.pattern = none → p.space.isPattern = false → p.Described ∨ p.Unset ∨ imposed ∧ p.Imposed

variable {imposed : Prop} {p : Paint α}

theorem Described.accounted (h : p.Described) : p.Accounted imposed := fun _ _ => .inl h

theorem Accounted.imp {imposed' : Prop} (h : p.Accounted imposed) (himp : imposed → imposed') :
    p.Accounted imposed' := fun hplain hspace =>
  (h hplain hspace).imp_right fun h => h.imp_right fun h => ⟨himp h.1, h.2⟩

/-- The opacity plays no part. -/
theorem Accounted.alpha (h : p.Accounted imposed) (alpha : α) :
    { p with alpha }.Accounted imposed := fun hplain hspace =>
  (h hplain hspace).imp id fun h => h.imp (fun h => ⟨h.rgb, h.components, h.differs⟩)
    fun h => ⟨h.1, h.2.space, h.2.components⟩

theorem described_of_toRgb? (h : p.space.toRgb? p.components = some p.rgb) : p.Described := by
  unfold Described
  rw [h]
  rfl

/-- The paint in the colour of some components. -/
def colored (p : Paint α) (rgb : Rgb α) (components : List α) : Paint α :=
  { p with rgb, components, pattern := none }

theorem described_colored {rgb : Rgb α} {components : List α}
    (h : p.space.toRgb? components = some rgb) : (p.colored rgb components).Described :=
  described_of_toRgb? h

theorem accounted_of_isPattern (h : p.space.isPattern = true) : p.Accounted imposed :=
  fun _ hspace => Bool.noConfusion (h.symm.trans hspace)

/-- The initial colour of a space is described by zeros if they are its components. -/
theorem accounted_of_initial (hone : ¬(1 : α) < 0) (hrgb : p.rgb = p.space.initialRgb)
    (hcomponents : p.components = List.replicate p.space.components 0) : p.Accounted imposed := by
  intro _ hspace
  by_cases hinitial : p.components = p.space.initialComponents
  · have hcount : p.space.initialComponents.length = p.space.components := by
      rw [← hinitial, hcomponents, List.length_replicate]
    refine .inl (described_of_toRgb? ?_)
    rw [hinitial, hrgb]
    exact p.space.toRgb?_initialComponents hone hspace hcount
  · exact .inr (.inl ⟨hrgb, hcomponents, hinitial⟩)

theorem accounted_standard (hone : ¬(1 : α) < 0) : (standard : Paint α).Accounted imposed :=
  accounted_of_initial hone rfl rfl

end Paint

/-- The paints of the state are accounted for. -/
structure GraphicsState.Accounted (imposed : Prop) (g : GraphicsState α) : Prop where
  fill : g.fill.Accounted imposed
  stroke : g.stroke.Accounted imposed

namespace GraphicsState

variable {imposed : Prop} {g : GraphicsState α}

theorem Accounted.paint (h : g.Accounted imposed) (target : PaintTarget) :
    (g.paint target).Accounted imposed := by
  cases target with
  | stroke => exact h.stroke
  | fill => exact h.fill

theorem Accounted.imp {imposed' : Prop} (h : g.Accounted imposed) (himp : imposed → imposed') :
    g.Accounted imposed' := ⟨h.fill.imp himp, h.stroke.imp himp⟩

theorem accounted_initial (hone : ¬(1 : α) < 0) (ctm : Matrix α) : (initial ctm).Accounted imposed :=
  ⟨Paint.accounted_standard hone, Paint.accounted_standard hone⟩

end GraphicsState

/-! ### Operators on colours -/

namespace Canvas

variable {c : Canvas α} {imposed : Prop}

omit [Scalar α] in
theorem paint_setPaint_self (c : Canvas α) (target : PaintTarget) (p : Paint α) :
    (c.setPaint target p).paint target = p := by
  cases target <;> rfl

/-- A colour of strokes leaves fills alone, and the other way round. -/
theorem paint_setDeviceColor_of_ne (c : Canvas α) {target : PaintTarget} (other : PaintTarget)
    (h : other ≠ target) (space : ColorSpace α) (values : List α) :
    (c.setDeviceColor target space values).paint other = c.paint other := by
  have hset (c : Canvas α) (p : Paint α) : (c.setPaint target p).paint other = c.paint other := by
    cases target <;> cases other <;> first | rfl | exact absurd rfl h
  have hcolored (c : Canvas α) : (c.setComponents target values).paint other = c.paint other := by
    unfold setComponents
    dsimp only
    split
    · rfl
    · split
      · rfl
      · split
        · rfl
        · exact hset _ _
  unfold setDeviceColor
  split
  · rfl
  · exact (hcolored _).trans (hset c _)

theorem accounted_setPaint (h : c.graphics.Accounted imposed) (target : PaintTarget) {p : Paint α}
    (hp : p.Accounted imposed) : (c.setPaint target p).graphics.Accounted imposed := by
  cases target with
  | stroke => exact ⟨h.fill, hp⟩
  | fill => exact ⟨hp, h.stroke⟩

theorem accounted_setColorSpace (hone : ¬(1 : α) < 0) (h : c.graphics.Accounted imposed)
    (env : Environment α) (target : PaintTarget) (name : String) :
    (c.setColorSpace env target name).graphics.Accounted imposed := by
  unfold setColorSpace
  split
  · exact h
  · have hfound := (c.graphics_findColorSpace env name).symm ▸ h
    exact accounted_setPaint hfound target (Paint.accounted_of_initial hone rfl rfl)

/-- Where the components fit and the lock is off, they are set, or those that are there compare as
equal, and so does the colour. -/
theorem setComponents_of_toRgb? (c : Canvas α) (hlock : c.context.colorLocked = false)
    {target : PaintTarget} {values : List α} {rgb : Rgb α}
    (hrgb : (c.paint target).space.toRgb? values = some rgb) :
    c.setComponents target values = c ∧ ((c.paint target).rgb == rgb) = true ∧
        ((c.paint target).components == values) = true ∨
      c.setComponents target values =
        (c.setPaint target ((c.paint target).colored rgb values)).dropStyle := by
  unfold setComponents
  rw [hlock, if_neg Bool.false_ne_true]
  dsimp only
  rw [hrgb]
  dsimp only
  split
  · next hsame =>
    rw [Bool.and_eq_true, Bool.and_eq_true] at hsame
    exact .inl ⟨rfl, hsame.1.1, hsame.2⟩
  · exact .inr rfl

theorem accounted_setComponents (h : c.graphics.Accounted imposed) (target : PaintTarget)
    (values : List α) : (c.setComponents target values).graphics.Accounted imposed := by
  cases hlock : c.context.colorLocked with
  | true =>
    rw [setComponents, if_pos hlock]
    exact h
  | false =>
    cases hrgb : (c.paint target).space.toRgb? values with
    | none =>
      have hkept : c.setComponents target values = c := by
        unfold setComponents
        rw [if_neg (Bool.eq_false_iff.1 hlock)]
        dsimp only
        rw [hrgb]
      rw [hkept]
      exact h
    | some rgb =>
      rcases c.setComponents_of_toRgb? hlock hrgb with ⟨hkept, _⟩ | hnew
      · rw [hkept]
        exact h
      · rw [hnew]
        exact accounted_setPaint h target (Paint.described_colored hrgb).accounted

theorem accounted_setPattern (h : c.graphics.Accounted imposed) (target : PaintTarget)
    (name : String) (values : List α) :
    (c.setPattern target name values).graphics.Accounted imposed := by
  unfold setPattern
  split
  · exact h
  · refine accounted_setPaint h target (Paint.accounted_of_isPattern ?_)
    dsimp only
    split
    · assumption
    · rfl

theorem accounted_setColorOrPattern (h : c.graphics.Accounted imposed) (target : PaintTarget)
    (operands : List (Operand α)) :
    (c.setColorOrPattern target operands).graphics.Accounted imposed := by
  unfold setColorOrPattern
  dsimp only
  split
  · exact accounted_setPattern h target _ _
  · split
    · exact accounted_setComponents h target _
    · exact h

/-- **A colour of a device space is described** once it is set, whatever paint there was. -/
theorem described_setDeviceColor [ZerosAlike α] (hlock : c.context.colorLocked = false)
    (target : PaintTarget) {space : ColorSpace α} {values : List α}
    (hdevice : space.DeviceColor values) :
    ((c.setDeviceColor target space values).paint target).Described := by
  obtain ⟨rgb, hrgb⟩ := hdevice.exists_toRgb?
  let d := c.setPaint target { c.paint target with space }
  have hspace : (d.paint target).space = space :=
    congrArg (·.space) (c.paint_setPaint_self target _)
  have hset : c.setDeviceColor target space values = d.setComponents target values := by
    unfold setDeviceColor
    rw [hlock, if_neg Bool.false_ne_true]
  rw [hset]
  have hfits : (d.paint target).space.toRgb? values = some rgb := hspace.symm ▸ hrgb
  rcases d.setComponents_of_toRgb? hlock hfits with ⟨hkept, hsame, hvalues⟩ | hnew
  · -- The colour and the components that were there are those of the new space as well.
    rw [hkept]
    unfold Paint.Described
    rw [hspace, ColorSpace.toRgb?_congr hdevice (map_tidy_of_beq hvalues), hrgb]
    exact congrArg some (Rgb.tidied_of_beq hsame).symm
  · rw [hnew]
    show ((d.setPaint target _).paint target).Described
    rw [paint_setPaint_self]
    exact Paint.described_colored hfits

theorem accounted_setDeviceColor [ZerosAlike α] (h : c.graphics.Accounted imposed)
    (target : PaintTarget) {space : ColorSpace α} {values : List α}
    (hdevice : space.DeviceColor values) :
    (c.setDeviceColor target space values).graphics.Accounted imposed := by
  cases hlock : c.context.colorLocked with
  | true =>
    rw [setDeviceColor, if_pos hlock]
    exact h
  | false =>
    have hset : ((c.setDeviceColor target space values).paint target).Accounted imposed :=
      (described_setDeviceColor hlock target hdevice).accounted
    cases target with
    | stroke =>
      have hother : (c.setDeviceColor .stroke space values).graphics.fill = c.graphics.fill :=
        c.paint_setDeviceColor_of_ne .fill (by decide) space values
      exact ⟨hother ▸ h.fill, hset⟩
    | fill =>
      have hother : (c.setDeviceColor .fill space values).graphics.stroke = c.graphics.stroke :=
        c.paint_setDeviceColor_of_ne .stroke (by decide) space values
      exact ⟨hset, hother ▸ h.stroke⟩

end Canvas

/-! ### Colours of a canvas -/

/-- The paints of the state in force and of the saved states are accounted for. -/
structure Canvas.KeepsColors (imposed : Prop) (c : Canvas α) : Prop where
  current : c.graphics.Accounted imposed
  saved : ∀ g ∈ c.context.saved, g.Accounted imposed

namespace Canvas

variable {c d : Canvas α} {imposed : Prop}

theorem KeepsColors.undisturbed (h : c.KeepsColors imposed) (hd : c.Undisturbed d) :
    d.KeepsColors imposed where
  current := ⟨hd.fill ▸ h.current.fill, hd.stroke ▸ h.current.stroke⟩
  saved := hd.saved ▸ h.saved

theorem KeepsColors.adjust [ZerosAlike α] (hone : ¬(1 : α) < 0) {s : Setting α} {n : Nesting α}
    (h : c.KeepsColors imposed) (a : Adjustment α) (ha : a.Known s) :
    (a.apply ⟨s, n⟩ c).KeepsColors imposed := by
  refine ⟨?_, (a.adjusts ⟨s, n⟩ c).saved ▸ h.saved⟩
  cases hcolor : a.setsColor with
  | true =>
    cases a with
    | colorSpace target name => exact accounted_setColorSpace hone h.current _ target name
    | components target values => exact accounted_setComponents h.current target values
    | pattern target name values => exact accounted_setPattern h.current target name values
    | colorOrPattern target operands => exact accounted_setColorOrPattern h.current target operands
    | deviceColor target space values => exact accounted_setDeviceColor h.current target ha
    | _ => cases hcolor
  | false =>
    -- Paints change in their opacity at most.
    have hleaves := a.leaves ⟨s, n⟩ c
    obtain ⟨fillAlpha, hfill⟩ := hleaves.fill hcolor
    obtain ⟨strokeAlpha, hstroke⟩ := hleaves.stroke hcolor
    constructor
    · rw [hfill]
      exact h.current.fill.alpha fillAlpha
    · rw [hstroke]
      exact h.current.stroke.alpha strokeAlpha

theorem KeepsColors.save (h : c.KeepsColors imposed) : c.save.KeepsColors imposed :=
  ⟨h.current, List.forall_mem_cons.2 ⟨h.current, h.saved⟩⟩

theorem KeepsColors.restore (h : c.KeepsColors imposed) : c.restore.KeepsColors imposed := by
  unfold Canvas.restore
  split
  · exact h
  · next g rest hsaved =>
    obtain ⟨hg, hrest⟩ := List.forall_mem_cons.1 (hsaved ▸ h.saved)
    exact ⟨hg, hrest⟩

end Canvas

/-! ### Invariance -/

/-- The library has a cell that takes its colour from where it is used. -/
def Setting.Imposes (s : Setting α) : Prop :=
  ∃ t : Tiling α, s.HasPattern (.tiling t) ∧ t.uncolored = true

/-- A cell begins with the paints of a page, but perhaps in another colour. -/
theorem Tiling.accounted_cellState {s : Setting α} {t : Tiling α} (hone : ¬(1 : α) < 0)
    (ht : s.HasPattern (.tiling t)) (paint : Paint α) : (t.cellState paint).Accounted s.Imposes := by
  unfold cellState
  dsimp only
  split
  · next huncolored =>
    have himposes : s.Imposes := ⟨t, ht, huncolored⟩
    exact ⟨fun _ _ => .inr (.inr ⟨himposes, rfl, rfl⟩),
      fun _ _ => .inr (.inr ⟨himposes, rfl, rfl⟩)⟩
  · exact GraphicsState.accounted_initial hone _

section Invariance

variable [ZerosAlike α] (hone : ¬(1 : α) < 0)

include hone

/-- Each step leaves the paints accounted for. -/
theorem kept_colors (s : Setting α) (deep : Prop) {imposed : Prop}
    (himposed : imposed → s.Imposes) :
    Kept s deep (Canvas.KeepsColors imposed) fun _ g => g.Accounted s.Imposes :=
  have hnested {c : Canvas α} (h : c.KeepsColors imposed) : c.graphics.Accounted s.Imposes :=
    h.current.imp himposed
  have hinitial (ctm : Matrix α) : (GraphicsState.initial ctm).Accounted s.Imposes :=
    GraphicsState.accounted_initial hone ctm
  Observes.kept
    { undisturbed := fun hd h => h.undisturbed hd
      adjust := fun a ha h => h.adjust hone a ha
      save := fun h => h.save
      restore := fun h => h.restore
      style := fun hn _ scale h => by
        refine matches_currentStyle hn ⟨rfl, h⟩ rfl ?_ scale
        rintro _ c textStyle ⟨rfl, h⟩
        exact ⟨rfl, h.current, h.saved⟩
      startCell := fun _ paint ht _ => Tiling.accounted_cellState hone ht paint
      startGlyph := fun _ h => ⟨(hnested h).fill, (hnested h).stroke⟩
      startForm := fun _ _ h => ⟨(hnested h).fill, (hnested h).stroke⟩
      startPage := fun _ _ ctm _ _ => ⟨(hinitial ctm).fill, (hinitial ctm).stroke⟩ }

/-- **Paints are accounted for on every level**; colours are imposed in nested content only. -/
theorem invariant_colors (s : Setting α) :
    Invariant s (fun _ outer => Canvas.KeepsColors (outer ≠ [] ∧ s.Imposes))
      fun _ g => g.Accounted s.Imposes where
  kept level _ := kept_colors hone s (level ≠ 0) And.right
  enter _ _ _ _ hG :=
    ⟨hG.imp fun h => ⟨List.cons_ne_nil _ _, h⟩, fun _ hg => absurd hg List.not_mem_nil⟩
  leave h _ _ := ⟨h.current, h.saved⟩

variable (v : Converter α) (p : Page α)

/-- **Components describe the colour**, in every state that a page passes through, for fills and
strokes, in the state in force and in the saved ones: a plain colour is that of its components in
its space, up to the signs of zeros. But where a space has been selected whose initial colour has
other components than zeros, the colour is the initial one and the components are zeros; and in
nested content, if there are cells without colours of their own, a colour may have been imposed
beside the components of black. -/
theorem paint_described {outer : List (Context α)} {c : Canvas α} (hreaches : v.Reaches p outer c)
    {g : GraphicsState α} (hg : g ∈ c.graphics :: c.context.saved) (target : PaintTarget)
    (hplain : (g.paint target).pattern = none)
    (hspace : (g.paint target).space.isPattern = false) :
    (g.paint target).Described ∨ (g.paint target).Unset ∨
      (outer ≠ [] ∧ (p.setting v.options v.library).Imposes) ∧ (g.paint target).Imposed := by
  have hstart : (v.canvas p).KeepsColors (([] : List (Context α)) ≠ [] ∧
      (p.setting v.options v.library).Imposes) :=
    ⟨GraphicsState.accounted_initial hone _, fun _ hg => absurd hg List.not_mem_nil⟩
  obtain ⟨_, hc⟩ := (invariant_colors hone _).of_reaches hstart hreaches
  rcases List.mem_cons.1 hg with rfl | hg
  · exact hc.current.paint target hplain hspace
  · exact (hc.saved g hg).paint target hplain hspace

end Invariance

section Example

attribute [local instance] Scalar.rational

/-- A page that selects a colour space and sets no colour. -/
def spacePage (name : String) : Page ℚ := ⟨⟨0, 0, 10, 10⟩, 0, [⟨"cs", [.name name]⟩], 0, []⟩

/-- A converter without resources. -/
def bareConverter : Converter ℚ := { options := .standard, library := #[] }

/-- The state after the operation of the page. -/
def spaceCanvas (name : String) : Canvas ℚ :=
  let p := spacePage name
  (bareConverter.canvas p).looked.setColorSpace
    (p.setting bareConverter.options bareConverter.library).environment .fill name

theorem reaches_spaceCanvas (name : String) :
    bareConverter.Reaches (spacePage name) [] (spaceCanvas name) :=
  bareConverter.reaches_executed rfl fun _ => rfl

/-- The initial colour of a space of three components is described. -/
theorem paint_described_deviceRgb :
    let c := spaceCanvas "DeviceRGB"
    @ZerosAlike ℚ Scalar.rational ∧ ¬(1 : ℚ) < 0 ∧
      bareConverter.Reaches (spacePage "DeviceRGB") [] c ∧ c.graphics.fill.pattern = none ∧
      c.graphics.fill.space.isPattern = false ∧ c.graphics.fill.Described := by
  intro c
  have hzeros := Scalar.zerosAlike_rational
  have hone : ¬(1 : ℚ) < 0 := by decide
  have hreaches := reaches_spaceCanvas "DeviceRGB"
  refine ⟨hzeros, hone, hreaches, rfl, rfl, ?_⟩
  rcases paint_described hone bareConverter _ hreaches List.mem_cons_self .fill rfl rfl with
    h | h | ⟨⟨hnested, _⟩, _⟩
  · exact h
  · exact absurd rfl h.differs
  · exact absurd rfl hnested

/-- The components of the initial colour of a space of four components are
those of another colour. -/
theorem paint_undescribed_deviceCmyk :
    let c := spaceCanvas "DeviceCMYK"
    bareConverter.Reaches (spacePage "DeviceCMYK") [] c ∧ c.graphics.fill.pattern = none ∧
      c.graphics.fill.space.isPattern = false ∧ c.graphics.fill.rgb = .black ∧
      c.graphics.fill.space.toRgb? c.graphics.fill.components = some .white ∧
      (Rgb.white : Rgb ℚ) ≠ .black := by
  have hdark : (1 - Rgb.unit 0) * (1 - Rgb.unit 1) = (0 : ℚ) := by decide +kernel
  have hlight : (1 - Rgb.unit 0) * (1 - Rgb.unit 0) = (1 : ℚ) := by decide +kernel
  have hblack : Rgb.ofCmyk 0 0 0 1 = (Rgb.black : Rgb ℚ) := by
    simp only [Rgb.ofCmyk, hdark, Rgb.black]
  have hwhite : Rgb.ofCmyk 0 0 0 0 = (Rgb.white : Rgb ℚ) := by
    simp only [Rgb.ofCmyk, hlight, Rgb.white]
  exact ⟨reaches_spaceCanvas "DeviceCMYK", rfl, rfl, hblack, congrArg some hwhite,
    fun h => absurd (congrArg Rgb.r h) (by decide)⟩

end Example

end PageSvg
