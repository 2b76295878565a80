import PageSvg.Proofs.Canvas.RectangleFill
import PageSvg.Proofs.Canvas.StrokeReach
import PageSvg.Proofs.Keyed
import PageSvg.Proofs.Number.Written

/-!
# The width of strokes

The width of a stroke is rounded like a coordinate. In device space it is no less than that of the
thinnest line, so a stroke can be seen if that can be written. In user space the width of the
thinnest line is divided by the mean scale before it is rounded: under a map that enlarges, nothing
may be left of a hairline.
-/

namespace PageSvg

open Draw

/-! ### Attributes -/

namespace Node

variable {n : Node} {name other : String}

theorem get?_set_self (n : Node) (name value : String) : (n.set name value).get? name = some value :=
  Keyed.get?_insert_self

theorem get?_set_of_ne (h : name ≠ other) (value : String) :
    (n.set other value).get? name = n.get? name := Keyed.get?_insert_of_ne h

theorem get?_setIf_of_ne (h : name ≠ other) (condition : Bool) (value : String) :
    (n.setIf condition other value).get? name = n.get? name := by
  unfold setIf
  split_ifs
  · exact get?_set_of_ne h value
  · rfl

/-- The width of the stroke of an element: what is written, or one where nothing is. -/
def strokeWidth? (n : Node) : Option ℚ :=
  match n.get? "stroke-width" with
  | some width => Decimal.read? width.toList
  | none => some 1

end Node

namespace GraphicsState

variable {α : Type} [Scalar α] (o : Options α) (g : GraphicsState α) (node : Node)

theorem get?_withFill (evenOdd : Bool) (paint : String) :
    (g.withFill o evenOdd paint node).get? "stroke-width" = node.get? "stroke-width" := by
  unfold withFill
  rw [Node.get?_setIf_of_ne (by decide), Node.get?_setIf_of_ne (by decide),
    Node.get?_setIf_of_ne (by decide)]

theorem get?_withJoin :
    (g.withJoin o node).get? "stroke-width" = node.get? "stroke-width" := by
  unfold withJoin
  split
  · exact Node.get?_setIf_of_ne (by decide) _ _
  · exact Node.get?_set_of_ne (by decide) _

theorem get?_withDash (scale : α) :
    (g.withDash o scale node).get? "stroke-width" = node.get? "stroke-width" := by
  unfold withDash
  split_ifs
  · rfl
  · rw [Node.get?_setIf_of_ne (by decide), Node.get?_set_of_ne (by decide)]

/-- A stroke of any other width than one has it written. -/
theorem get?_withStroke (userSpace : Bool) (paint : String) :
    (g.withStroke o userSpace paint node).get? "stroke-width" =
      if g.strokeWidth o userSpace == 1 then node.get? "stroke-width"
      else some (o.text (g.strokeWidth o userSpace)) := by
  unfold withStroke
  dsimp only
  rw [get?_withDash, get?_withJoin, Node.get?_setIf_of_ne (by decide),
    Node.get?_setIf_of_ne (by decide), Node.setIf]
  cases g.strokeWidth o userSpace == 1 with
  | true => exact Node.get?_set_of_ne (by decide) paint
  | false => exact Node.get?_set_self _ _ _

end GraphicsState

/-! ### Drawing a stroke -/

section Draw

variable {α : Type} [Scalar α]

/-- The map under which a stroked path is drawn, if it is written in user space. -/
def GraphicsState.strokeSpace (g : GraphicsState α) : Option (Matrix α) :=
  if !g.ctm.isUniform then some g.ctm else none

/-- The element of a stroked path without its paint. -/
def GraphicsState.outlineNode (o : Options α) (g : GraphicsState α) (path : Path α) : Node :=
  match g.strokeSpace with
  | some m =>
    { tag := "path", attrs := [("d", PathData.text o.precision path), ("transform", m.text o)] }
  | none => shapeNode o (Path.transform g.ctm path) true

theorem GraphicsState.get?_outlineNode (o : Options α) (g : GraphicsState α) (path : Path α) :
    (g.outlineNode o path).get? "stroke-width" = none := by
  unfold outlineNode shapeNode
  split
  · rfl
  · split <;> rfl

/-- An element with what is said about its fill before it is stroked. -/
def GraphicsState.Fills (o : Options α) (g : GraphicsState α) (mode : PaintMode)
    (node filled : Node) : Prop :=
  filled = node.set "fill" "none" ∨ ∃ paint, filled = g.withFill o mode.evenOdd paint node

theorem GraphicsState.Fills.get?_eq {o : Options α} {g : GraphicsState α} {mode : PaintMode}
    {node filled : Node} (h : g.Fills o mode node filled) :
    filled.get? "stroke-width" = node.get? "stroke-width" := by
  obtain rfl | ⟨paint, rfl⟩ := h
  · exact Node.get?_set_of_ne (by decide) _
  · exact g.get?_withFill o node mode.evenOdd paint

theorem GraphicsState.isSome_strokeSpace (g : GraphicsState α) :
    g.strokeSpace.isSome = !g.ctm.isUniform := by
  unfold strokeSpace
  cases g.ctm.isUniform <;> rfl

variable {env : Environment α} {path : Path α} {mode : PaintMode} {c : Canvas α}
  {bounds : Rectangle α}

/-- Nothing is drawn of a path without points. -/
theorem drawPath_of_no_bounds
    (hbounds : Rectangle.bounds? (Path.transform c.graphics.ctm path) = none) :
    drawPath env path mode c = .ok () c := by
  unfold drawPath
  rw [getBind_apply]
  simp only [hbounds]
  rfl

/-- A stroked path is one element: it is filled, or said not to be, and then stroked. -/
theorem drawPath_of_stroke (hstrokes : mode.strokes = true)
    (hbounds : Rectangle.bounds? (Path.transform c.graphics.ctm path) = some bounds) :
    let g := c.graphics
    let node := g.outlineNode env.options path
    drawPath env path mode c =
      ((if mode.fills then fillNode env node mode.evenOdd g.strokeSpace
        else pure (node.set "fill" "none")) >>= fun node =>
      strokeNode env node g.strokeSpace >>= fun node =>
      modify fun d =>
        d.append env.options node (some (bounds.inflate (g.strokeReach env.options)))) c := by
  intro g node
  unfold drawPath
  rw [getBind_apply]
  simp only [hbounds, hstrokes, Bool.true_and, ↓reduceIte]
  cases mode.fills <;> rfl

section Isolated

variable (h : env.Isolates)

include h

theorem exists_fillNode (node : Node) (evenOdd : Bool) (transform : Option (Matrix α))
    (c : Canvas α) : ∃ paint d,
      fillNode env node evenOdd transform c =
        .ok (c.graphics.withFill env.options evenOdd paint node) d ∧ c.Isolated d := by
  obtain ⟨paint, d, hpaint, hd⟩ :=
    ((quiet_paintValue h c.graphics.fill transform).ends c).exists_ok
  refine ⟨paint, d, ?_, hd⟩
  unfold fillNode
  rw [getBind_apply, bind_apply, hpaint]
  rfl

theorem exists_strokeNode (node : Node) (transform : Option (Matrix α)) (c : Canvas α) :
    ∃ paint d,
      strokeNode env node transform c =
        .ok (c.graphics.withStroke env.options transform.isSome paint node) d ∧ c.Isolated d := by
  obtain ⟨paint, d, hpaint, hd⟩ :=
    ((quiet_paintValue h c.graphics.stroke transform).ends c).exists_ok
  refine ⟨paint, d, ?_, hd⟩
  unfold strokeNode
  rw [getBind_apply, bind_apply, hpaint]
  rfl

/-- Stroking puts one element on the canvas, and the attributes of the stroke are set last. -/
theorem exists_drawPath_stroke (hstrokes : mode.strokes = true)
    (hbounds : Rectangle.bounds? (Path.transform c.graphics.ctm path) = some bounds) :
    ∃ paint node d,
      c.graphics.Fills env.options mode (c.graphics.outlineNode env.options path) node ∧
      c.Isolated d ∧ drawPath env path mode c = .ok () (d.append env.options
        (c.graphics.withStroke env.options (!c.graphics.ctm.isUniform) paint node)
        (some (bounds.inflate (c.graphics.strokeReach env.options)))) := by
  let g := c.graphics
  let outline := g.outlineNode env.options path
  have hfilled : ∃ node d,
      (if mode.fills then fillNode env outline mode.evenOdd g.strokeSpace
        else pure (outline.set "fill" "none")) c = .ok node d ∧
      g.Fills env.options mode outline node ∧ c.Isolated d := by
    cases mode.fills with
    | true =>
      obtain ⟨paint, d, hfill, hd⟩ := exists_fillNode h outline mode.evenOdd g.strokeSpace c
      exact ⟨_, d, hfill, .inr ⟨paint, rfl⟩, hd⟩
    | false => exact ⟨_, c, rfl, .inl rfl, ⟨.refl c, rfl⟩⟩
  obtain ⟨node, d, hfill, hnode, hd⟩ := hfilled
  obtain ⟨paint, e, hstroke, he⟩ := exists_strokeNode h node g.strokeSpace d
  have hg : d.graphics = g := congrArg Context.graphics hd.context
  rw [hg, g.isSome_strokeSpace] at hstroke
  refine ⟨paint, node, e, hnode, hd.trans he, ?_⟩
  rw [drawPath_of_stroke hstrokes hbounds, bind_apply, hfill]
  dsimp only
  rw [bind_apply, hstroke]
  rfl

end Isolated

end Draw

/-! ### Widths that are written -/

attribute [local instance] Scalar.real

attribute [local instance (high)] Zero.toOfNat0 One.toOfNat1 instOfNatAtLeastTwo
  DivInvMonoid.toDiv

namespace GraphicsState

variable {o : Options ℝ} {g : GraphicsState ℝ} {node : Node}

/-- The width of the stroke of an element is rounded like a coordinate. -/
theorem strokeWidth?_withStroke (hnode : node.get? "stroke-width" = none) (userSpace : Bool)
    (paint : String) :
    (g.withStroke o userSpace paint node).strokeWidth? =
      some (o.written (g.strokeWidth o userSpace)) := by
  rw [Node.strokeWidth?, get?_withStroke, hnode, Scalar.one_real]
  by_cases hone : g.strokeWidth o userSpace = 1
  · rw [if_pos (beq_iff_eq.2 hone), hone, Options.written_one]
  · rw [if_neg (mt beq_iff_eq.1 hone)]
    exact o.read?_text _

/-- What is left of a stroke can be seen always in device space. -/
theorem written_strokeWidth_pos_iff (ho : (10 ^ o.precision : ℝ)⁻¹ ≤ o.minStrokeWidth)
    (userSpace : Bool) :
    0 < o.written (g.strokeWidth o userSpace) ↔ userSpace = false ∨
      (10 ^ o.precision : ℝ)⁻¹ / 2 ≤ max g.lineWidth (o.minStrokeWidth / g.hairlineScale) := by
  rw [Options.written_pos_iff]
  cases userSpace with
  | true => rw [strokeWidth_user, or_iff_right (by decide)]
  | false =>
    have hunit : (0 : ℝ) < (10 ^ o.precision)⁻¹ := by positivity
    rw [strokeWidth_device]
    exact iff_of_true ((half_le_self hunit.le).trans (ho.trans (le_max_right _ _))) (.inl rfl)

end GraphicsState

section Path

variable (s : Setting ℝ) (level : Nat) (path : Path ℝ) (mode : PaintMode) (c : Canvas ℝ)

/-- The element of a stroke has the width of the stroke, rounded. -/
theorem exists_strokeWidth (hstrokes : mode.strokes = true) (hpoints : Path.points path ≠ []) :
    ∃ node bounds d, c.Isolated d ∧
      drawPath { toSetting := s, nested := s.nested level } path mode c =
        .ok () (d.append s.options node bounds) ∧
      node.strokeWidth? =
        some (s.options.written (c.graphics.strokeWidth s.options (!c.graphics.ctm.isUniform))) := by
  have hdevice : Path.points (Path.transform c.graphics.ctm path) ≠ [] := by
    rw [Path.points_transform, ne_eq, List.map_eq_nil_iff]
    exact hpoints
  obtain ⟨bounds, hbounds, -⟩ := Rectangle.exists_bounds? hdevice
  obtain ⟨paint, node, d, hnode, hd, hdraw⟩ :=
    exists_drawPath_stroke (s.nested_isolates level) hstrokes hbounds
  have hwidth := hnode.get?_eq.trans (c.graphics.get?_outlineNode s.options path)
  exact ⟨_, _, d, hd, hdraw, GraphicsState.strokeWidth?_withStroke hwidth _ paint⟩

theorem drawPath_of_no_points (env : Environment ℝ) (hpoints : Path.points path = []) :
    drawPath env path mode c = .ok () c := by
  have hbounds : Rectangle.bounds? (Path.transform c.graphics.ctm path) = none := by
    rw [Rectangle.bounds?, Path.points_transform, hpoints]
    rfl
  exact drawPath_of_no_bounds hbounds

/-- **In device space every stroke can be seen**, that of text as well, if the width of the thinnest
line can be written. In user space a stroke can be seen exactly if half a unit of the last decimal
place is left of it, where the width of the thinnest line is divided by the mean scale. -/
theorem drawPath_strokeWidth (hstrokes : mode.strokes = true)
    (ho : (10 ^ s.options.precision : ℝ)⁻¹ ≤ s.options.minStrokeWidth) :
    let env : Environment ℝ := { toSetting := s, nested := s.nested level }
    let g := c.graphics
    (Path.points path = [] → drawPath env path mode c = .ok () c) ∧
      (Path.points path ≠ [] → ∃ node bounds d w, c.Isolated d ∧
        drawPath env path mode c = .ok () (d.append s.options node bounds) ∧
        node.strokeWidth? = some w ∧
        (0 < w ↔ g.ctm.isUniform = true ∨ (10 ^ s.options.precision : ℝ)⁻¹ / 2 ≤
          max g.lineWidth (s.options.minStrokeWidth / g.hairlineScale))) ∧
      ∀ scale, ∃ style d, makeStyle env g scale c = .ok style d ∧ c.Isolated d ∧
        ∀ stroke ∈ style.stroke, ∃ w,
          Decimal.read? (s.options.text stroke.width).toList = some w ∧ 0 < w := by
  intro env g
  refine ⟨drawPath_of_no_points path mode c env, fun hpoints => ?_, fun scale => ?_⟩
  · obtain ⟨node, bounds, d, hd, hdraw, hwidth⟩ :=
      exists_strokeWidth s level path mode c hstrokes hpoints
    refine ⟨node, bounds, d, _, hd, hdraw, hwidth, ?_⟩
    rw [GraphicsState.written_strokeWidth_pos_iff ho, Bool.not_eq_false']
  · obtain ⟨style, d, hstyle, hd, hmade⟩ := exists_makeStyle (s.nested_isolates level) g scale c
    refine ⟨style, d, hstyle, hd, fun stroke hstroke => ⟨_, s.options.read?_text _, ?_⟩⟩
    rw [hmade.stroke stroke hstroke]
    exact (GraphicsState.written_strokeWidth_pos_iff ho false).2 (.inl rfl)

end Path

section Example

/-- A map that stretches one axis. -/
noncomputable def Matrix.stretching (factor : ℝ) : Matrix ℝ := ⟨factor, 0, 0, 1, 0, 0⟩

theorem Matrix.isUniform_stretching {factor : ℝ} (h : 2 ≤ factor) :
    (stretching factor).isUniform = false := by
  have hrow : length (factor, (0 : ℝ)) = factor := by
    rw [length_real, mul_zero, add_zero, Real.sqrt_mul_self (by linarith)]
  have hcolumn : length ((0 : ℝ), 1) = 1 := by
    rw [length_real, mul_zero, zero_add, mul_one, Real.sqrt_one]
  refine decide_eq_false fun ⟨hlengths, _⟩ => ?_
  rw [Scalar.one_real, Scalar.max_real] at hlengths
  have hlengths : |length (factor, (0 : ℝ)) - length ((0 : ℝ), 1)| ≤
      1e-9 * (1 + max (length (factor, (0 : ℝ))) (length ((0 : ℝ), 1))) := hlengths
  rw [hrow, hcolumn, max_eq_left (by linarith), abs_of_nonneg (by linarith)] at hlengths
  norm_num at hlengths
  linarith

/-- A canvas with a hairline under a map that stretches one axis. -/
noncomputable def hairlineCanvas (factor : ℝ) : Canvas ℝ where
  context := .start { GraphicsState.initial (Matrix.stretching factor) with lineWidth := 0 } 0
  clips := { precision := (Options.standard : Options ℝ).precision }

theorem hairlineScale_hairlineCanvas {factor : ℝ} (h : 0 < factor) :
    (hairlineCanvas (factor * factor)).graphics.hairlineScale = factor := by
  have hmean : (hairlineCanvas (factor * factor)).graphics.ctm.meanScale = factor := by
    show √|factor * factor * 1 - 0 * 0| = factor
    rw [mul_one, mul_zero, sub_zero, abs_mul_self, Real.sqrt_mul_self h.le]
  rw [GraphicsState.hairlineScale_real, hmean, if_pos h]

/-- A line along the first axis. -/
def unitLine : Path ℝ := [.move (0, 0), .line (1, 0)]

/-- A hairline can be seen under a map that stretches one axis fourfold. -/
theorem drawPath_strokeWidth_stretched :
    let s : Setting ℝ := ⟨.standard, #[], .identity, ⟨0, 0, 20, 20⟩⟩
    let c := hairlineCanvas (2 * 2)
    (10 ^ s.options.precision : ℝ)⁻¹ ≤ s.options.minStrokeWidth ∧
      ∃ node bounds d w, c.Isolated d ∧
        drawPath ⟨s, s.nested 0⟩ unitLine { strokes := true } c =
          .ok () (d.append s.options node bounds) ∧ node.strokeWidth? = some w ∧ 0 < w := by
  intro s c
  have hwritten : ((10 : ℝ) ^ 3)⁻¹ ≤ 0.5 := by norm_num
  obtain ⟨-, hdraw, -⟩ := drawPath_strokeWidth s 0 unitLine { strokes := true } c rfl hwritten
  obtain ⟨node, bounds, d, w, hd, hdraw, hwidth, hpos⟩ := hdraw (List.cons_ne_nil _ _)
  refine ⟨hwritten, node, bounds, d, w, hd, hdraw, hwidth, hpos.2 (.inr ?_)⟩
  rw [hairlineScale_hairlineCanvas two_pos]
  show ((10 : ℝ) ^ 3)⁻¹ / 2 ≤ max 0 (0.5 / 2)
  norm_num

/-- With one decimal place nothing is left of it under a map that stretches one axis further. -/
theorem drawPath_strokeWidth_vanished :
    let s : Setting ℝ := ⟨{ Options.standard with precision := 1 }, #[], .identity, ⟨0, 0, 20, 20⟩⟩
    let c := hairlineCanvas (20 * 20)
    (10 ^ s.options.precision : ℝ)⁻¹ ≤ s.options.minStrokeWidth ∧
      ∃ node bounds d w, c.Isolated d ∧
        drawPath ⟨s, s.nested 0⟩ unitLine { strokes := true } c =
          .ok () (d.append s.options node bounds) ∧ node.strokeWidth? = some w ∧ ¬0 < w := by
  intro s c
  have hwritten : ((10 : ℝ) ^ 1)⁻¹ ≤ 0.5 := by norm_num
  obtain ⟨node, bounds, d, hd, hdraw, hwidth⟩ :=
    exists_strokeWidth s 0 unitLine { strokes := true } c rfl (List.cons_ne_nil _ _)
  refine ⟨hwritten, node, bounds, d, _, hd, hdraw, hwidth, ?_⟩
  rw [GraphicsState.written_strokeWidth_pos_iff hwritten, Bool.not_eq_false',
    hairlineScale_hairlineCanvas (by norm_num), not_or]
  constructor
  · rw [show c.graphics.ctm = Matrix.stretching (20 * 20) from rfl,
      Matrix.isUniform_stretching (by norm_num)]
    exact Bool.false_ne_true
  · show ¬((10 : ℝ) ^ 1)⁻¹ / 2 ≤ max 0 (0.5 / 20)
    norm_num

end Example

end PageSvg
