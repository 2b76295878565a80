import Mathlib.Tactic.NormNum
import PageSvg.Proofs.Canvas.Matching
import PageSvg.Proofs.Canvas.Quiet
import PageSvg.Proofs.Geometry.Cut
import PageSvg.Proofs.Geometry.PathData
import PageSvg.Proofs.Number.Written

/-!
# Filling inside a plain rectangle

A path is filled inside a clip region that is nothing but one rectangle. With the fast path
on, a path that is a rectangle itself is cut to the common part and needs no wrapper, and
nothing is drawn of it where there is no common part; any other path is drawn as it is, in the
wrapper of the region unless all its points lie in the rectangle. With the fast path off every
path is drawn in the wrapper.
-/

namespace PageSvg

open Draw

section Emission

variable {α : Type}

/-- The rectangle of a region does not change. -/
theorem ClipForest.Grows.plainRectangle? {f g : ClipForest α} (h : f.Grows g) {i : Nat}
    {r : Rectangle α} (hr : f.plainRectangle? i = some r) : g.plainRectangle? i = some r := by
  unfold ClipForest.plainRectangle? at hr ⊢
  split at hr
  · next id s evenOdd referenced hregion =>
    obtain ⟨⟨id', parent, shape, evenOdd', referenced'⟩, hg, hpersists⟩ := h.kept i _ hregion
    obtain rfl : parent = none := hpersists.parent
    obtain rfl : shape = .rectangle s := hpersists.shape
    rw [ClipForest.get?, hg]
    exact hr
  · cases hr

namespace Canvas

variable [Scalar α] {o : Options α} {c : Canvas α} {region : Nat} {node : Node}
  {bounds clip : Rectangle α}

/-- In a clip region an element is drawn as it is only if it fits. -/
theorem append_of_clip (hclip : c.graphics.clip = some region) (bounds : Option (Rectangle α)) :
    c.append o node bounds =
      if c.fits o bounds then c.withCall (.raw (c.graphics.withEffects node))
      else c.withCall (.clipped region (c.clips.id region) (c.graphics.withEffects node)) := by
  rw [append_eq, call, hclip]
  dsimp only
  split <;> rfl

omit [Scalar α] in
theorem clipRectangle?_eq (hclip : c.graphics.clip = some region)
    (hplain : c.clips.plainRectangle? region = some clip) : c.clipRectangle? = some clip := by
  rw [clipRectangle?, hclip, Option.bind_some, hplain]

/-- In a plain rectangle the fast path looks whether the bounds lie in it. -/
theorem fits_eq (h : c.clipRectangle? = some clip) :
    c.fits o (some bounds) = (o.rectClipFastPath && clip.contains bounds) := by
  unfold fits
  rw [h]
  cases o.rectClipFastPath with
  | true => rfl
  | false => rfl

end Canvas

/-- Filling draws what is left of the path, under the paint it has found. -/
theorem drawPath_of_fill [Scalar α] {env : Environment α} {path : Path α} {mode : PaintMode}
    {c d : Canvas α} {paint : String} {bounds : Rectangle α} (hfills : mode.fills = true)
    (hstrokes : mode.strokes = false)
    (hbounds : Rectangle.bounds? (Path.transform c.graphics.ctm path) = some bounds)
    (hpaint : paintValue env c.graphics.fill none c = .ok paint d) :
    drawPath env path mode c =
      match cutToClip env.options c.clipRectangle? (Path.transform c.graphics.ctm path) bounds with
      | none => .ok () c
      | some (shape, bounds) =>
        .ok () (d.append env.options
          (c.graphics.withFill env.options mode.evenOdd paint (shapeNode env.options shape false))
          (some bounds)) := by
  have hfill (node : Node) : fillNode env node mode.evenOdd none c =
      .ok (c.graphics.withFill env.options mode.evenOdd paint node) d := by
    show (paintValue env c.graphics.fill none >>= fun paint =>
      pure (c.graphics.withFill env.options mode.evenOdd paint node)) c = _
    rw [bind_apply, hpaint]
    rfl
  unfold drawPath
  rw [getBind_apply]
  simp only [hbounds, hstrokes, Bool.false_eq_true, ↓reduceIte, Bool.false_and, hfills]
  cases cutToClip env.options c.clipRectangle? (Path.transform c.graphics.ctm path) bounds with
  | none => rfl
  | some visible =>
    dsimp only
    rw [bind_apply, hfill]
    rfl

end Emission

attribute [local instance] Scalar.real

attribute [local instance (high)] Zero.toOfNat0 One.toOfNat1 instOfNatAtLeastTwo
  DivInvMonoid.toDiv

/-! ### What an element shows -/

/-- The element shows the path: its data are those of the path, and read as its segments unless the
coordinates are too large. -/
inductive Path.ShownAs (o : Options ℝ) (path : Path ℝ) : Node → Prop
  | path (data : String) (hdata : data = PathData.text o.precision path)
    (hread : (∀ p ∈ path.points, PathData.Fits (PathData.units o.precision p.1) ∧
        PathData.Fits (PathData.units o.precision p.2)) →
      PathData.read? data.toList = some (PathData.reading o.precision path)) :
    ShownAs o path { tag := "path", attrs := [("d", data)] }

namespace Rectangle

/-- The element shows the rectangle, by a corner and the extent; a rectangle without extent in some
direction is shown as its outline. -/
inductive ShownAs (o : Options ℝ) (r : Rectangle ℝ) : Node → Prop
  | rect (x y width height : String) (hextent : r.x1 < r.x2 ∧ r.y1 < r.y2)
    (hx : Decimal.read? x.toList = some (o.written r.x1))
    (hy : Decimal.read? y.toList = some (o.written r.y1))
    (hwidth : Decimal.read? width.toList = some (o.written (r.x2 - r.x1)))
    (hheight : Decimal.read? height.toList = some (o.written (r.y2 - r.y1))) :
    ShownAs o r
      { tag := "rect", attrs := [("x", x), ("y", y), ("width", width), ("height", height)] }
  | outline {node : Node} (hflat : ¬(r.x1 < r.x2 ∧ r.y1 < r.y2))
    (hnode : Path.ShownAs o
      (.outline (r.x1, r.y1) [(r.x2, r.y1), (r.x2, r.y2), (r.x1, r.y2)] true) node) :
    ShownAs o r node

end Rectangle

section Shape

variable (o : Options ℝ) {r : Rectangle ℝ} {device : Path ℝ}

theorem Path.shownAs_text (path : Path ℝ) :
    path.ShownAs o { tag := "path", attrs := [("d", PathData.text o.precision path)] } := by
  refine .path _ rfl fun hfits => ?_
  have hspells : PathData.SpellsPath o.precision none _ _ :=
    PathData.spellsPath_started (PathData.fitsPoint_inUnits o.precision hfits)
  rw [PathData.text, PathData.read?_of_spellsPath hspells, PathData.started_inUnits]

theorem Rectangle.shownAs_attrs (hextent : r.x1 < r.x2 ∧ r.y1 < r.y2) :
    r.ShownAs o { tag := "rect", attrs := r.attrs o } :=
  .rect _ _ _ _ hextent (o.read?_text _) (o.read?_text _) (o.read?_text _) (o.read?_text _)

/-- What is drawn of a path that is no rectangle shows the path. -/
theorem shownAs_shapeNode_of_other (hother : Rectangle.ofPath? device = none) :
    device.ShownAs o (shapeNode o device false) := by
  unfold shapeNode
  rw [if_neg Bool.false_ne_true, hother]
  exact device.shownAs_text o

/-- What is drawn of a rectangle shows it. -/
theorem shownAs_shapeNode_of_rectangle (hdevice : Rectangle.ofPath? device = some r) :
    r.ShownAs o (shapeNode o device false) := by
  unfold shapeNode
  rw [if_neg Bool.false_ne_true, hdevice]
  exact Rectangle.shownAs_attrs o (Rectangle.extent_of_ofPath? hdevice)

/-- What is drawn of the outline of a rectangle shows it. -/
theorem shownAs_shapeNode_toPath (hr : r.points ≠ ∅) : r.ShownAs o (shapeNode o r.toPath false) := by
  rw [ne_eq, Rectangle.points_eq_empty_iff, not_not] at hr
  by_cases hextent : r.x1 < r.x2 ∧ r.y1 < r.y2
  · exact shownAs_shapeNode_of_rectangle o (Rectangle.ofPath?_toPath hextent.1 hextent.2)
  · refine .outline hextent ?_
    rw [← Rectangle.toPath_eq]
    exact shownAs_shapeNode_of_other o (Rectangle.ofPath?_toPath_of_flat hr.1 hr.2 hextent)

end Shape

section Fill

variable {o : Options ℝ} {clip bounds r : Rectangle ℝ} {device : Path ℝ}

theorem cutToClip_of_disjoint (hfast : o.rectClipFastPath = true)
    (hdevice : Rectangle.ofPath? device = some r) (h : r.points ∩ clip.points = ∅) :
    cutToClip o (some clip) device bounds = none := by
  unfold cutToClip
  rw [hfast, hdevice]
  dsimp only
  rw [Rectangle.intersect?_of_disjoint h, Option.map_none]

theorem cutToClip_of_meet (hfast : o.rectClipFastPath = true)
    (hdevice : Rectangle.ofPath? device = some r) (h : r.points ∩ clip.points ≠ ∅) :
    cutToClip o (some clip) device bounds = some ((r.inner clip).toPath, r.inner clip) := by
  unfold cutToClip
  rw [hfast, hdevice]
  dsimp only
  rw [Rectangle.intersect?_of_meet h, Option.map_some]

theorem cutToClip_of_other (hdevice : Rectangle.ofPath? device = none) :
    cutToClip o (some clip) device bounds = some (device, bounds) := by
  unfold cutToClip
  rw [hdevice]
  cases o.rectClipFastPath <;> rfl

theorem cutToClip_of_slow (hslow : o.rectClipFastPath = false) :
    cutToClip o (some clip) device bounds = some (device, bounds) := by
  unfold cutToClip
  rw [hslow]

/-- **Filling inside a plain rectangle cuts exactly.** Some value of the paint is found without
drawing anything, and then, with the fast path on, a path that is a rectangle in device space is
shown as the rectangle of the points that it has in common with the clip rectangle, in no wrapper,
or not drawn at all; any other path is shown unchanged, in the wrapper of the region if and only if
one of its points lies beyond the clip rectangle. With the fast path off the path is shown unchanged
in the wrapper, as a rectangle if it is one. -/
theorem drawPath_in_plainRectangle (s : Setting ℝ) (level : Nat) (path : Path ℝ) (mode : PaintMode)
    (c : Canvas ℝ) (region : Nat) (clip : Rectangle ℝ) (hpoints : Path.points path ≠ [])
    (hfills : mode.fills = true) (hstrokes : mode.strokes = false)
    (hregion : c.graphics.clip = some region)
    (hclip : c.clips.plainRectangle? region = some clip) :
    let env : Environment ℝ := { toSetting := s, nested := s.nested level }
    let g := c.graphics
    let device := Path.transform g.ctm path
    ∃ paint d, paintValue env g.fill none c = .ok paint d ∧ c.Isolated d ∧
      let filled node := g.withEffects (g.withFill s.options mode.evenOdd paint node)
      let raw node := d.withCall (.raw (filled node))
      let wrapped node := d.withCall (.clipped region (d.clips.id region) (filled node))
      (s.options.rectClipFastPath = true →
        (∀ r, Rectangle.ofPath? device = some r →
          (r.points ∩ clip.points = ∅ → drawPath env path mode c = .ok () c) ∧
          (r.points ∩ clip.points ≠ ∅ → ∃ (v : Rectangle ℝ) (node : Node),
            v.points = r.points ∩ clip.points ∧ v.ShownAs s.options node ∧
              drawPath env path mode c = .ok () (raw node))) ∧
        (Rectangle.ofPath? device = none → ∃ node : Node, device.ShownAs s.options node ∧
          ((∀ p ∈ Path.points device, p ∈ clip.points) →
            drawPath env path mode c = .ok () (raw node)) ∧
          ((∃ p ∈ Path.points device, p ∉ clip.points) →
            drawPath env path mode c = .ok () (wrapped node)))) ∧
      (s.options.rectClipFastPath = false → ∃ node : Node,
        (∀ r, Rectangle.ofPath? device = some r → r.ShownAs s.options node) ∧
          (Rectangle.ofPath? device = none → device.ShownAs s.options node) ∧
          drawPath env path mode c = .ok () (wrapped node)) := by
  intro env g device
  obtain ⟨paint, d, hpaint, hd⟩ :=
    ((quiet_paintValue (s.nested_isolates level) g.fill none).ends c).exists_ok
  refine ⟨paint, d, hpaint, hd, ?_⟩
  intro filled raw wrapped
  have hdevice : Path.points device ≠ [] := by
    rw [Path.points_transform, ne_eq, List.map_eq_nil_iff]
    exact hpoints
  obtain ⟨bounds, hbounds, hcontains⟩ := Rectangle.exists_bounds? hdevice
  have hg : d.graphics = g := congrArg Context.graphics hd.context
  have hregion' : d.graphics.clip = some region := by rw [hg]; exact hregion
  have hrectangle : d.clipRectangle? = some clip :=
    Canvas.clipRectangle?_eq hregion' (hd.clips.plainRectangle? hclip)
  -- What is left of the path is put on the canvas as it is if its bounds fit.
  have hdraw := drawPath_of_fill hfills hstrokes hbounds hpaint
  rw [Canvas.clipRectangle?_eq hregion hclip] at hdraw
  have happend (node : Node) (bounds : Rectangle ℝ) :
      d.append s.options (g.withFill s.options mode.evenOdd paint node) (some bounds) =
        if s.options.rectClipFastPath && clip.contains bounds then raw node else wrapped node := by
    rw [Canvas.append_of_clip hregion', Canvas.fits_eq hrectangle, hg]
  refine ⟨fun hfast => ⟨fun r hr => ⟨fun hempty => ?disjoint, fun hmeet => ?meet⟩, fun hother =>
    ⟨shapeNode s.options device false, shownAs_shapeNode_of_other _ hother, fun hinside => ?inside,
      fun hbeyond => ?beyond⟩⟩, fun hslow => ⟨shapeNode s.options device false,
    fun r hr => shownAs_shapeNode_of_rectangle _ hr,
    fun hother => shownAs_shapeNode_of_other _ hother, ?slow⟩⟩
  case disjoint =>
    rw [hdraw, cutToClip_of_disjoint hfast hr hempty]
  case meet =>
    have hpoints := Rectangle.points_inner r clip
    refine ⟨r.inner clip, shapeNode s.options (r.inner clip).toPath false, hpoints,
      shownAs_shapeNode_toPath _ (by rwa [hpoints]), ?_⟩
    rw [hdraw, cutToClip_of_meet hfast hr hmeet]
    dsimp only
    rw [happend, hfast, Rectangle.contains_inner, Bool.and_self, if_pos rfl]
  case inside =>
    rw [hdraw, cutToClip_of_other hother]
    dsimp only
    rw [happend, hfast, (hcontains clip).2 hinside, Bool.and_self, if_pos rfl]
  case beyond =>
    have hnot : clip.contains bounds = false := by
      obtain ⟨p, hp, hout⟩ := hbeyond
      exact Bool.eq_false_iff.2 fun h => hout ((hcontains clip).1 h p hp)
    rw [hdraw, cutToClip_of_other hother]
    dsimp only
    rw [happend, hnot, Bool.and_false, if_neg Bool.false_ne_true]
  case slow =>
    rw [hdraw, cutToClip_of_slow hslow]
    dsimp only
    rw [happend, hslow, Bool.false_and, if_neg Bool.false_ne_true]

end Fill

section Example

/-- A canvas on which a rectangle is cut to, under a matrix. -/
noncomputable def clippedCanvas (clip : Rectangle ℝ) (m : Matrix ℝ) : Canvas ℝ where
  context := .start { GraphicsState.initial m with clip := some 0 } 0
  clips :=
    { regions := #[⟨"", none, .rectangle clip, false, false⟩]
      precision := (Options.standard : Options ℝ).precision }

/-- A square turned by a quarter reaches beyond the clip rectangle on two sides. -/
theorem drawPath_in_plainRectangle_corner :
    let s : Setting ℝ := ⟨.standard, #[], .identity, ⟨0, 0, 20, 20⟩⟩
    let clip : Rectangle ℝ := ⟨0, 0, 10, 10⟩
    let square : Rectangle ℝ := ⟨5, 5, 15, 15⟩
    let c := clippedCanvas clip ⟨0, 1, -1, 0, 15, 5⟩
    let path := (Rectangle.mk 0 0 10 10).toPath
    Path.points path ≠ [] ∧ c.graphics.clip = some 0 ∧ c.clips.plainRectangle? 0 = some clip ∧
      s.options.rectClipFastPath = true ∧
      Rectangle.ofPath? (Path.transform c.graphics.ctm path) = some square ∧
      square.points ∩ clip.points ≠ ∅ ∧
      ∃ (paint : String) (d : Canvas ℝ) (v : Rectangle ℝ) (node : Node),
        v.points = square.points ∩ clip.points ∧ v.ShownAs s.options node ∧
        drawPath ⟨s, s.nested 0⟩ path { fills := true } c =
          .ok () (d.withCall (.raw (c.graphics.withEffects
            (c.graphics.withFill s.options false paint node)))) := by
  intro s clip square c path
  have hpoints : Path.points path ≠ [] := List.cons_ne_nil _ _
  have hsquare : Rectangle.ofPath? (Path.transform c.graphics.ctm path) = some square := by
    have houtline : Path.transform c.graphics.ctm path =
        .outline (15, 5) [(15, 15), (5, 15), (5, 5)] true := by
      show Path.transform ⟨0, 1, -1, 0, 15, 5⟩ (Rectangle.mk (0 : ℝ) 0 10 10).toPath = _
      rw [Rectangle.toPath_eq]
      simp only [Path.outline, Path.transform, List.map, Segment.map, Matrix.apply,
        List.cons_append, List.nil_append, if_true]
      norm_num
    rw [houtline]
    refine Rectangle.ofPath?_eq_some_iff_turns.2
      ⟨_, _, _, _, false, Rectangle.corners?_eq_some_iff.2 ⟨true, .inl rfl⟩, ?_, ?_⟩
    · simp only [Rectangle.edge?]
      norm_num
    · simp only [Rectangle.ofCorners, Scalar.min_real, Scalar.max_real, square]
      norm_num
  have hmeet : square.points ∩ clip.points ≠ ∅ := by
    refine Set.Nonempty.ne_empty ⟨(5, 5), ?_, ?_⟩
    · show ((5 : ℝ) ≤ 5 ∧ (5 : ℝ) ≤ 15) ∧ (5 : ℝ) ≤ 5 ∧ (5 : ℝ) ≤ 15
      norm_num
    · show ((0 : ℝ) ≤ 5 ∧ (5 : ℝ) ≤ 10) ∧ (0 : ℝ) ≤ 5 ∧ (5 : ℝ) ≤ 10
      norm_num
  obtain ⟨paint, d, -, -, hfast, -⟩ :=
    drawPath_in_plainRectangle s 0 path { fills := true } c 0 clip hpoints rfl rfl rfl rfl
  obtain ⟨v, node, hv, hnode, hdraw⟩ := ((hfast rfl).1 square hsquare).2 hmeet
  exact ⟨hpoints, rfl, rfl, rfl, hsquare, hmeet, paint, d, v, node, hv, hnode, hdraw⟩

end Example

end PageSvg
