import Mathlib.Tactic.FieldSimp
import Mathlib.Tactic.NormNum
import PageSvg.Canvas.Overlay
import PageSvg.Proofs.Canvas.Isolation
import PageSvg.Proofs.Canvas.Sparing
import PageSvg.Proofs.Geometry.MappedBox

/-!
# Annotations fill their rectangles

The map that stretches a box to a rectangle keeps or turns around the order on each axis, so it
takes the bounds of a path to the bounds of its image: those of the mapped box of an appearance,
however it is turned or skewed, become the rectangle of the annotation. The content of the
appearance is drawn once, under all three maps, and the page finds its context as it was.
-/

namespace PageSvg

attribute [local instance] Scalar.real

attribute [local instance (high)] Zero.toOfNat0 One.toOfNat1 instOfNatAtLeastTwo
  DivInvMonoid.toDiv

/-! ### Bounds under maps -/

theorem Matrix.apply_multiply (m n : Matrix ℝ) (p : ℝ × ℝ) :
    (m.multiply n).apply p = n.apply (m.apply p) := by
  unfold multiply apply
  dsimp only
  congr 1 <;> ring

theorem Path.transform_multiply (m n : Matrix ℝ) (path : Path ℝ) :
    Path.transform (m.multiply n) path = Path.transform n (Path.transform m path) := by
  unfold Path.transform
  rw [List.map_map]
  refine List.map_congr_left fun segment _ => ?_
  cases segment <;> simp [Segment.map, Matrix.apply_multiply]

theorem Path.points_map {κ μ : Type} (f : κ × κ → μ × μ) (path : Path κ) :
    Path.points (path.map (Segment.map f)) = (Path.points path).map f := by
  unfold Path.points
  rw [List.flatMap_map, List.map_flatMap]
  refine List.flatMap_congr fun segment _ => ?_
  cases segment <;> rfl

namespace Rectangle

/-- The edges are in order. -/
structure Ordered (r : Rectangle ℝ) : Prop where
  x : r.x1 ≤ r.x2
  y : r.y1 ≤ r.y2

theorem ordered_ofCorners (x1 y1 x2 y2 : ℝ) : (ofCorners x1 y1 x2 y2).Ordered := by
  rw [ofCorners, Scalar.min_real, Scalar.min_real, Scalar.max_real, Scalar.max_real]
  exact ⟨min_le_max, min_le_max⟩

theorem Ordered.cover {r : Rectangle ℝ} (h : r.Ordered) (p : ℝ × ℝ) : (r.cover p).Ordered := by
  rw [Rectangle.cover, Scalar.min_real, Scalar.min_real, Scalar.max_real, Scalar.max_real]
  exact ⟨(min_le_left _ _).trans (h.x.trans (le_max_left _ _)),
    (min_le_left _ _).trans (h.y.trans (le_max_left _ _))⟩

theorem ordered_mappedBounds (r : Rectangle ℝ) (m : Matrix ℝ) : (r.mappedBounds m).Ordered :=
  (((ordered_ofCorners ..).cover _).cover _).cover _

theorem Ordered.ofCorners_eq {r : Rectangle ℝ} (h : r.Ordered) :
    ofCorners r.x1 r.y1 r.x2 r.y2 = r := by
  rw [ofCorners, Scalar.min_real, Scalar.min_real, Scalar.max_real, Scalar.max_real,
    min_eq_left h.x, min_eq_left h.y, max_eq_right h.x, max_eq_right h.y]

/-- A map of edges goes with a map of an axis: it takes the span of numbers to
that of their images. -/
structure Spans (f : ℝ → ℝ) (e : ℝ × ℝ → ℝ × ℝ) : Prop where
  corners (x y : ℝ) : e (min x y, max x y) = (min (f x) (f y), max (f x) (f y))
  cover (low high x : ℝ) :
    e (min low x, max high x) = (min (e (low, high)).1 (f x), max (e (low, high)).2 (f x))

theorem spans_of_monotone {f : ℝ → ℝ} (hf : Monotone f) : Spans f fun e => (f e.1, f e.2) where
  corners x y := by rw [hf.map_min, hf.map_max]
  cover low high x := by rw [hf.map_min, hf.map_max]

/-- A map that turns an axis around exchanges the edges. -/
theorem spans_of_antitone {f : ℝ → ℝ} (hf : Antitone f) : Spans f fun e => (f e.2, f e.1) where
  corners x y := by rw [hf.map_min, hf.map_max]
  cover low high x := by rw [hf.map_min, hf.map_max]

/-- The rectangle with other edges on each axis. -/
def mapEdges (e e' : ℝ × ℝ → ℝ × ℝ) (r : Rectangle ℝ) : Rectangle ℝ :=
  ⟨(e (r.x1, r.x2)).1, (e' (r.y1, r.y2)).1, (e (r.x1, r.x2)).2, (e' (r.y1, r.y2)).2⟩

section Spans

variable {f g : ℝ → ℝ} {e e' : ℝ × ℝ → ℝ × ℝ} (hf : Spans f e) (hg : Spans g e')

include hf hg

theorem mapEdges_cover (r : Rectangle ℝ) (p : ℝ × ℝ) :
    (r.mapEdges e e').cover (f p.1, g p.2) = (r.cover p).mapEdges e e' := by
  simp only [Rectangle.cover, mapEdges, Scalar.min_real, Scalar.max_real, hf.cover, hg.cover]

theorem mapEdges_ofCorners (x1 y1 x2 y2 : ℝ) :
    ofCorners (f x1) (g y1) (f x2) (g y2) = (ofCorners x1 y1 x2 y2).mapEdges e e' := by
  simp only [ofCorners, mapEdges, Scalar.min_real, Scalar.max_real, hf.corners, hg.corners]

/-- Maps of the axes take the bounds of a path along. -/
theorem bounds?_map (path : Path ℝ) :
    bounds? (path.map (Segment.map fun p => (f p.1, g p.2))) =
      (bounds? path).map (mapEdges e e') := by
  unfold bounds?
  rw [Path.points_map, List.foldl_map]
  show List.foldl _ (Option.map (mapEdges e e') none) _ = _
  refine List.foldl_hom (Option.map (mapEdges e e')) fun bounds p => ?_
  cases bounds with
  | none => exact congrArg some (mapEdges_ofCorners hf hg ..)
  | some r => exact congrArg some (mapEdges_cover hf hg r p)

end Spans

end Rectangle

namespace Overlay

open Rectangle

/-! ### The stretch -/

section Stretch

variable {outer : Rectangle ℝ}

/-- A number of one interval taken to its place in another. -/
noncomputable def stretched (low width low' width' x : ℝ) : ℝ := (x - low) * (width' / width) + low'

theorem stretched_low (low width low' width' : ℝ) : stretched low width low' width' low = low' := by
  rw [stretched, sub_self, zero_mul, zero_add]

theorem stretched_high {low high low' high' : ℝ} (h : high - low ≠ 0) :
    stretched low (high - low) low' (high' - low') high = high' := by
  rw [stretched, mul_div_cancel₀ _ h, sub_add_cancel]

/-- An interval is stretched to the span of the ends of the other, which may be in any order. -/
theorem exists_spans_stretched {low high : ℝ} (hle : low ≤ high) (h : high - low ≠ 0)
    (low' high' : ℝ) :
    ∃ e, Spans (stretched low (high - low) low' (high' - low')) e ∧
      e (low, high) = (min low' high', max low' high') := by
  have hwidth : 0 ≤ high - low := sub_nonneg.2 hle
  rcases le_total low' high' with hle' | hle'
  · have hmonotone : Monotone (stretched low (high - low) low' (high' - low')) := fun x y hxy =>
      add_le_add_left (mul_le_mul_of_nonneg_right (sub_le_sub_right hxy low)
        (div_nonneg (sub_nonneg.2 hle') hwidth)) low'
    refine ⟨_, spans_of_monotone hmonotone, ?_⟩
    rw [stretched_low, stretched_high h, min_eq_left hle', max_eq_right hle']
  · have hantitone : Antitone (stretched low (high - low) low' (high' - low')) := fun x y hxy =>
      add_le_add_left (mul_le_mul_of_nonpos_right (sub_le_sub_right hxy low)
        (div_nonpos_of_nonpos_of_nonneg (sub_nonpos.2 hle') hwidth)) low'
    refine ⟨_, spans_of_antitone hantitone, ?_⟩
    rw [stretched_low, stretched_high h, min_eq_right hle', max_eq_left hle']

theorem fit_apply (outer target : Rectangle ℝ) (p : ℝ × ℝ) :
    (fit outer target).apply p =
      (stretched outer.x1 outer.width target.x1 target.width p.1,
        stretched outer.y1 outer.height target.y1 target.height p.2) := by
  simp only [fit, Matrix.multiply, Matrix.shift, Matrix.scaling, Matrix.apply, stretched,
    Scalar.zero_real, Scalar.one_real, one_mul, zero_mul, mul_zero, mul_one, add_zero, zero_add]
  congr 1 <;> ring

/-- The bounds of a path are stretched to the target, whose corners may be in any order. -/
theorem bounds?_fit {path : Path ℝ} (hpath : bounds? path = some outer) (houter : outer.Ordered)
    (hwidth : outer.width ≠ 0) (hheight : outer.height ≠ 0) (target : Rectangle ℝ) :
    bounds? (Path.transform (fit outer target) path) =
      some (.ofCorners target.x1 target.y1 target.x2 target.y2) := by
  have hfit : (fit outer target).apply = fun p =>
      (stretched outer.x1 outer.width target.x1 target.width p.1,
        stretched outer.y1 outer.height target.y1 target.height p.2) :=
    funext (fit_apply outer target)
  obtain ⟨e, he, hedges⟩ := exists_spans_stretched houter.x hwidth target.x1 target.x2
  obtain ⟨e', he', hedges'⟩ := exists_spans_stretched houter.y hheight target.y1 target.y2
  rw [Path.transform, hfit]
  refine (bounds?_map he he' path).trans ?_
  simp only [hpath, Option.map_some, mapEdges, hedges, hedges', ofCorners, Scalar.min_real,
    Scalar.max_real]

end Stretch

end Overlay

/-! ### The page around -/

/-- Two contexts differ at most in what has been drawn and in the text that is still to be drawn. -/
structure Context.SameSettings {α : Type} (k l : Context α) : Prop where
  graphics : l.graphics = k.graphics
  saved : l.saved = k.saved
  path : l.path = k.path
  pendingClip : l.pendingClip = k.pendingClip
  resources : l.resources = k.resources
  inText : l.inText = k.inText
  textStyle : l.textStyle = k.textStyle
  colorLocked : l.colorLocked = k.colorLocked
  markedDepth : l.markedDepth = k.markedDepth

namespace Context.SameSettings

variable {α : Type} {k l : Context α}

theorem of_eq (h : l = k) : k.SameSettings l := by
  rw [h]
  exact ⟨rfl, rfl, rfl, rfl, rfl, rfl, rfl, rfl, rfl⟩

theorem of_redraws {c d : Canvas α} (h : c.Redraws d) : c.context.SameSettings d.context := by
  rw [Canvas.Redraws] at h
  rw [h]
  exact ⟨rfl, rfl, rfl, rfl, rfl, rfl, rfl, rfl, rfl⟩

theorem trans {m : Context α} (h : k.SameSettings l) (h' : l.SameSettings m) :
    k.SameSettings m where
  graphics := h'.graphics.trans h.graphics
  saved := h'.saved.trans h.saved
  path := h'.path.trans h.path
  pendingClip := h'.pendingClip.trans h.pendingClip
  resources := h'.resources.trans h.resources
  inText := h'.inText.trans h.inText
  textStyle := h'.textStyle.trans h.textStyle
  colorLocked := h'.colorLocked.trans h.colorLocked
  markedDepth := h'.markedDepth.trans h.markedDepth

end Context.SameSettings

namespace Overlay

open Draw

section Run

variable {α : Type} [Scalar α] {a : Overlay α} {box : Rectangle α} {m : Matrix α}

/-- The canvas on which the content of an appearance is drawn, and the region that it is cut to. -/
def cut (s : Setting α) (box : Rectangle α) (m : Matrix α) (c : Canvas α) :
    Option Nat × Canvas α :=
  (c.flushText s.options).formRegion s.viewport (c.flushText s.options).graphics.clip (some box) m

theorem redraws_cut (s : Setting α) (box : Rectangle α) (m : Matrix α) (c : Canvas α) :
    c.Redraws (cut s box m c).2 :=
  (Canvas.redraws_flushText s.options c).trans (Canvas.redraws_formRegion ..)

/-- The graphics state in which the content of an appearance begins. -/
def state (s : Setting α) (box : Rectangle α) (m : Matrix α) (c : Canvas α) : GraphicsState α :=
  { GraphicsState.initial m with clip := (cut s box m c).1 }

/-- The content of an appearance drawn in a graphics state, with its elements put on the canvas. -/
def run (a : Overlay α) (state : GraphicsState α) (resources : SetId) (env : Environment α) :
    Draw α Unit := do
  let nodes? ← orSkip (env.nested state resources a.appearance.content false)
  modify (·.pushAll (nodes?.getD []))

/-- An appearance that is placed is drawn there, and nothing else is done. -/
theorem draw_eq_run {s : Setting α} (hshown : a.hidden = false)
    (hbox : a.appearance.bbox = some box) (hplaced : a.placement? s.base box = some m)
    (nested : GraphicsState α → SetId → ContentStream α → Bool → Draw α (List Node))
    (c : Canvas α) :
    a.draw ⟨s, nested⟩ c =
      a.run (state s box m c) (a.appearance.resources.getD c.context.resources) ⟨s, nested⟩
        (cut s box m c).2 := by
  have hresources : (cut s box m c).2.context.resources = c.context.resources := by
    rw [redraws_cut s box m c]
  rw [← hresources]
  unfold draw
  rw [hshown, hbox]
  dsimp only
  rw [hplaced]
  rfl

omit [Scalar α] in
open Context.SameSettings in
/-- Whatever becomes of the content, the page keeps its settings. -/
theorem sameSettings_run (a : Overlay α) (state : GraphicsState α) (resources : SetId)
    {env : Environment α} (h : env.Isolates) (c : Canvas α) :
    Ends (a.run state resources env) c (fun _ d => c.context.SameSettings d.context)
      fun fault d => fault.Stops ∧ c.context.SameSettings d.context := by
  unfold run
  rw [ends_bind]
  refine ends_orSkip _ ((h state resources a.appearance.content false c).mono ?_ ?_)
  · intro nodes d hd
    exact (of_eq hd.context).trans (of_redraws (Canvas.redraws_pushAll nodes d))
  · intro fault d hd
    exact ⟨fun _ _ => of_eq hd.2.context, hd.1, of_eq hd.2.context⟩

end Run

/-- A box with extent under the matrix of its form is placed by three maps. -/
theorem placement?_eq {a : Overlay ℝ} {box outer : Rectangle ℝ} (base : Matrix ℝ)
    (houter : Rectangle.bounds? (Path.transform a.appearance.matrix box.toPath) = some outer)
    (hwidth : outer.width ≠ 0) (hheight : outer.height ≠ 0) :
    a.placement? base box =
      some ((a.appearance.matrix.multiply (fit outer a.rectangle)).multiply base) := by
  unfold placement?
  rw [houter]
  refine if_neg ?_
  simpa [Scalar.zero_real] using ⟨hwidth, hheight⟩

/-- **The appearance of an annotation fills its rectangle.** The box under the matrix of the
appearance, whose bounds have an extent, is stretched so that its bounds are the rectangle, whose
edges are put in order if they are not. Whatever draws nested content is given the content of the
appearance once, under the product of the matrix, the stretch and the base of the page, so that the
box comes to lie where the rectangle does on the page, and nothing else is drawn. Afterwards, also
after a fault, the graphics state, the saved states, the path and the resources of the page are as
before. -/
theorem draw_fills_rectangle (s : Setting ℝ) (a : Overlay ℝ) {box outer : Rectangle ℝ}
    (hshown : a.hidden = false) (hbox : a.appearance.bbox = some box)
    (houter : Rectangle.bounds? (Path.transform a.appearance.matrix box.toPath) = some outer)
    (hwidth : outer.width ≠ 0) (hheight : outer.height ≠ 0) (c : Canvas ℝ) :
    Rectangle.bounds? (Path.transform (fit outer a.rectangle)
        (Path.transform a.appearance.matrix box.toPath)) =
          some (.ofCorners a.rectangle.x1 a.rectangle.y1 a.rectangle.x2 a.rectangle.y2) ∧
      (a.rectangle.Ordered → Rectangle.bounds? (Path.transform (fit outer a.rectangle)
        (Path.transform a.appearance.matrix box.toPath)) = some a.rectangle) ∧
      (∃ (state : GraphicsState ℝ) (d : Canvas ℝ),
        state.ctm = (a.appearance.matrix.multiply (fit outer a.rectangle)).multiply s.base ∧
        Path.transform state.ctm box.toPath = Path.transform s.base (Path.transform
          (fit outer a.rectangle) (Path.transform a.appearance.matrix box.toPath)) ∧
        c.Redraws d ∧
        ∀ nested, a.draw ⟨s, nested⟩ c =
          a.run state (a.appearance.resources.getD c.context.resources) ⟨s, nested⟩ d) ∧
      Ends (a.draw s.environment) c (fun _ d => c.context.SameSettings d.context)
        fun fault d => fault.Stops ∧ c.context.SameSettings d.context := by
  have hplaced := placement?_eq s.base houter hwidth hheight
  have hordered : outer.Ordered := by
    rw [Rectangle.bounds?_transform_toPath] at houter
    obtain rfl := Option.some.inj houter
    exact Rectangle.ordered_mappedBounds box a.appearance.matrix
  have hrun nested := draw_eq_run hshown hbox hplaced nested c
  have hcut := Context.SameSettings.of_redraws (redraws_cut s box
    ((a.appearance.matrix.multiply (fit outer a.rectangle)).multiply s.base) c)
  have hmapped := (Path.transform_multiply (a.appearance.matrix.multiply (fit outer a.rectangle))
    s.base box.toPath).trans (congrArg _ (Path.transform_multiply ..))
  have hbounds := bounds?_fit houter hordered hwidth hheight a.rectangle
  refine ⟨hbounds, fun h => hbounds.trans (congrArg some h.ofCorners_eq),
    ⟨state s box _ c, (cut s box _ c).2, rfl, hmapped, redraws_cut s box _ c, hrun⟩, ?_⟩
  refine (ends_congr (hrun s.environment.nested)).2 ?_
  exact (sameSettings_run a _ _ (s.nested_isolates s.options.maxNestingDepth) _).mono
    (fun _ _ hd => hcut.trans hd) fun _ _ hd => ⟨hd.1, hcut.trans hd.2⟩

/-- A square box, turned over and set on its corner, in a rectangle that is not square. -/
theorem draw_fills_rectangle_on_corner :
    let a : Overlay ℝ :=
      { rectangle := ⟨50, 20, 80, 80⟩
        appearance := ⟨"AP", [], ⟨1, 1, 1, -1, 0, 0⟩, some ⟨0, 0, 10, 10⟩, none, none⟩
        hidden := false }
    let s : Setting ℝ := ⟨.standard, #[], ⟨1, 0, 0, -1, 0, 100⟩, ⟨0, 0, 200, 100⟩⟩
    let box : Rectangle ℝ := ⟨0, 0, 10, 10⟩
    let outer : Rectangle ℝ := ⟨0, -10, 20, 10⟩
    Rectangle.bounds? (Path.transform a.appearance.matrix box.toPath) = some outer ∧
      Rectangle.bounds? (Path.transform (fit outer a.rectangle)
        (Path.transform a.appearance.matrix box.toPath)) = some a.rectangle ∧
      Ends (a.draw s.environment) (.blank s 0)
        (fun _ d => (Canvas.blank s 0).context.SameSettings d.context)
        fun fault d => fault.Stops ∧ (Canvas.blank s 0).context.SameSettings d.context := by
  intro a s box outer
  have houter : Rectangle.bounds? (Path.transform a.appearance.matrix box.toPath) = some outer := by
    rw [Rectangle.bounds?_transform_toPath]
    simp only [Rectangle.mappedBounds, Rectangle.cover, Rectangle.ofCorners, Rectangle.width,
      Rectangle.height, Matrix.apply, Scalar.min_real, Scalar.max_real, box, a, outer]
    norm_num
  have hwidth : outer.width ≠ 0 := by norm_num [outer, Rectangle.width]
  have hheight : outer.height ≠ 0 := by norm_num [outer, Rectangle.height]
  have htarget : a.rectangle.Ordered := by constructor <;> norm_num [a]
  obtain ⟨-, hbounds, -, hkept⟩ :=
    draw_fills_rectangle s a rfl rfl houter hwidth hheight (.blank s 0)
  exact ⟨houter, hbounds htarget, hkept⟩

end Overlay

end PageSvg
