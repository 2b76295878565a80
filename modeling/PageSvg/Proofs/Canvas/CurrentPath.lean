import PageSvg.Proofs.Canvas.Flushing
import PageSvg.Proofs.Canvas.Locality
import PageSvg.Proofs.Canvas.Reachability
import PageSvg.Proofs.Canvas.StrokeWidth
import PageSvg.Proofs.Clip
import PageSvg.Proofs.Geometry.Pens
import PageSvg.Proofs.Number.Rational

/-!
# The current path

In every state that a page passes through the path under construction begins with a move, on each
level of nesting, and so do the paths by which regions have been cut. What is painted and what is
clipped to comes from such a path or from the outline of a rectangle, and is written by a pen that
goes along with the current point.
-/

namespace PageSvg

open Draw PathData

variable {α : Type} [Scalar α]

/-! ### Paths that are written -/

theorem Path.Anchored.transform {path : Path α} (h : path.Anchored) (m : Matrix α) :
    (Path.transform m path).Anchored := h.map m.apply

omit [Scalar α] in
theorem PaintMode.anchored_closed {path : Path α} (mode : PaintMode) (h : path.Anchored) :
    (mode.closed path).Anchored := by
  unfold closed
  split
  · exact h.close
  · exact h

theorem Rectangle.anchored_toPath (r : Rectangle α) : Path.Anchored r.toPath :=
  Path.anchored_rectangle _ _ _ _

theorem anchored_shadingArea (viewport : Rectangle α) (c : Canvas α) (shading : Shading α) :
    (shadingArea viewport c shading).Anchored := by
  unfold shadingArea
  split
  · next box _ => exact box.anchored_toPath.transform _
  · exact Rectangle.anchored_toPath _

/-- What is left of a path is the path itself, or the outline of a rectangle. -/
theorem anchored_cutToClip {o : Options α} {clip : Option (Rectangle α)} {device shape : Path α}
    {bounds visible : Rectangle α} (h : device.Anchored)
    (hcut : cutToClip o clip device bounds = some (shape, visible)) : shape.Anchored := by
  unfold cutToClip at hcut
  split at hcut
  · obtain ⟨common, -, he⟩ := Option.map_eq_some_iff.1 hcut
    obtain ⟨rfl, rfl⟩ := Prod.mk.inj he
    exact common.anchored_toPath
  · obtain ⟨rfl, rfl⟩ := Prod.mk.inj (Option.some.inj hcut)
    exact h

/-! ### Elements of paths -/

/-- If the element has path data, it is that of the path. -/
def Node.Shows (o : Options α) (path : Path α) (node : Node) : Prop :=
  ∀ data ∈ node.get? "d", data = PathData.text o.precision path

namespace Node.Shows

variable {o : Options α} {path : Path α} {node : Node} (h : node.Shows o path)

include h

theorem set {name : String} (hname : "d" ≠ name) (value : String) :
    (node.set name value).Shows o path := by
  intro data hdata
  rw [get?_set_of_ne hname] at hdata
  exact h data hdata

theorem setIf {name : String} (hname : "d" ≠ name) (condition : Bool) (value : String) :
    (node.setIf condition name value).Shows o path := by
  intro data hdata
  rw [get?_setIf_of_ne hname] at hdata
  exact h data hdata

theorem withFill (g : GraphicsState α) (evenOdd : Bool) (paint : String) :
    (g.withFill o evenOdd paint node).Shows o path :=
  ((h.setIf (by decide) _ _).setIf (by decide) _ _).setIf (by decide) _ _

theorem withJoin (g : GraphicsState α) : (g.withJoin o node).Shows o path := by
  unfold GraphicsState.withJoin
  split
  · exact h.setIf (by decide) _ _
  · exact h.set (by decide) _

theorem withDash (g : GraphicsState α) (scale : α) : (g.withDash o scale node).Shows o path := by
  unfold GraphicsState.withDash
  split
  · exact h
  · exact (h.set (by decide) _).setIf (by decide) _ _

theorem withStroke (g : GraphicsState α) (userSpace : Bool) (paint : String) :
    (g.withStroke o userSpace paint node).Shows o path := by
  refine withDash (withJoin ?_ g) g _
  exact (((h.set (by decide) paint).setIf (by decide) _ _).setIf (by decide) _ _).setIf
    (by decide) _ _

end Node.Shows

theorem shows_shapeNode (o : Options α) (device : Path α) (stroked : Bool) :
    (shapeNode o device stroked).Shows o device := by
  unfold shapeNode
  split
  · rintro data ⟨⟩
  · rintro data ⟨⟩
    rfl

/-- A stroked path is shown in user space or in device space. -/
theorem exists_shows_outlineNode (o : Options α) (g : GraphicsState α) {path : Path α}
    (hpath : path.Anchored) :
    ∃ shown : Path α, shown.Anchored ∧ (g.outlineNode o path).Shows o shown := by
  unfold GraphicsState.outlineNode
  split
  · refine ⟨path, hpath, ?_⟩
    rintro data ⟨⟩
    rfl
  · exact ⟨_, hpath.transform g.ctm, shows_shapeNode o _ true⟩

theorem Node.Shows.fills {o : Options α} {g : GraphicsState α} {mode : PaintMode} {path : Path α}
    {node filled : Node} (h : node.Shows o path) (hfills : g.Fills o mode node filled) :
    filled.Shows o path := by
  obtain rfl | ⟨paint, rfl⟩ := hfills
  · exact h.set (by decide) _
  · exact h.withFill g mode.evenOdd paint

/-- Drawing a path puts one element on the canvas at most, and it shows the path, its image or
what is left of that. -/
theorem exists_drawPath {env : Environment α} (h : env.Isolates) {path : Path α}
    (hpath : path.Anchored) {mode : PaintMode} (hmarks : (mode.strokes || mode.fills) = true)
    (c : Canvas α) :
    drawPath env path mode c = .ok () c ∨
      ∃ shown node bounds d, shown.Anchored ∧ node.Shows env.options shown ∧ c.Isolated d ∧
        drawPath env path mode c = .ok () (d.append env.options node bounds) := by
  cases hbounds : Rectangle.bounds? (Path.transform c.graphics.ctm path) with
  | none => exact .inl (drawPath_of_no_bounds hbounds)
  | some bounds =>
    cases hstrokes : mode.strokes with
    | true =>
      obtain ⟨shown, hanchored, hshows⟩ := exists_shows_outlineNode env.options c.graphics hpath
      obtain ⟨paint, node, d, hnode, hd, hdraw⟩ := exists_drawPath_stroke h hstrokes hbounds
      exact .inr ⟨shown, _, _, d, hanchored, (hshows.fills hnode).withStroke c.graphics _ paint, hd,
        hdraw⟩
    | false =>
      have hfills : mode.fills = true := by simpa [hstrokes] using hmarks
      obtain ⟨paint, d, hpaint, hd⟩ :=
        ((quiet_paintValue h c.graphics.fill none).ends c).exists_ok
      have hdraw := drawPath_of_fill hfills hstrokes hbounds hpaint
      split at hdraw
      · exact .inl hdraw
      · next shape visible hcut =>
        have hshape := anchored_cutToClip (hpath.transform c.graphics.ctm) hcut
        have hshows := shows_shapeNode env.options shape false
        exact .inr ⟨shape, _, _, d, hshape, hshows.withFill c.graphics mode.evenOdd paint, hd, hdraw⟩

/-! ### Regions -/

/-- The paths by which regions have been cut begin with a move. -/
def ClipForest.Anchored (f : ClipForest α) : Prop :=
  ∀ (i : ℕ) (r : ClipRegion α) (path : Path α),
    f.regions[i]? = some r → r.shape = .path path → path.Anchored

namespace ClipForest.Anchored

variable {f : ClipForest α} (h : f.Anchored) (parent : Option ℕ)

include h

theorem insert {shape : ClipShape α} (hshape : ∀ path, shape = .path path → path.Anchored)
    (evenOdd : Bool) : (f.insert parent shape evenOdd).2.Anchored := by
  rcases f.insert_cases parent shape evenOdd with
    ⟨_, _, -, -, -, hsame⟩ | ⟨-, hadded⟩
  · rw [hsame]
    exact h
  · rw [hadded]
    intro i r path hr hpath
    rcases getElem?_added hr with hold | ⟨-, rfl⟩
    · exact h i r path hold hpath
    · exact hshape path hpath

theorem insertPath {device : Path α} (hdevice : device.Anchored) (evenOdd : Bool) :
    (f.insertPath parent device evenOdd).2.Anchored := by
  unfold ClipForest.insertPath
  split
  · -- Of a rectangle no path is left.
    unfold insertRectangle
    split
    · exact h.insert _ (by rintro _ ⟨⟩) false
    · exact h.insert _ (by rintro _ ⟨⟩) false
  · refine h.insert parent ?_ evenOdd
    rintro _ ⟨⟩
    exact hdevice

theorem insertText (nodes : List Node) : (f.insertText parent nodes).2.Anchored :=
  h.insert parent (by rintro _ ⟨⟩) false

theorem mark (i : ℕ) : (f.mark i).Anchored := by
  intro j s path hs hpath
  obtain ⟨r, hr, hrs⟩ := (f.grows_mark i).back (f.mark_size i) hs
  exact h j r path hr (hrs.shape ▸ hpath)

end ClipForest.Anchored

/-! ### Reached states -/

/-- The paths under construction on all levels begin with a move, and those of regions do. -/
structure Canvas.Anchored (outer : List (Context α)) (c : Canvas α) : Prop where
  path : c.context.path.Anchored
  outer : ∀ k ∈ outer, k.path.Anchored
  clips : c.clips.Anchored

namespace Canvas.Anchored

variable {outer : List (Context α)} {c d : Canvas α} (h : c.Anchored outer)

include h

omit [Scalar α] in
theorem of_eq (hpath : d.context.path = c.context.path) (hclips : d.clips = c.clips) :
    d.Anchored outer := ⟨hpath ▸ h.path, h.outer, hclips ▸ h.clips⟩

theorem adjust {s : Setting α} (n : Nesting α) {a : Adjustment α} (ha : a.Known s) :
    (a.apply ⟨s, n⟩ c).Anchored outer := by
  refine ⟨?_, h.outer, (a.adjusts ⟨s, n⟩ c).clips ▸ h.clips⟩
  cases hsets : a.setsPath with
  | true =>
    cases a with
    | path f => exact ha _ h.path
    | takePath => exact Path.anchored_nil
    | _ => cases hsets
  | false =>
    rw [Adjustment.path_apply hsets]
    exact h.path

theorem restore : c.restore.Anchored outer := by
  unfold Canvas.restore
  split
  · exact h
  · dsimp only
    split
    · exact h.of_eq rfl rfl
    · exact h.of_eq rfl rfl

theorem append (o : Options α) (node : Node) (bounds : Option (Rectangle α)) :
    (c.append o node bounds).Anchored outer := by
  rw [append_eq]
  rcases c.call_cases o node bounds with ⟨hcall, -⟩ | ⟨region, -, -, hcall⟩
  · rw [hcall]
    exact h.of_eq rfl rfl
  · rw [hcall]
    exact ⟨h.path, h.outer, h.clips.mark region⟩

theorem formRegion (viewport : Rectangle α) (parent : Option ℕ) (box : Option (Rectangle α))
    (m : Matrix α) : (c.formRegion viewport parent box m).2.Anchored outer := by
  unfold Canvas.formRegion clipToBox
  split
  · exact h
  · next box =>
    dsimp only
    split
    · exact h
    · exact ⟨h.path, h.outer, h.clips.insertPath parent (box.anchored_toPath.transform m) false⟩

end Canvas.Anchored

/-- Each step goes on with a path that begins with a move, and cuts regions by such paths. -/
theorem kept_anchored (s : Setting α) (deep : Prop) (outer : List (Context α)) :
    Kept s deep (Canvas.Anchored outer) fun _ _ => True where
  look h := h.of_eq rfl rfl
  adjust a ha h := h.adjust _ ha
  save h := h.of_eq rfl rfl
  restore h := h.restore
  setSoftMask _ h := h.of_eq rfl rfl
  layout _ h := h.of_eq rfl rfl
  outlines _ h := h.of_eq rfl rfl
  style hn _ scale h := by
    refine matches_currentStyle hn ⟨rfl, h⟩ rfl ?_ scale
    rintro _ c textStyle ⟨rfl, h⟩
    exact ⟨rfl, h.of_eq rfl rfl⟩
  push _ h := h.of_eq rfl rfl
  append node bounds h := h.append s.options node bounds
  classes _ _ h := h.of_eq rfl rfl
  insert _ _ _ h := h.of_eq rfl rfl
  insertCell _ _ _ _ h := h.of_eq rfl rfl
  clipTo evenOdd hb h :=
    ⟨h.path, h.outer, h.clips.insertPath _ (hb.path.transform _) evenOdd⟩
  clipToText nodes h := ⟨h.path, h.outer, h.clips.insertText _ nodes⟩
  formRegion parent box placement _ h := h.formRegion s.viewport parent box placement
  activeForms _ _ h := h.of_eq rfl rfl
  startCell _ _ _ _ := trivial
  startGlyph _ _ := trivial
  startForm _ _ _ := trivial
  startPage _ _ _ _ _ := trivial

/-- Nested content begins without a path, and hands the path around it back. -/
theorem invariant_anchored (s : Setting α) :
    Invariant s (fun _ outer => Canvas.Anchored outer) fun _ _ => True where
  kept level outer := kept_anchored s (level ≠ 0) outer
  enter _ _ _ h _ :=
    ⟨Path.anchored_nil, List.forall_mem_cons.2 ⟨h.path, h.outer⟩, h.clips⟩
  leave h _ hd := ⟨h.path, h.outer, hd.clips⟩

theorem Converter.anchored_of_reaches {v : Converter α} {p : Page α} {outer : List (Context α)}
    {c : Canvas α} (h : v.Reaches p outer c) : c.Anchored outer := by
  have hstart : (v.canvas p).Anchored [] :=
    ⟨Path.anchored_nil, fun _ hk => absurd hk List.not_mem_nil, by rintro i r path ⟨⟩⟩
  obtain ⟨_, hc⟩ := (invariant_anchored _).of_reaches hstart h
  exact hc

/-- **The pens agree.** In every state that a page passes through, the path under construction and
those of the content around begin with a move, so there is a current point where there is a segment.
The path that a painting operator paints and clips to is followed by its writer under every matrix;
so is what the element shows that it draws, the area of a shading, the box of a form under every
matrix, and each path by which a region has been cut. -/
theorem pens_agree {v : Converter α} {p : Page α} {outer : List (Context α)} {c : Canvas α}
    (h : v.Reaches p outer c) :
    (∀ k ∈ c.context :: outer,
      k.path.Anchored ∧ (Path.currentPoint? k.path = none ↔ k.path = [])) ∧
    (∀ mode : PaintMode, let path := mode.closed c.context.path
      (∀ m, Follows (Path.transform m path)) ∧
      ∀ (s : Setting α) (level : ℕ) (d : Canvas α), mode.marks c.context.path = true →
        let env : Environment α := { toSetting := s, nested := s.nested level }
        drawPath env path mode d = .ok () d ∨
          ∃ shown node bounds e, Follows shown ∧ node.Shows s.options shown ∧ d.Isolated e ∧
            drawPath env path mode d = .ok () (e.append s.options node bounds)) ∧
    (∀ viewport shading, Follows (shadingArea viewport c shading)) ∧
    (∀ (box : Rectangle α) m, Follows (Path.transform m box.toPath)) ∧
    ∀ region ∈ c.clips.regions, ∀ path, region.shape = .path path → Follows path := by
  have hc := Converter.anchored_of_reaches h
  refine ⟨?_, fun mode => ⟨fun m => ?_, fun s level d hmarks => ?_⟩, fun viewport shading => ?_,
    fun box m => ?_, fun region hregion path hshape => ?_⟩
  · intro k hk
    have hpath : k.path.Anchored := by
      rcases List.mem_cons.1 hk with rfl | hk
      · exact hc.path
      · exact hc.outer k hk
    exact ⟨hpath, hpath.currentPoint?_eq_none_iff⟩
  · exact follows_of_anchored ((mode.anchored_closed hc.path).transform m)
  · have hpaints : (mode.strokes || mode.fills) = true := (Bool.and_eq_true_iff.1 hmarks).1
    rcases exists_drawPath (s.nested_isolates level) (mode.anchored_closed hc.path) hpaints d with
      hnothing | ⟨shown, node, bounds, e, hshown, hshows, he, hdraw⟩
    · exact .inl hnothing
    · exact .inr ⟨shown, node, bounds, e, follows_of_anchored hshown, hshows, he, hdraw⟩
  · exact follows_of_anchored (anchored_shadingArea viewport c shading)
  · exact follows_of_anchored (box.anchored_toPath.transform m)
  · obtain ⟨i, hi⟩ := Array.mem_iff_getElem?.1 hregion
    exact follows_of_anchored (hc.clips i region path hi hshape)

section Example

attribute [local instance] Scalar.rational

/-- A page that adds a rectangle to the path. -/
def cornerPage : Page ℚ :=
  ⟨⟨0, 0, 10, 10⟩, 0, [⟨"re", [.integer 1, .integer 2, .integer 3, .integer 4]⟩], 0, []⟩

/-- After a rectangle the writer of the path in device space is back at its first corner. -/
theorem pens_agree_rectangle :
    let v : Converter ℚ := { options := .standard, library := #[] }
    let c := (v.canvas cornerPage).looked.addRectangle 1 2 3 4
    let device := Path.transform (.shift 5 5) c.context.path
    v.Reaches cornerPage [] c ∧
      (penAfter none (inUnits 3 device)).map (·.current) = some (6000, 7000) := by
  intro v c device
  have hreaches : v.Reaches cornerPage [] c := v.reaches_executed rfl fun _ => rfl
  obtain ⟨-, hpaints, -⟩ := pens_agree hreaches
  have hfollows : Follows device := (hpaints ⟨false, false, true, false⟩).1 _
  have hpen := (hfollows 3 device [] (List.append_nil _)).2
  refine ⟨hreaches, hpen.trans ?_⟩
  decide +kernel

end Example

end PageSvg
