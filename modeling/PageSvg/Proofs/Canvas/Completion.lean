import PageSvg.Proofs.Canvas.Reachability
import PageSvg.Proofs.Canvas.Sparing
import PageSvg.Proofs.Number.Rational

/-!
# Pages are drawn to their end

Nothing but a request to stop ends drawing: content that is nested too deep is left out by whatever
wanted to draw it, and so are names without a resource and maps that cannot be inverted. So without
a request every page is converted, also where its resources contain themselves or each other. On the
way the depth is the number of contexts around and stays within the limit, and no form is drawn
inside itself.
-/

namespace PageSvg

open Draw

variable {α : Type} [Scalar α]

/-! ### The invariant -/

/-- With the contexts `outer` around and `level` levels of nesting left, there is no request to
stop, the depth counts both, and the forms that are being drawn differ. -/
structure Canvas.Bounded (s : Setting α) (level : Nat) (outer : List (Context α))
    (c : Canvas α) : Prop where
  running : c.cancellation.onset = none
  depth : c.depth = outer.length
  levels : c.depth + level = s.options.maxNestingDepth
  forms : c.activeForms.Nodup

namespace Canvas.Bounded

variable {s : Setting α} {level : Nat} {outer : List (Context α)} {c d : Canvas α}

omit [Scalar α] in
theorem of_eq (h : c.Bounded s level outer) (honset : d.cancellation.onset = c.cancellation.onset)
    (hdepth : d.depth = c.depth) (hforms : c.activeForms.Nodup → d.activeForms.Nodup) :
    d.Bounded s level outer :=
  ⟨honset.trans h.running, hdepth.trans h.depth, hdepth ▸ h.levels, hforms h.forms⟩

omit [Scalar α] in
theorem framed (h : c.Bounded s level outer) (hframe : c.Frame d)
    (hwatch : d.cancellation = c.cancellation) : d.Bounded s level outer :=
  h.of_eq (congrArg (·.onset) hwatch) hframe.depth fun hforms => hframe.activeForms ▸ hforms

end Canvas.Bounded

/-- Each step keeps nesting within its bounds. -/
theorem kept_bounded (s : Setting α) (deep : Prop) (level : Nat) (outer : List (Context α)) :
    Kept s deep (Canvas.Bounded s level outer) fun _ _ => True where
  look h := h.of_eq rfl rfl id
  adjust {c n} a _ h := h.framed (a.adjusts ⟨s, n⟩ c).frame (a.cancellation_apply ⟨s, n⟩ c)
  save h := h.of_eq rfl rfl id
  restore {c} h := h.framed c.frame_restore c.cancellation_restore
  setSoftMask _ h := h.of_eq rfl rfl id
  layout _ h := h.of_eq rfl rfl id
  outlines _ h := h.of_eq rfl rfl id
  style hn _ scale h := by
    refine matches_currentStyle hn ⟨rfl, h⟩ rfl ?_ scale
    rintro _ c textStyle ⟨rfl, h⟩
    exact ⟨rfl, h.of_eq rfl rfl id⟩
  push _ h := h.of_eq rfl rfl id
  append {c} node bounds h := h.framed (c.frame_append s.options node bounds)
    (Canvas.redraws_append s.options node bounds c).spares.cancellation
  classes _ _ h := h.of_eq rfl rfl id
  insert _ _ _ h := h.of_eq rfl rfl id
  insertCell _ _ _ _ h := h.of_eq rfl rfl id
  clipTo _ _ h := h.of_eq rfl rfl id
  clipToText _ h := h.of_eq rfl rfl id
  formRegion {c} parent box placement _ h :=
    h.framed (c.frame_formRegion s.viewport parent box placement)
      (Canvas.redraws_formRegion s.viewport parent box placement c).spares.cancellation
  activeForms _ hforms h := h.of_eq rfl rfl hforms
  startCell _ _ _ _ := trivial
  startGlyph _ _ := trivial
  startForm _ _ _ := trivial
  startPage _ _ _ _ _ := trivial

/-- Nested content begins with one level less, one level deeper, and ends on the forms that it began
with. -/
theorem invariant_bounded (s : Setting α) :
    Invariant s (fun level outer => Canvas.Bounded s level outer) fun _ _ => True where
  kept level outer := kept_bounded s (level ≠ 0) level outer
  enter _ _ _ h _ := by
    refine ⟨h.running, congrArg (· + 1) h.depth, ?_, h.forms⟩
    have hlevels := h.levels
    show _ + 1 + _ = _
    omega
  leave h _ hd := ⟨hd.running, h.depth, h.levels, hd.forms⟩

/-! ### Pages -/

section Pages

variable (v : Converter α) (p : Page α) (hrunning : v.cancellation.onset = none)

include hrunning

theorem Converter.bounded_canvas :
    (v.canvas p).Bounded (p.setting v.options v.library) v.options.maxNestingDepth [] :=
  ⟨hrunning, rfl, Nat.zero_add _, .nil⟩

theorem Converter.executeAll_completes (content : ContentStream α) :
    ∃ c, executeAll (p.setting v.options v.library).environment content (v.canvas p) = .ok () c ∧
      c.depth = 0 ∧ c.activeForms = [] := by
  have hsimulation : Simulation (p.setting v.options v.library) (Manner.watching fun _ => pure ())
    _ _ := (invariant_bounded _).simulation fun _ _ _ _ => rfl
  obtain ⟨_, c, hc, _⟩ := (matches_executeAll (hsimulation.steps _ [])
    (hsimulation.nested v.options.maxNestingDepth []) (Setting.nested_isolates _ _)
    ⟨rfl, v.bounded_canvas p hrunning⟩ content).completes fun _ h => h.running
  have hframe := (framed_executeAll
    ((p.setting v.options v.library).nested_isolates v.options.maxNestingDepth) content).ends
    (v.canvas p)
  rw [ends_of_ok hc] at hframe
  exact ⟨c, hc, hframe.depth, hframe.activeForms⟩

theorem Converter.draw_completes :
    ∃ c, p.draw (p.setting v.options v.library) (v.canvas p) = .ok () c := by
  have hsimulation : Simulation (p.setting v.options v.library) (Manner.watching fun _ => pure ())
    _ _ := (invariant_bounded _).simulation fun _ _ _ _ => rfl
  obtain ⟨_, c, hc, _⟩ :=
    (hsimulation.drawPage p ⟨rfl, v.bounded_canvas p hrunning⟩).completes fun _ h => h.running
  exact ⟨c, hc⟩

/-- **Without a request to stop, every page is converted.** In each state that it passes through,
with some contexts around, the depth is their number and within the limit, and the forms that are
being drawn differ, since drawing one of them again does nothing; after each operation of the page
itself the depth is zero and no form is being drawn. -/
theorem Converter.convert_completes :
    (∃ document, (v.convert p).1 = .ok document) ∧
      (∀ outer c, v.Reaches p outer c →
        c.depth = outer.length ∧ c.depth ≤ v.options.maxNestingDepth ∧ c.activeForms.Nodup ∧
          ∀ (env : Environment α) (f : Form α), f.id ∈ c.activeForms → f.draw env c = .ok ⟨⟩ c) ∧
      ∀ before, before <+: p.content →
        ∃ c, executeAll (p.setting v.options v.library).environment before (v.canvas p) =
          .ok () c ∧ c.depth = 0 ∧ c.activeForms = [] := by
  refine ⟨?_, fun outer c hc => ?_, fun before _ => v.executeAll_completes p hrunning before⟩
  · obtain ⟨c, hc⟩ := v.draw_completes p hrunning
    refine ⟨c.finish (p.setting v.options v.library), ?_⟩
    unfold convert
    dsimp only
    rw [hc]
  · obtain ⟨level, hbounded⟩ := (invariant_bounded _).of_reaches (v.bounded_canvas p hrunning) hc
    have hlevels : c.depth + level = v.options.maxNestingDepth := hbounded.levels
    refine ⟨hbounded.depth, by omega, hbounded.forms, fun env f hf => ?_⟩
    have hactive : c.activeForms.contains f.id = true := List.contains_iff_mem.2 hf
    show (if c.activeForms.contains f.id then _ else _ : Draw α PUnit) c = _
    rw [if_pos hactive]
    rfl

end Pages

section Example

attribute [local instance] Scalar.rational

/-- A page whose only operation draws a form, which is all that the form itself does. -/
theorem convert_completes_form_in_itself :
    ∃ (v : Converter ℚ) (p : Page ℚ), v.cancellation.onset = none ∧
      p.content = [⟨"Do", [.name "F"]⟩] ∧
      (∃ f : Form ℚ, (v.library.set 0).xobjects.get? "F" = some (.form f) ∧
        f.content = [⟨"Do", [.name "F"]⟩]) ∧
      ∃ document, (v.convert p).1 = .ok document := by
  let f : Form ℚ := ⟨"F", [⟨"Do", [.name "F"]⟩], .identity, none, none, none⟩
  let v : Converter ℚ :=
    { options := .standard, library := #[{ xobjects := [("F", .form f)] }] }
  let p : Page ℚ := ⟨⟨0, 0, 10, 10⟩, 0, [⟨"Do", [.name "F"]⟩], 0, []⟩
  exact ⟨v, p, rfl, rfl, ⟨f, rfl, rfl⟩, (v.convert_completes p rfl).1⟩

end Example

end PageSvg
