import PageSvg.Proofs.Canvas.Locality
import PageSvg.Proofs.Canvas.Quiet
import PageSvg.Proofs.Canvas.Reachability
import PageSvg.Proofs.Canvas.Styling

/-!
# The render mode of the last style

The last style of text is used again as long as nothing that it depends on has changed. In
particular it has the render mode in force: setting another mode forgets the style, and so does
going back to a state with another one.
-/

namespace PageSvg

open Draw

variable {α : Type}

/-- States that compare as equal have fonts of one identity and the same render mode. -/
theorem GraphicsState.font_mode_of_beq [Scalar α] {g g' : GraphicsState α} (h : (g == g') = true) :
    (g.text.font == g'.text.font) = true ∧ g.text.mode = g'.text.mode := by
  obtain ⟨_, _, _, _, htext⟩ := parts_of_beq h
  obtain ⟨_, _, _, hfont, _, _, _, _, _, _, hmode⟩ := TextState.parts_of_beq htext
  exact ⟨hfont, hmode⟩

namespace Canvas

/-- The last style of text has the render mode in force. -/
def KeepsMode (c : Canvas α) : Prop :=
  ∀ known, c.context.textStyle = some known → known.2.mode = c.graphics.text.mode

variable {c d : Canvas α}

theorem keepsMode_of_none (h : c.context.textStyle = none) : c.KeepsMode := by
  intro known hknown
  rw [h] at hknown
  cases hknown

theorem KeepsMode.of_eq (h : c.KeepsMode) (hmode : d.graphics.text.mode = c.graphics.text.mode)
    (hstyle : d.context.textStyle = c.context.textStyle ∨ d.context.textStyle = none) :
    d.KeepsMode := by
  rcases hstyle with hsame | hnone
  · intro known hknown
    rw [hmode]
    exact h known (hsame ▸ hknown)
  · exact keepsMode_of_none hnone

/-! ### Adjustments -/

variable [Scalar α]

theorem KeepsMode.adjust (h : c.KeepsMode) (a : Adjustment α) (env : Environment α) :
    (a.apply env c).KeepsMode := by
  cases hmode : a.setsMode with
  | true =>
    cases a with
    | renderMode code =>
      dsimp only [Adjustment.apply, setRenderMode, mapTextUnless, mapUnless]
      split
      · split
        · exact h
        · exact keepsMode_of_none rfl
      · exact h
    | _ => cases hmode
  | false => exact h.of_eq ((a.leaves env c).mode hmode) (a.adjusts env c).textStyle

/-- Going back to a saved state keeps the style only if the state compares as equal. -/
theorem KeepsMode.restore (h : c.KeepsMode) : c.restore.KeepsMode := by
  unfold Canvas.restore
  split
  · exact h
  · next g rest _ =>
    dsimp only
    by_cases hsame : (g == c.graphics) = true
    · rw [if_pos hsame]
      exact h.of_eq (GraphicsState.font_mode_of_beq hsame).2 (.inl rfl)
    · rw [if_neg hsame]
      exact keepsMode_of_none rfl

/-- There is no request to stop, and the last style of text has the render mode in force. -/
structure Composed (c : Canvas α) : Prop where
  running : c.cancellation.onset = none
  mode : c.KeepsMode

omit [Scalar α] in
theorem Composed.undisturbed (h : c.Composed) (hd : c.Undisturbed d) : d.Composed :=
  ⟨hd.onset ▸ h.running, h.mode.of_eq (congrArg (·.mode) hd.text) (.inl hd.textStyle)⟩

end Canvas

variable [Scalar α]

/-! ### Styles that are made -/

section Styles

variable {s : Setting α} {n n' : Nesting α} {deep : Prop} {c : Canvas α}

/-- What may keep any style that is made in the state in force is kept by finding the style. -/
theorem Painting.matches_currentStyle {I : Canvas α → Prop}
    (hn : Painting s n n' deep (Canvas.Both I)) (hi : (Environment.mk s n).Isolates) (scale : α)
    (h : I c)
    (hkeep : ∀ (style : TextStyle α) (d : Canvas α), I d → style.MadeIn s.options d.graphics →
      I (d.mapContext fun k => { k with textStyle := some (scale, style) })) :
    Matches (Canvas.Both I) (currentStyle ⟨s, n⟩ scale) (currentStyle ⟨s, n'⟩ scale) c c
      fun _ _ _ => True := by
  obtain ⟨style, hmake, hmade⟩ := makeStyle_eq s c.graphics scale
  have hnew : Matches (Canvas.Both I) (renewStyle ⟨s, n⟩ c.graphics scale)
      (renewStyle ⟨s, n'⟩ c.graphics scale) c c fun _ _ _ => True := by
    have hfill := matches_textFill (hn.keeping hi c.context) ⟨⟨rfl, h⟩, rfl⟩ c.graphics
    rw [renewStyle, renewStyle, hmake, hmake]
    refine .bind (.bind (P := fun _ d _ => d.context = c.context) (hfill.mono (fun _ _ hd => hd.1)
      fun _ _ _ hd _ => hd.2) fun fill d d' hd hcontext =>
        .pure (Q := fun (style : TextStyle α) d _ => style.MadeIn s.options d.graphics) hd ?_)
      fun style d d' hd hmade => ?_
    · rw [show d.graphics = c.graphics from congrArg (·.graphics) hcontext]
      exact hmade fill
    · obtain ⟨rfl, hd⟩ := hd
      exact .modifyBind (.pure ⟨rfl, hkeep _ _ hd hmade⟩ trivial)
  rw [currentStyle_eq, currentStyle_eq]
  refine .getBind ?_
  cases c.context.textStyle with
  | none => exact hnew
  | some known => exact .ite (fun _ => .pure ⟨rfl, h⟩ trivial) fun _ => hnew

end Styles

/-! ### Invariance -/

/-- Each step leaves the last style with the mode in force. -/
theorem kept_composed (s : Setting α) (deep : Prop) :
    Kept s deep Canvas.Composed fun _ _ => True :=
  Observes.kept
    { undisturbed := fun hd h => h.undisturbed hd
      adjust := fun {c n} a _ h =>
        ⟨(a.cancellation_apply ⟨s, n⟩ c).symm ▸ h.running, h.mode.adjust a ⟨s, n⟩⟩
      save := fun h => ⟨h.running, h.mode.of_eq rfl (.inl rfl)⟩
      restore := fun {c} h => ⟨c.cancellation_restore.symm ▸ h.running, h.mode.restore⟩
      style := fun hn hi scale h => hn.matches_currentStyle hi scale h fun _ _ hd hmade =>
        ⟨hd.running, fun _ e => Option.some.inj e ▸ hmade.mode⟩
      startCell := fun _ _ _ _ => trivial
      startGlyph := fun _ _ => trivial
      startForm := fun _ _ _ => trivial
      startPage := fun _ _ _ _ _ => trivial }

/-- **The last style has the mode in force on every level**; nested content
begins without a style. -/
theorem invariant_composed (s : Setting α) :
    Invariant s (fun _ _ => Canvas.Composed) fun _ _ => True where
  kept level _ := kept_composed s (level ≠ 0)
  enter _ _ _ h _ := ⟨h.running, Canvas.keepsMode_of_none rfl⟩
  leave h _ hd := ⟨hd.running, h.mode.of_eq rfl (.inl rfl)⟩

end PageSvg
