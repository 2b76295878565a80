import PageSvg.Proofs.Canvas.Simulation

/-!
# Paint is always there

Whatever becomes of the cell of a pattern, there is something to paint with: a definition, or one
colour in its place. Finding it draws nothing in the content that asks for it.
-/

namespace PageSvg

open Draw

variable {α β γ : Type}

/-- Drawing gives a value on every canvas and leaves the content around it alone. -/
structure Draw.Quiet (x : Draw α β) : Prop where
  ends : ∀ c : Canvas α, Ends x c (fun _ d => c.Isolated d) fun _ _ => False

namespace Draw.Quiet

theorem pure (b : β) : Quiet (pure b : Draw α β) := ⟨fun c => ⟨.refl c, rfl⟩⟩

theorem get : Quiet (get : Draw α (Canvas α)) := ⟨fun c => ⟨.refl c, rfl⟩⟩

theorem modify {f : Canvas α → Canvas α} (h : ∀ c : Canvas α, c.Isolated (f c)) :
    Quiet (modify f : Draw α PUnit) := ⟨h⟩

theorem modifyGet {f : Canvas α → β × Canvas α} (h : ∀ c : Canvas α, c.Isolated (f c).2) :
    Quiet (modifyGet f : Draw α β) := ⟨h⟩

theorem bind {x : Draw α γ} {f : γ → Draw α β} (hx : Quiet x) (hf : ∀ a, Quiet (f a)) :
    Quiet (x >>= f) := by
  refine ⟨fun c => ?_⟩
  rw [ends_bind]
  refine (hx.ends c).mono (fun a d hd => ?_) fun _ _ h => h
  exact ((hf a).ends d).mono (fun _ _ he => hd.trans he) fun _ _ h => h

theorem ite {p : Prop} [Decidable p] {x y : Draw α β} (hx : Quiet x) (hy : Quiet y) :
    Quiet (if p then x else y) := by
  split
  · exact hx
  · exact hy

end Draw.Quiet

section Paint

variable {env : Environment α} (h : env.Isolates)

include h

/-- Nested content that may come to nothing is quiet: its faults are caught. -/
theorem quiet_nested (graphics : GraphicsState α) (resources : SetId)
    (content : ContentStream α) (locked : Bool) :
    Quiet (orNothing (orSkip (env.nested graphics resources content locked))) := by
  refine ⟨fun c => (ends_orNothing _).2 ?_⟩
  exact ends_orSkip _ ((h graphics resources content locked c).mono (fun _ _ hd => hd)
    fun _ _ hd => ⟨fun _ _ => hd.2, hd.2⟩)

variable [Scalar α]

theorem quiet_patternPaint (name : String) (paint : Paint α) (transform : Option (Matrix α)) :
    Quiet (patternPaint env name paint transform) := by
  have htiling (t : Tiling α) (placement : Matrix α) : Quiet (t.define env placement paint) := by
    unfold Tiling.define
    refine .ite (.pure none) (.bind .get fun c => .ite (.pure _) ?_)
    refine .bind (quiet_nested h ..) fun cell? => ?_
    cases cell? with
    | none => exact .pure none
    | some cell => exact .bind (.modify fun c => ⟨c.frame_insertNew _ _, rfl⟩) fun _ => .pure _
  have hdefine (placement : Matrix α) (pattern : Pattern α) :
      Quiet (pattern.define env placement paint) := by
    cases pattern with
    | tiling t => exact htiling t placement
    | shading s m =>
      exact .modifyGet fun c => ⟨c.frame_gradient _ s placement, c.context_gradient _ s placement⟩
  unfold patternPaint
  refine .bind .get fun c => ?_
  split
  · exact .pure _
  · dsimp only
    split
    · exact .pure _
    · refine .bind (hdefine ..) fun id? => ?_
      cases id? with
      | none => exact .pure _
      | some id => exact .pure _

/-- There is always a value for a paint attribute. -/
theorem quiet_paintValue (paint : Paint α) (transform : Option (Matrix α)) :
    Quiet (paintValue env paint transform) := by
  unfold paintValue
  split
  · exact .pure _
  · exact .bind (quiet_patternPaint h ..) fun _ => .pure _

theorem quiet_textFill (g : GraphicsState α) : Quiet (textFill env g) := by
  unfold textFill
  refine .ite (.pure _) ?_
  split
  · exact .pure _
  · refine .bind (quiet_patternPaint h ..) fun paint => ?_
    cases paint with
    | definition id => exact .pure _
    | solid rgb => exact .pure _

end Paint

/-! ### Styles -/

/-- What a style has from the state that it is made in, whatever it is filled with. -/
structure TextStyle.MadeIn [Scalar α] (o : Options α) (g : GraphicsState α) (style : TextStyle α) :
    Prop where
  family : style.family = g.currentFont.family
  bold : style.bold = g.currentFont.bold
  italic : style.italic = g.currentFont.italic
  mode : style.mode = g.text.mode
  stroke : ∀ stroke ∈ style.stroke, stroke.width = g.strokeWidth o false

section Style

variable [Scalar α]

/-- After the fill is found, nothing more is drawn for a style. -/
theorem makeStyle_eq (s : Setting α) (g : GraphicsState α) (scale : α) :
    ∃ style : Option (Rgb α × α) × Option String → TextStyle α,
      (∀ n, makeStyle ⟨s, n⟩ g scale = (textFill ⟨s, n⟩ g >>= fun fill => pure (style fill))) ∧
        ∀ fill, (style fill).MadeIn s.options g := by
  refine ⟨fun fill => { s.styleOf 0 {} g scale with fill := fill.1, fillReference := fill.2 },
    fun n => rfl, fun fill => ⟨rfl, rfl, rfl, rfl, fun stroke hstroke => ?_⟩⟩
  dsimp only [Setting.styleOf] at hstroke
  split_ifs at hstroke with hmode
  · cases hstroke
    rfl
  · cases hstroke

theorem exists_makeStyle {env : Environment α} (h : env.Isolates) (g : GraphicsState α) (scale : α)
    (c : Canvas α) : ∃ style d, makeStyle env g scale c = .ok style d ∧ c.Isolated d ∧
      style.MadeIn env.options g := by
  obtain ⟨style, hmake, hmade⟩ := makeStyle_eq env.toSetting g scale
  obtain ⟨fill, d, hfill, hd⟩ := ((quiet_textFill h g).ends c).exists_ok
  refine ⟨style fill, d, ?_, hd, hmade fill⟩
  rw [hmake, bind_apply, hfill]
  rfl

/-- The last style is found again as long as it holds, and otherwise one is made and kept. -/
theorem exists_lastStyle {env : Environment α} (h : env.Isolates) (scale : α) (c : Canvas α) :
    ∃ style d, currentStyle env scale c = .ok style d ∧
      (d = c ∧ (∃ last, c.context.textStyle = some (last, style) ∧ (last == scale) = true) ∨
        style.MadeIn env.options c.graphics ∧
          d.context = { c.context with textStyle := some (scale, style) }) := by
  obtain ⟨style, d, hstyle, hd, hmade⟩ := exists_makeStyle h c.graphics scale c
  have hnew : renewStyle env c.graphics scale c =
      .ok style (d.mapContext fun k => { k with textStyle := some (scale, style) }) := by
    rw [renewStyle, bind_apply, hstyle]
    rfl
  have hcontext : (d.mapContext fun k => { k with textStyle := some (scale, style) }).context =
      { c.context with textStyle := some (scale, style) } := by
    rw [← hd.context]
    rfl
  rw [currentStyle_eq, getBind_apply]
  cases hkept : c.context.textStyle with
  | none => exact ⟨style, _, hnew, .inr ⟨hmade, hcontext⟩⟩
  | some known =>
    by_cases hscale : (known.1 == scale) = true
    · dsimp only
      rw [if_pos hscale]
      exact ⟨known.2, c, rfl, .inl ⟨rfl, known.1, rfl, hscale⟩⟩
    · dsimp only
      rw [if_neg hscale]
      exact ⟨style, _, hnew, .inr ⟨hmade, hcontext⟩⟩

end Style

end PageSvg
