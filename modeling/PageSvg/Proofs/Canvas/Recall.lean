import PageSvg.Canvas.Execution
import PageSvg.Proofs.Canvas.Growth
import PageSvg.Proofs.Canvas.Matching
import PageSvg.Proofs.Keyed
import PageSvg.Proofs.Scene.Identifier

/-!
# Paint that has been met before

What a pattern paints with follows from the definitions that there are, once its own is settled: it
is there, or it is a cell where content can be nested no deeper. It stays settled, and the paint
stays the same, while definitions are added. So a style of text can be told without drawing
anything, when it has been made before.
-/

namespace PageSvg

/-! ### Definitions -/

namespace Definitions

theorem contains_insertNew_iff (d : Definitions) (id other : String) (node : Node) :
    (d.insertNew id node).contains other = true ↔ other = id ∨ d.contains other = true := by
  unfold insertNew
  split
  · next h =>
    refine ⟨.inr, ?_⟩
    rintro (rfl | hother)
    · exact h
    · exact hother
  · unfold contains
    rw [Keyed.contains_iff_mem_keys, Keyed.contains_iff_mem_keys, Keyed.keys_append,
      List.mem_append, Or.comm]
    exact or_congr List.mem_singleton Iff.rfl

theorem Grows.contains {d e : Definitions} (h : d.Grows e) {id : String}
    (hid : d.contains id = true) : e.contains id = true := by
  unfold Definitions.contains at hid ⊢
  rw [Keyed.contains_iff_mem_keys] at hid ⊢
  exact (h.nodes.map Prod.fst).subset hid

/-- Whether there will ever be a definition under the identifier is settled: there is one, or it is
that of a cell and content is nested as deep as may be. -/
def Settled (d : Definitions) (deep : Prop) (id : String) : Prop :=
  d.contains id = true ∨ ¬deep ∧ ∃ key, id = stableId "pat" key

/-- The identifier of a definition, if any, is settled, and it is what comes out where there is that
definition. -/
structure Recalls (d : Definitions) (deep : Prop) (id? result : Option String) : Prop where
  settled : ∀ id, id? = some id → d.Settled deep id
  result : result = id?.filter d.contains

theorem recalls_none (d : Definitions) (deep : Prop) : d.Recalls deep none none :=
  ⟨fun _ e => (by cases e), rfl⟩

theorem recalls_some {d : Definitions} {deep : Prop} {id : String} (h : d.contains id = true) :
    d.Recalls deep (some id) (some id) :=
  ⟨fun _ e => Option.some.inj e ▸ .inl h, (Option.filter_some_pos h).symm⟩

/-- The definitions `e` hold those of `d`, and cells only where content could be nested. -/
structure Extends (deep : Prop) (d e : Definitions) : Prop where
  contains : ∀ id, d.contains id = true → e.contains id = true
  cell : ¬deep → ∀ key,
    e.contains (stableId "pat" key) = true → d.contains (stableId "pat" key) = true

section Extending

variable {deep : Prop} {d e f : Definitions} {id : String}

theorem Extends.refl (d : Definitions) : Extends deep d d := ⟨fun _ h => h, fun _ _ h => h⟩

theorem Settled.extends (h : d.Settled deep id) (he : Extends deep d e) : e.Settled deep id :=
  h.imp (he.contains id) fun hcell => hcell

/-- What is settled does not change. -/
theorem Settled.contains_eq (h : d.Settled deep id) (he : Extends deep d e) :
    e.contains id = d.contains id := by
  rw [Bool.eq_iff_iff]
  refine ⟨fun hid => ?_, he.contains id⟩
  rcases h with h | ⟨hdeep, key, rfl⟩
  · exact h
  · exact he.cell hdeep key hid

theorem Settled.filter_eq {id? : Option String} (h : ∀ id, id? = some id → d.Settled deep id)
    (he : Extends deep d e) : id?.filter e.contains = id?.filter d.contains := by
  cases id? with
  | none => rfl
  | some id => simp only [Option.filter_some, (h id rfl).contains_eq he]

end Extending

end Definitions

variable {α : Type} [Scalar α]

/-! ### Patterns -/

/-- The identifier of the definition of a tiling at a place; none for a cell without extent. -/
def Tiling.definitionId? (o : Options α) (placement : Matrix α) (paint : Paint α) (t : Tiling α) :
    Option String :=
  if t.xStep == 0 || t.yStep == 0 then none
  else some (stableId "pat" (t.id ++ "|" ++ placement.text o ++ "|" ++ t.color paint))

/-- The identifier of the definition of a pattern at a place; none where nothing defines it. -/
def Pattern.definitionId? (o : Options α) (placement : Matrix α) (paint : Paint α) :
    Pattern α → Option String
  | tiling t => t.definitionId? o placement paint
  | shading s _ =>
    (s.gradient? o placement).map fun node => stableId "grad" (s.id ++ "|" ++ node.describe)

namespace Setting

variable (s : Setting α) (resources : SetId)

/-- The identifier of the definition of the pattern of a name. -/
def patternId? (name : String) (paint : Paint α) (transform : Option (Matrix α)) : Option String := do
  let pattern ← (s.library.set resources).patterns.get? name
  let placement ← placement? s.environment pattern.matrix transform
  pattern.definitionId? s.options placement paint

/-- The colour in place of the pattern of a name. -/
def patternColor (name : String) (paint : Paint α) : Rgb α :=
  ((s.library.set resources).patterns.get? name).elim paint.rgb (Pattern.substitute paint)

/-- What the pattern of a name paints with, when there are some definitions. -/
def patternValue (d : Definitions) (name : String) (paint : Paint α)
    (transform : Option (Matrix α)) : PatternPaint α :=
  ((s.patternId? resources name paint transform).filter d.contains).elim
    (.solid (s.patternColor resources name paint)) .definition

/-- What a pattern paints with is settled as well, and can be told from the definitions. -/
structure PaintRecalled (deep : Prop) (d : Definitions) (name : String) (paint : Paint α)
    (transform : Option (Matrix α)) (value : PatternPaint α) : Prop where
  settled : ∀ id, s.patternId? resources name paint transform = some id → d.Settled deep id
  value : value = s.patternValue resources d name paint transform

theorem paintRecalled {s : Setting α} {resources : SetId} {deep : Prop} {d : Definitions}
    {name : String} {paint : Paint α} {transform : Option (Matrix α)} {id? result : Option String}
    {color : Rgb α} (hid : s.patternId? resources name paint transform = id?)
    (hcolor : s.patternColor resources name paint = color) (h : d.Recalls deep id? result) :
    s.PaintRecalled resources deep d name paint transform
      (result.elim (.solid color) .definition) := by
  subst hid hcolor
  exact ⟨h.settled, by rw [patternValue, h.result]⟩

/-! ### Styles -/

/-- The identifier of the definition that text is filled with, if it is filled with a pattern. -/
def fillId? (g : GraphicsState α) : Option String :=
  if g.text.mode.fills then
    g.fill.pattern.bind fun name => s.patternId? resources name g.fill none
  else none

/-- How text is filled when there are some definitions. -/
def fillOf (d : Definitions) (g : GraphicsState α) : Option (Rgb α × α) × Option String :=
  if !g.text.mode.fills then (none, none)
  else
    match g.fill.pattern with
    | none => (some (g.fill.rgb, g.fill.alpha), none)
    | some name =>
      match s.patternValue resources d name g.fill none with
      | .definition id => (none, some id)
      | .solid rgb => (some (rgb, g.fill.alpha), none)

/-- The style of text in a state, at the scale of a line, when there are some definitions. -/
def styleOf (d : Definitions) (g : GraphicsState α) (scale : α) : TextStyle α where
  family := g.currentFont.family
  bold := g.currentFont.bold
  italic := g.currentFont.italic
  size := Scalar.abs (g.text.fontSize * scale)
  fill := (s.fillOf resources d g).1
  fillReference := (s.fillOf resources d g).2
  stroke :=
    if g.text.mode.strokes then
      some ⟨g.stroke.rgb, g.stroke.alpha,
        Scalar.max (g.lineWidth * g.ctm.meanScale) s.options.minStrokeWidth⟩
    else none
  letterSpacing := g.text.charSpacing * g.text.scaling / 100 * scale
  scaling := g.text.scaling
  mode := g.text.mode

/-- A style is the one that can be told from the definitions, and its fill is settled. -/
structure StyleRecalled (deep : Prop) (d : Definitions) (g : GraphicsState α) (scale : α)
    (style : TextStyle α) : Prop where
  settled : ∀ id, s.fillId? resources g = some id → d.Settled deep id
  style : style = s.styleOf resources d g scale

section Settled

variable {s resources} {deep : Prop} {d e : Definitions} {g : GraphicsState α}

/-- A style whose fill is settled stays the same while definitions are added. -/
theorem styleOf_extends (h : ∀ id, s.fillId? resources g = some id → d.Settled deep id)
    (he : Definitions.Extends deep d e) (scale : α) :
    s.styleOf resources e g scale = s.styleOf resources d g scale := by
  have hfill : s.fillOf resources e g = s.fillOf resources d g := by
    unfold fillId? at h
    unfold fillOf
    cases hmode : g.text.mode.fills with
    | false => rfl
    | true =>
      rw [if_pos hmode] at h
      cases hpattern : g.fill.pattern with
      | none => rfl
      | some name =>
        rw [hpattern] at h
        have hsettled : ∀ id, s.patternId? resources name g.fill none = some id →
            d.Settled deep id := h
        simp only [patternValue, Definitions.Settled.filter_eq hsettled he]
  unfold styleOf
  rw [hfill]

end Settled

end Setting

/-! ### Meeting it again -/

/-- The pattern is one of the library. -/
def Setting.HasPattern (s : Setting α) (pattern : Pattern α) : Prop :=
  ∃ set ∈ s.library, ∃ entry ∈ set.patterns, entry.2 = pattern

omit [Scalar α] in
/-- What a name stands for in a set of a library is an entry of one of its sets. -/
theorem Library.mem_of_get? {β : Type} {library : Library α} {id : SetId} {name : String} {value : β}
    (kind : ResourceSet α → Keyed β) (hempty : kind {} = [])
    (h : (kind (library.set id)).get? name = some value) :
    ∃ set ∈ library, ∃ entry ∈ kind set, entry.2 = value := by
  unfold Library.set Array.getD at h
  split at h
  · next hid => exact ⟨_, Array.getElem_mem hid, _, Keyed.mem_of_get? h, rfl⟩
  · rw [hempty] at h
    cases h

omit [Scalar α] in
theorem Setting.hasPattern_of_get? {s : Setting α} {id : SetId} {name : String}
    {pattern : Pattern α} (h : (s.library.set id).patterns.get? name = some pattern) :
    s.HasPattern pattern :=
  s.library.mem_of_get? (·.patterns) rfl h

/-- Nothing is drawn for a cell of the library: it is refused, and there has been one more look for
the request to stop. -/
def Refuses (s : Setting α)
    (n : GraphicsState α → SetId → ContentStream α → Bool → Draw α (List Node))
    (c : Canvas α) : Prop :=
  ∀ (t : Tiling α) (paint : Paint α) (resources : SetId), s.HasPattern (.tiling t) →
    Draw.orSkip (n (t.cellState paint) resources t.content t.uncolored) c = .ok none c.looked

/-- The value comes out, and nothing happens but perhaps a look for the request to stop. -/
def Draw.Tells {β : Type} (x : Draw α β) (c : Canvas α) (b : β) : Prop :=
  x c = .ok b c ∨ x c = .ok b c.looked

section Again

variable {s : Setting α} {n : GraphicsState α → SetId → ContentStream α → Bool → Draw α (List Node)}
  {deep : Prop} {c : Canvas α}

omit [Scalar α] in
theorem Draw.Tells.bind {β γ : Type} {x : Draw α β} {f : β → Draw α γ} {b : β} {b' : γ}
    (hx : x.Tells c b) (hf : ∀ d, f b d = .ok b' d) : (x >>= f).Tells c b' := by
  unfold Tells
  rw [bind_apply]
  rcases hx with hx | hx
  · rw [hx]
    exact .inl (hf c)
  · rw [hx]
    exact .inr (hf c.looked)

omit [Scalar α] in
theorem Draw.Tells.getBind {β : Type} {f : Canvas α → Draw α β} {b : β} (h : (f c).Tells c b) :
    (get >>= f).Tells c b := h

variable (hrefuses : ¬deep → Refuses s n c)

include hrefuses

theorem Tiling.tells_define {t : Tiling α} (ht : s.HasPattern (.tiling t)) (placement : Matrix α)
    (paint : Paint α)
    (h : ∀ id, t.definitionId? s.options placement paint = some id → c.definitions.Settled deep id) :
    (t.define ⟨s, n⟩ placement paint).Tells c
      ((t.definitionId? s.options placement paint).filter c.definitions.contains) := by
  unfold define definitionId? at *
  by_cases hsteps : (t.xStep == 0 || t.yStep == 0) = true
  · rw [if_pos hsteps, if_pos hsteps]
    exact .inl rfl
  rw [if_neg hsteps] at h
  rw [if_neg hsteps, if_neg hsteps]
  dsimp only
  by_cases hthere : c.definitions.contains
      (stableId "pat" (t.id ++ "|" ++ placement.text s.options ++ "|" ++ t.color paint)) = true
  · refine .getBind ?_
    rw [if_pos hthere, Option.filter_some_pos hthere]
    exact .inl rfl
  · -- The cell was refused before, and is refused again.
    obtain ⟨hdeep, _⟩ := (h _ rfl).resolve_left hthere
    refine .getBind ?_
    rw [if_neg hthere, Option.filter_some_neg (Bool.not_eq_true _ ▸ hthere)]
    refine .bind (b := none) (.inr ?_) fun _ => rfl
    rw [Draw.orNothing_apply, hrefuses hdeep t _ _ ht]

omit hrefuses in
theorem Canvas.gradient_settled {o : Options α} {shading : Shading α} {placement : Matrix α}
    (h : ∀ id, (shading.gradient? o placement).map
        (fun node => stableId "grad" (shading.id ++ "|" ++ node.describe)) = some id →
      c.definitions.Settled deep id) :
    c.gradient o shading placement =
      (((shading.gradient? o placement).map
        fun node => stableId "grad" (shading.id ++ "|" ++ node.describe)).filter
          c.definitions.contains, c) := by
  unfold gradient
  cases hgradient : shading.gradient? o placement with
  | none => rfl
  | some node =>
    rw [hgradient] at h
    have hkinds : "grad".toList = 'g' :: ['r', 'a', 'd'] ∧ "pat".toList = 'p' :: ['a', 't'] := by
      decide
    have hthere := (h _ rfl).resolve_right fun hcell => by
      obtain ⟨_, key, hkey⟩ := hcell
      exact stableId_ne hkinds.1 hkinds.2 (by decide) _ _ hkey
    dsimp only
    rw [Option.map_some, Option.filter_some_pos hthere, Definitions.insertNew, if_pos hthere]

theorem Pattern.tells_define {pattern : Pattern α} (hpattern : s.HasPattern pattern)
    (placement : Matrix α) (paint : Paint α)
    (h : ∀ id, pattern.definitionId? s.options placement paint = some id →
      c.definitions.Settled deep id) :
    (pattern.define ⟨s, n⟩ placement paint).Tells c
      ((pattern.definitionId? s.options placement paint).filter c.definitions.contains) := by
  cases pattern with
  | tiling t => exact Tiling.tells_define hrefuses hpattern placement paint h
  | shading shading m =>
    refine .inl ?_
    show EStateM.Result.ok (c.gradient s.options shading placement).1
      (c.gradient s.options shading placement).2 = _
    rw [Canvas.gradient_settled h]
    rfl

theorem Setting.tells_patternPaint (name : String) (paint : Paint α) (transform : Option (Matrix α))
    (h : ∀ id, s.patternId? c.context.resources name paint transform = some id →
      c.definitions.Settled deep id) :
    (patternPaint ⟨s, n⟩ name paint transform).Tells c
      (s.patternValue c.context.resources c.definitions name paint transform) := by
  unfold patternPaint patternValue patternId? patternColor at *
  refine .getBind ?_
  rw [show ((Environment.mk s n).resources c).patterns =
    (s.library.set c.context.resources).patterns from rfl]
  cases hname : (s.library.set c.context.resources).patterns.get? name with
  | none => exact .inl rfl
  | some pattern =>
    have hplacement : placement? ⟨s, n⟩ pattern.matrix transform =
      placement? s.environment pattern.matrix transform := rfl
    rw [hname] at h
    dsimp only
    rw [hplacement]
    cases hplace : placement? s.environment pattern.matrix transform with
    | none =>
      simp only [Option.bind_eq_bind, Option.bind_some, hplace]
      exact .inl rfl
    | some placement =>
      simp only [Option.bind_eq_bind, Option.bind_some, hplace] at h ⊢
      have hpattern := Setting.hasPattern_of_get? hname
      refine .bind (Pattern.tells_define hrefuses hpattern placement paint h) fun d => ?_
      cases (pattern.definitionId? s.options placement paint).filter c.definitions.contains <;> rfl

theorem Setting.tells_textFill (g : GraphicsState α)
    (h : ∀ id, s.fillId? c.context.resources g = some id → c.definitions.Settled deep id) :
    (textFill ⟨s, n⟩ g).Tells c (s.fillOf c.context.resources c.definitions g) := by
  unfold textFill fillOf fillId? at *
  cases hmode : g.text.mode.fills with
  | false => exact .inl rfl
  | true =>
    rw [if_pos hmode] at h
    cases hpattern : g.fill.pattern with
    | none => exact .inl rfl
    | some name =>
      rw [hpattern] at h
      refine .bind (s.tells_patternPaint hrefuses name g.fill none h) fun d => ?_
      dsimp only
      cases s.patternValue c.context.resources c.definitions name g.fill none <;> rfl

/-- A style whose fill is settled is told from the definitions. -/
theorem Setting.tells_makeStyle (g : GraphicsState α) (scale : α)
    (h : ∀ id, s.fillId? c.context.resources g = some id → c.definitions.Settled deep id) :
    (makeStyle ⟨s, n⟩ g scale).Tells c (s.styleOf c.context.resources c.definitions g scale) :=
  .bind (s.tells_textFill hrefuses g h) fun _ => rfl

end Again

end PageSvg
