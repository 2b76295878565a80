import PageSvg.Layout.Element
import PageSvg.Canvas.Emission
import PageSvg.Proofs.Number.Tidy

/-!
# Text styles up to the sign of zeros

Styles that are the same once their numbers are tidied have the same declarations, and runs of text
in such styles are laid out in the same way and come to the same elements.
-/

namespace PageSvg

open Scalar

variable {α : Type} [Scalar α]

/-! ### Styles -/

namespace TextStyle

/-- The style with one zero for all zeros. The size is an absolute value and has none to tidy. -/
def tidied (s : TextStyle α) : TextStyle α :=
  { s with
    fill := s.fill.map fun f => (f.1.tidied, tidy f.2)
    stroke := s.stroke.map fun t => ⟨t.rgb.tidied, tidy t.alpha, tidy t.width⟩
    letterSpacing := tidy s.letterSpacing
    scaling := tidy s.scaling }

theorem tidied_tidied (s : TextStyle α) : s.tidied.tidied = s.tidied := by
  have hrgb (c : Rgb α) : c.tidied.tidied = c.tidied := by
    simp only [Rgb.tidied, tidy_tidy]
  unfold tidied
  simp only [Option.map_map, Function.comp_def, hrgb, tidy_tidy]

section Alike

variable [ZerosAlike α] {s s' t t' : TextStyle α}

theorem opacity_congr (o : Options α) (property : String) {x x' : α} (hx : tidy x = tidy x') :
    opacity o property x = opacity o property x' := by
  unfold opacity
  simp only [lt_congr hx (rfl : tidy (1 : α) = tidy 1), text_congr o hx]

theorem fillDeclarations_congr (o : Options α) (h : s.tidied = s'.tidied) :
    s.fillDeclarations o = s'.fillDeclarations o := by
  have hreference : s.fillReference = s'.fillReference := congrArg (·.fillReference) h
  have hfill : s.fill.map _ = s'.fill.map _ := congrArg (·.fill) h
  unfold fillDeclarations
  rw [hreference]
  cases s'.fillReference with
  | some id => rfl
  | none =>
    cases hs : s.fill with
    | none =>
      rw [hs, Option.map_none, eq_comm, Option.map_eq_none_iff] at hfill
      rw [hfill]
    | some f =>
      rw [hs, Option.map_some, eq_comm, Option.map_eq_some_iff] at hfill
      obtain ⟨f', hs', hf⟩ := hfill
      obtain ⟨hrgb, halpha⟩ := Prod.mk.inj hf
      rw [hs']
      dsimp only
      rw [Rgb.css_congr hrgb, opacity_congr o _ halpha]

theorem strokeDeclarations_congr (o : Options α) (h : s.tidied = s'.tidied) :
    s.strokeDeclarations o = s'.strokeDeclarations o := by
  have hstroke : s.stroke.map _ = s'.stroke.map _ := congrArg (·.stroke) h
  unfold strokeDeclarations
  cases hs : s.stroke with
  | none =>
    rw [hs, Option.map_none, eq_comm, Option.map_eq_none_iff] at hstroke
    rw [hstroke]
  | some t =>
    rw [hs, Option.map_some, eq_comm, Option.map_eq_some_iff] at hstroke
    obtain ⟨t', hs', ht⟩ := hstroke
    obtain ⟨hrgb, halpha, hwidth⟩ := TextStroke.mk.inj ht
    rw [hs']
    dsimp only
    rw [Rgb.css_congr hrgb, opacity_congr o _ halpha, text_congr o hwidth]

theorem css_congr (o : Options α) (h : s.tidied = s'.tidied) : s.css o = s'.css o := by
  have hspacing : tidy s.letterSpacing = tidy s'.letterSpacing := congrArg (·.letterSpacing) h
  have hfamily : s.family = s'.family := congrArg (·.family) h
  have hbold : s.bold = s'.bold := congrArg (·.bold) h
  have hitalic : s.italic = s'.italic := congrArg (·.italic) h
  have hsize : s.size = s'.size := congrArg (·.size) h
  unfold css
  rw [hfamily, hbold, hitalic, hsize, fillDeclarations_congr o h, strokeDeclarations_congr o h,
    beq_congr hspacing (rfl : tidy (0 : α) = tidy 0), text_congr o hspacing]

omit [Scalar α] [ZerosAlike α] in
/-- Optional values compare alike where the values do. -/
theorem option_beq_congr {γ : Type} [BEq γ] {f : γ → γ}
    (hf : ∀ {x x' y y' : γ}, f x = f x' → f y = f y' → (x == y) = (x' == y')) {x x' y y' : Option γ}
    (hx : x.map f = x'.map f) (hy : y.map f = y'.map f) : (x == y) = (x' == y') := by
  cases x with
  | none =>
    rw [Option.map_none, eq_comm, Option.map_eq_none_iff] at hx
    subst hx
    cases y with
    | none =>
      rw [Option.map_none, eq_comm, Option.map_eq_none_iff] at hy
      rw [hy]
    | some y =>
      rw [Option.map_some, eq_comm, Option.map_eq_some_iff] at hy
      obtain ⟨y', rfl, _⟩ := hy
      rfl
  | some x =>
    rw [Option.map_some, eq_comm, Option.map_eq_some_iff] at hx
    obtain ⟨x', rfl, hx⟩ := hx
    cases y with
    | none =>
      rw [Option.map_none, eq_comm, Option.map_eq_none_iff] at hy
      rw [hy]
      rfl
    | some y =>
      rw [Option.map_some, eq_comm, Option.map_eq_some_iff] at hy
      obtain ⟨y', rfl, hy⟩ := hy
      exact hf hx.symm hy.symm

omit [ZerosAlike α] in
theorem beq_eq (s t : TextStyle α) : (s == t) =
    (s.family == t.family && (s.bold == t.bold && (s.italic == t.italic && (s.size == t.size &&
      (s.fill == t.fill && (s.fillReference == t.fillReference && (s.stroke == t.stroke &&
      (s.letterSpacing == t.letterSpacing && (s.scaling == t.scaling && s.mode == t.mode)))))))))
    := rfl

/-- Styles compare alike if they are the same once tidied. -/
theorem beq_congr (h : s.tidied = s'.tidied) (ht : t.tidied = t'.tidied) :
    (s == t) = (s' == t') := by
  obtain ⟨hfamily, hbold, hitalic, hsize, hfill, hreference, hstroke, hspacing, hscaling, hmode⟩ :=
    TextStyle.mk.inj h
  obtain ⟨hfamily', hbold', hitalic', hsize', hfill', hreference', hstroke', hspacing', hscaling',
    hmode'⟩ := TextStyle.mk.inj ht
  have hfills : (s.fill == t.fill) = (s'.fill == t'.fill) := by
    refine option_beq_congr (fun {x x' y y'} hx hy => ?_) hfill hfill'
    show (x.1 == y.1 && x.2 == y.2) = (x'.1 == y'.1 && x'.2 == y'.2)
    obtain ⟨hrgb, halpha⟩ := Prod.mk.inj hx
    obtain ⟨hrgb', halpha'⟩ := Prod.mk.inj hy
    rw [Rgb.beq_congr hrgb hrgb', Scalar.beq_congr halpha halpha']
  have hstrokes : (s.stroke == t.stroke) = (s'.stroke == t'.stroke) := by
    refine option_beq_congr (fun {x x' y y'} hx hy => ?_) hstroke hstroke'
    show (x.rgb == y.rgb && (x.alpha == y.alpha && x.width == y.width)) =
      (x'.rgb == y'.rgb && (x'.alpha == y'.alpha && x'.width == y'.width))
    obtain ⟨hrgb, halpha, hwidth⟩ := TextStroke.mk.inj hx
    obtain ⟨hrgb', halpha', hwidth'⟩ := TextStroke.mk.inj hy
    rw [Rgb.beq_congr hrgb hrgb', Scalar.beq_congr halpha halpha', Scalar.beq_congr hwidth hwidth']
  rw [beq_eq, beq_eq, hfamily, hbold, hitalic, hsize, hreference, hmode, hfamily', hbold', hitalic',
    hsize', hreference', hmode', hfills, hstrokes, Scalar.beq_congr hspacing hspacing',
    Scalar.beq_congr hscaling hscaling']

omit [ZerosAlike α] in
theorem tidied_hidden (s : TextStyle α) : s.hidden.tidied = s.tidied.hidden.tidied := by
  unfold hidden tidied
  simp only [tidy_tidy, Option.map_none]

end Alike

end TextStyle

/-! ### Text -/

/-- The span with its style tidied. -/
def Span.tidied (s : Span α) : Span α := { s with style := s.style.tidied }

/-- The paragraph with its styles tidied. -/
def Paragraph.tidied (p : Paragraph α) : Paragraph α :=
  { p with recent := p.recent.map Span.tidied }

theorem Paragraph.spans_tidied (p : Paragraph α) : p.tidied.spans = p.spans.map Span.tidied :=
  List.map_reverse.symm

theorem Canvas.paragraphBounds_tidied (p : Paragraph α) :
    paragraphBounds p.tidied = paragraphBounds p := by
  unfold paragraphBounds
  rw [Paragraph.spans_tidied, List.foldl_map, List.foldl_map]
  rfl

namespace TextLayout

/-- The text with its styles tidied. -/
def tidied (t : TextLayout α) : TextLayout α := { t with recent := t.recent.map Paragraph.tidied }

theorem endsInGlyphs_tidied (t : TextLayout α) : t.tidied.endsInGlyphs = t.endsInGlyphs := by
  unfold endsInGlyphs tidied
  cases t.recent <;> rfl

theorem tidied_position (o : Options α) (t : TextLayout α) (m : Matrix α) :
    (t.position o m).tidied = t.tidied.position o m := by
  unfold position
  rw [endsInGlyphs_tidied]
  exact apply_ite tidied _ _ _

theorem tidied_addGlyphs (t : TextLayout α) (nodes : List Node) :
    (t.addGlyphs nodes).tidied = t.tidied.addGlyphs nodes := by
  unfold addGlyphs
  exact apply_ite tidied _ _ _

section Alike

variable [ZerosAlike α] {style style' : TextStyle α}

theorem map_tidied_addSpan (spans : List (Span α)) (text : String) (width space : α)
    (h : style.tidied = style'.tidied) : (addSpan spans text width space style).map Span.tidied =
      addSpan (spans.map Span.tidied) text width space style'.tidied := by
  have hspan (spaces : List α) : Span.tidied ⟨text, width, spaces, style⟩ =
      ⟨text, width, spaces, style'.tidied⟩ := congrArg _ h
  cases spans with
  | nil => exact congrArg (fun s => [s]) (hspan _)
  | cons last rest =>
    have hlast : (last.style == style) = (last.tidied.style == style'.tidied) :=
      TextStyle.beq_congr last.style.tidied_tidied.symm (h.trans style'.tidied_tidied.symm)
    unfold addSpan
    dsimp only [List.map_cons]
    rw [hlast]
    refine (apply_ite (List.map Span.tidied) _ _ _).trans ?_
    rw [List.map_cons, List.map_cons, hspan]
    rfl

/-- Runs in styles that are the same once tidied are added alike. -/
theorem tidied_addText (o : Options α) (t : TextLayout α) (text : String) (width : α)
    (h : style.tidied = style'.tidied) :
    (t.addText o text width style).tidied = t.tidied.addText o text width style'.tidied := by
  have hspace (pending : α) :
      leadingSpace o pending style = leadingSpace o pending style'.tidied := by
    unfold leadingSpace
    rw [show style.size = style'.tidied.size from congrArg (·.size) h]
  have hstart : (if t.line.isNone then t.position o .identity else t).tidied =
      if t.tidied.line.isNone then t.tidied.position o .identity else t.tidied := by
    rw [← tidied_position]
    exact apply_ite tidied _ _ _
  unfold addText
  rw [← hstart]
  generalize (if t.line.isNone then t.position o .identity else t) = t
  dsimp only
  rw [apply_ite tidied]
  congr 1
  unfold tidied
  rw [hspace]
  dsimp only
  cases t.recent with
  | nil => rfl
  | cons p rest =>
    exact congrArg (fun recent : List (Span α) =>
      (⟨{ p with recent } :: rest.map Paragraph.tidied, t.line, t.cursor + width, 0⟩ :
        TextLayout α)) (map_tidied_addSpan p.recent text width _ h)

end Alike

end TextLayout

/-! ### Elements -/

namespace Layout

/-- The span with its style tidied, in its place. -/
def PlacedSpan.tidied (s : PlacedSpan α) : PlacedSpan α := { s with span := s.span.tidied }

theorem placeFrom_tidied (origin : α) (index : Nat) (spans : List (Span α)) :
    placeFrom origin index (spans.map Span.tidied) =
      (placeFrom origin index spans).map PlacedSpan.tidied := by
  induction spans generalizing origin index with
  | nil => rfl
  | cons s rest ih => exact congrArg (_ :: ·) (ih _ _)

theorem selected_tidied (p : Paragraph α) (part : TextPart) :
    selected p.tidied part = (selected p part).map PlacedSpan.tidied := by
  unfold selected placed
  rw [Paragraph.spans_tidied]
  exact (congrArg _ (placeFrom_tidied _ _ _)).trans List.filter_map

section Alike

variable [ZerosAlike α] (o : Options α) (p : Paragraph α) (part : TextPart)

theorem styleClass_tidied (style : TextStyle α) :
    styleClass o part style.tidied = styleClass o part style := by
  have hsame : (if part = .invisible then style.tidied.hidden else style.tidied).tidied =
      (if part = .invisible then style.hidden else style).tidied := by
    split
    · exact style.tidied_hidden.symm
    · exact style.tidied_tidied
  unfold styleClass
  rw [TextStyle.css_congr o hsame]

theorem stretched_tidied (s : PlacedSpan α) :
    stretched o p.tidied part s.tidied = stretched o p part s := by
  unfold stretched
  rw [show s.tidied.span.style = s.span.style.tidied from rfl, styleClass_tidied]
  rfl

theorem inner_tidied (last : Option Nat) (s : PlacedSpan α) :
    inner o part last s.tidied = inner o part last s := by
  unfold inner
  rw [show s.tidied.span.style = s.span.style.tidied from rfl, styleClass_tidied]
  rfl

theorem inners_tidied (last : Option Nat) (spans : List (PlacedSpan α)) :
    inners o part last (spans.map PlacedSpan.tidied) = inners o part last spans := by
  induction spans generalizing last with
  | nil => rfl
  | cons s rest ih =>
    rw [List.map_cons, inners, inners, inner_tidied, ih]
    rfl

theorem spanNodes_tidied (spans : List (PlacedSpan α)) :
    spanNodes o p.tidied part (spans.map PlacedSpan.tidied) = spanNodes o p part spans := by
  have hscaling (s : PlacedSpan α) :
      (s.tidied.span.style.scaling == 100) = (s.span.style.scaling == 100) :=
    Scalar.tidy_beq _ _
  cases spans with
  | nil => rfl
  | cons first rest =>
    have hany : (List.map PlacedSpan.tidied (first :: rest)).any
        (fun s => !(s.span.style.scaling == 100)) =
        (first :: rest).any fun s => !(s.span.style.scaling == 100) := by
      rw [List.any_map]
      exact congrArg _ (funext fun s => congrArg _ (hscaling s))
    have hmapM : (List.map PlacedSpan.tidied (first :: rest)).mapM (stretched o p.tidied part) =
        (first :: rest).mapM (stretched o p part) := by
      rw [List.mapM_map]
      exact congrArg (List.mapM · _) (funext (stretched_tidied o p part))
    rw [List.map_cons, spanNodes, spanNodes, ← List.map_cons, hany, hmapM, inners_tidied,
      List.isEmpty_map, show first.tidied.span.style = first.span.style.tidied from rfl,
      styleClass_tidied]
    rfl

/-- A paragraph comes to the same elements with its styles tidied. -/
theorem nodes_tidied : nodes o p.tidied part = nodes o p part := by
  unfold nodes
  rw [selected_tidied, spanNodes_tidied]
  rfl

end Alike

end Layout

end PageSvg
