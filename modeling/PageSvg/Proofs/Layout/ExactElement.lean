import PageSvg.Layout.Element

/-!
# Elements of text before rounding

The elements of a paragraph hold numbers as they are written. Here they are taken apart into exact
elements, which say where the characters are placed, and the writing of those: numbers are rounded
there, and offsets after the last one that matters are left out.
-/

namespace PageSvg.Layout

variable {α : Type} [Scalar α]

/-- A text and what places its characters. -/
structure Placing (α : Type) where
  /-- The place of the first character, unless it follows what comes before. -/
  x : Option α
  /-- What each character is moved by from where it would stand. -/
  offsets : List α
  span : Span α

/-- An element of text. -/
structure TextElement (α : Type) where
  /-- The place of the first character. -/
  x : α
  /-- The text, or the texts of its parts. -/
  pieces : List (Placing α)
  /-- The text is stretched to its length. -/
  stretched : Bool

namespace Placing

/-- A span at a place of its own: the space before its first character is part of the place. -/
def own (s : PlacedSpan α) : Placing α := ⟨some s.x, innerSpaces s.span.spaces, s.span⟩

/-- A span that follows the one before. -/
def following (s : PlacedSpan α) : Placing α := ⟨none, s.span.spaces, s.span⟩

/-- The parts of an element after the span with the number `last`. -/
def parts (last : Nat) : List (PlacedSpan α) → List (Placing α)
  | [] => []
  | s :: rest => (if s.index != last + 1 then own s else following s) :: parts s.index rest

end Placing

namespace TextElement

/-- A span as an element of its own. -/
def alone (stretched : Bool) (s : PlacedSpan α) : TextElement α :=
  ⟨s.x, [⟨none, innerSpaces s.span.spaces, s.span⟩], stretched⟩

/-- The elements of some spans. -/
def ofSpans : List (PlacedSpan α) → List (TextElement α)
  | [] => []
  | first :: rest =>
    if (first :: rest).any fun s => !(s.span.style.scaling == 100) then
      (first :: rest).map (alone true)
    else
      [⟨first.x, ⟨none, innerSpaces first.span.spaces, first.span⟩ :: Placing.parts first.index rest,
        false⟩]

section Writing

variable (o : Options α) (p : Paragraph α) (part : TextPart)

/-- Writes a part of an element. -/
def writePart (piece : Placing α) : StateM Definitions Node := do
  let style ← styleClass o part piece.span.style
  return {
    tag := "tspan"
    attrs :=
      [("class", style)] ++ optional "x" (piece.x.map o.text) ++
        optional "dx" (offsets? o piece.offsets)
    text := some piece.span.text }

/-- Writes an element: a text of its own, stretched or not, or a text made of parts. -/
def write (e : TextElement α) : StateM Definitions Node := do
  let place := [("x", o.text e.x), ("y", o.text p.y)] ++ optional "transform" (transform? o p)
  match e.pieces with
  | [piece] =>
    let style ← styleClass o part piece.span.style
    let dx := optional "dx" (offsets? o piece.offsets)
    let attrs :=
      if e.stretched then
        [("class", style)] ++ place ++ dx ++
          [("textLength", o.text piece.span.width), ("lengthAdjust", "spacingAndGlyphs")]
      else place ++ [("class", style)] ++ dx
    return { tag := "text", attrs := attrs, text := some piece.span.text }
  | pieces => return { tag := "text", attrs := place, children := ← pieces.mapM (writePart o part) }

theorem writePart_parts (last : Nat) (s : PlacedSpan α) :
    writePart o part (if s.index != last + 1 then .own s else .following s) =
      inner o part (some last) s := by
  unfold writePart inner
  cases h : s.index != last + 1 with
  | true => simp [Placing.own, h, optional]
  | false => simp [Placing.following, h, optional]

theorem mapM_parts (last : Nat) (spans : List (PlacedSpan α)) :
    (Placing.parts last spans).mapM (writePart o part) = inners o part (some last) spans := by
  induction spans generalizing last with
  | nil => rfl
  | cons s rest ih =>
    rw [Placing.parts, List.mapM_cons, ih, writePart_parts]
    rfl

/-- **The elements of a paragraph are its exact elements, written.** -/
theorem nodes_eq_mapM_write (h : p.glyphs? = none) :
    nodes o p part = (ofSpans (selected p part)).mapM (write o p part) := by
  unfold nodes
  rw [h]
  show spanNodes o p part (selected p part) = _
  cases selected p part with
  | nil => rfl
  | cons first rest =>
    rw [spanNodes, ofSpans]
    by_cases hstretched : ((first :: rest).any fun s => !(s.span.style.scaling == 100)) = true
    · rw [if_pos hstretched, if_pos hstretched, List.mapM_map]
      rfl
    · rw [if_neg hstretched, if_neg hstretched, List.mapM_cons, List.mapM_nil]
      cases rest with
      | nil => rfl
      | cons second rest =>
        have hinners : (⟨none, innerSpaces first.span.spaces, first.span⟩ ::
              Placing.parts first.index (second :: rest)).mapM (writePart o part) =
            inners o part none (first :: second :: rest) := by
          rw [List.mapM_cons, mapM_parts]
          rfl
        rw [← hinners]
        rfl

end Writing

end TextElement

end PageSvg.Layout
