import PageSvg.Layout.Style

/-!
# Paragraphs

Runs of text are gathered into paragraphs. The matrix under which a run is shown is split into a
uniform scale, a position inside it and a rest; runs on one line share scale, height and rest, and
differ in their horizontal position alone. A run that begins near the end of the last one on the
same line continues its paragraph, and the gap between the two becomes space before it.
-/

namespace PageSvg

/-- Text of one style. -/
structure Span (α : Type) where
  text : String
  /-- The advance, without the spaces. -/
  width : α
  /-- The extra space before each character. -/
  spaces : List α
  style : TextStyle α

/-- The advance with all extra spaces. -/
def Span.extent {α : Type} [Scalar α] (s : Span α) : α := s.width + s.spaces.foldl (· + ·) 0

/-- What becomes one element of text. -/
structure Paragraph (α : Type) where
  x : α
  y : α
  /-- What the scale and the position leave of the matrix. -/
  transform : Matrix α
  /-- The spans, the last one first. -/
  recent : List (Span α) := []
  /-- Drawn glyphs, in the place of spans. -/
  glyphs? : Option (List Node) := none

/-- The spans in order. -/
def Paragraph.spans {α : Type} (p : Paragraph α) : List (Span α) := p.recent.reverse

/-- The line of the open paragraph. -/
structure Line (α : Type) where
  scale : α
  y : α
  transform : Matrix α

namespace Line

variable {α : Type} [Scalar α]

/-- The relative tolerance within which lines are the same. -/
def tolerance : α := 1e-6

/-- Are two numbers equal within the tolerance? -/
def close (x y : α) : Bool :=
  Scalar.abs (x - y) ≤ tolerance * (1 + Scalar.max (Scalar.abs x) (Scalar.abs y))

/-- Is it the same line? -/
def continues (l k : Line α) : Bool :=
  close l.scale k.scale && close l.y k.y && l.transform.approxEq k.transform tolerance

end Line

/-- The text shown so far. -/
structure TextLayout (α : Type) where
  /-- The paragraphs, the last one first. -/
  recent : List (Paragraph α)
  /-- The line of the last paragraph while runs may continue it. -/
  line : Option (Line α)
  /-- The end of the last run. -/
  cursor : α
  /-- The gap since the last run. -/
  pending : α

namespace TextLayout

variable {α : Type} [Scalar α]

/-- No text. -/
def empty : TextLayout α := ⟨[], none, 0, 0⟩

/-- The paragraphs in order. -/
def paragraphs (t : TextLayout α) : List (Paragraph α) := t.recent.reverse

/-- Is there no paragraph? -/
def isEmpty (t : TextLayout α) : Bool := t.recent.isEmpty

/-- The scale of the line, one before the first position. -/
def scale (t : TextLayout α) : α := (t.line.map (·.scale)).getD 1

/-- Is the last paragraph made of drawn glyphs? -/
def endsInGlyphs (t : TextLayout α) : Bool := t.recent.head?.any fun p => p.glyphs?.isSome

/-- Moves to the position of a matrix. On the same line and near the end of the last run, the
paragraph goes on and the distance adds to the gap; otherwise a new paragraph begins. -/
def position (o : Options α) (t : TextLayout α) (m : Matrix α) : TextLayout α :=
  let p := m.splitPlacement
  let line : Line α := ⟨p.scale, p.y, p.rest⟩
  let gap := p.x - t.cursor
  if t.line.any (·.continues line) && Scalar.abs gap < o.textMergeDistance && !t.endsInGlyphs then
    { t with pending := t.pending + gap, cursor := p.x }
  else
    { recent := { x := p.x, y := p.y, transform := p.rest } :: t.recent
      line := some line
      cursor := p.x
      pending := 0 }

/-- The gap before a run of a style: gaps that are only kerning are dropped. -/
def leadingSpace (o : Options α) (pending : α) (style : TextStyle α) : α :=
  let threshold := Scalar.max (o.mergeSpaceEm * style.size) o.minSpacePx
  if Scalar.abs pending < threshold then 0 else pending

/-- Adds a run to spans: to the last one if that has its style, and as a new one otherwise. -/
def addSpan (spans : List (Span α)) (text : String) (width space : α) (style : TextStyle α) :
    List (Span α) :=
  let spaces := space :: List.replicate (text.length - 1) 0
  match spans with
  | last :: rest =>
    if last.style == style then
      { last with
        text := last.text ++ text
        width := last.width + width
        spaces := last.spaces ++ spaces } :: rest
    else ⟨text, width, spaces, style⟩ :: last :: rest
  | [] => [⟨text, width, spaces, style⟩]

/-- Adds a run with its advance at the current position. A run without characters moves nothing:
the next position makes its advance part of the gap. -/
def addText (o : Options α) (t : TextLayout α) (text : String) (width : α) (style : TextStyle α) :
    TextLayout α :=
  let t := if t.line.isNone then t.position o .identity else t
  if text.isEmpty then t
  else
    let space := leadingSpace o t.pending style
    { t with
      recent := t.recent.modifyHead fun p =>
        { p with recent := addSpan p.recent text width space style }
      cursor := t.cursor + width
      pending := 0 }

/-- Adds drawn glyphs as a paragraph of their own. -/
def addGlyphs (t : TextLayout α) (nodes : List Node) : TextLayout α :=
  if nodes.isEmpty then t
  else
    { t with
      recent := { x := 0, y := 0, transform := .identity, glyphs? := some nodes } :: t.recent
      line := none
      pending := 0 }

end TextLayout

end PageSvg
