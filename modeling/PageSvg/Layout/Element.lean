import PageSvg.Geometry.Transform
import PageSvg.Layout.Paragraph
import PageSvg.Scene.Definitions

/-!
# Elements of text

A paragraph becomes one element of text with a part for each style. Spans are selected by how
they are rendered; spans left out move the following ones to positions of their own. Where text is
stretched, each span is an element of a given length.
-/

namespace PageSvg

/-- Which spans are written. -/
inductive TextPart
  | visible
  /-- Neither filled, nor stroked, nor part of the clip region. -/
  | invisible
  /-- What becomes part of the clip region. -/
  | clip
  deriving DecidableEq, Repr

/-- Does the part take spans of a render mode? -/
def TextPart.includes (part : TextPart) (mode : RenderMode) : Bool :=
  match part with
  | visible => !mode.isInvisible
  | invisible => mode.isInvisible && !mode.clips
  | clip => mode.clips

namespace Layout

variable {α : Type} [Scalar α]

/-- A span with its number and the start of its first character. -/
structure PlacedSpan (α : Type) where
  index : Nat
  x : α
  span : Span α

/-- Places spans one after the other. -/
def placeFrom (origin : α) (index : Nat) : List (Span α) → List (PlacedSpan α)
  | [] => []
  | s :: rest =>
    ⟨index, origin + s.spaces.headD 0, s⟩ :: placeFrom (origin + s.extent) (index + 1) rest

/-- The spans of a paragraph with their places. -/
def placed (p : Paragraph α) : List (PlacedSpan α) := placeFrom p.x 0 p.spans

/-- The spans of a part. -/
def selected (p : Paragraph α) (part : TextPart) : List (PlacedSpan α) :=
  (placed p).filter fun s => part.includes s.span.style.mode

/-- The spaces inside a span whose first character is placed by itself. -/
def innerSpaces : List α → List α
  | [] => []
  | _ :: rest => 0 :: rest

/-- The offsets of characters, up to the last one that is not zero. -/
def offsets? (o : Options α) (spaces : List α) : Option String :=
  let texts := ((spaces.map o.text).reverse.dropWhile (· == "0")).reverse
  if texts.isEmpty then none else some (String.intercalate " " texts)

/-- An attribute that may be absent. -/
def optional (name : String) : Option String → List (String × String)
  | some value => [(name, value)]
  | none => []

/-- The class of a style in a part. -/
def styleClass (o : Options α) (part : TextPart) (style : TextStyle α) :
    StateM Definitions String := fun d =>
  d.styleClass ((if part = .invisible then style.hidden else style).css o)

/-- The transform of a paragraph, if it has one. -/
def transform? (o : Options α) (p : Paragraph α) : Option String :=
  if p.transform.isIdentity then none else some (p.transform.text o)

/-- A stretched span as an element of its own. -/
def stretched (o : Options α) (p : Paragraph α) (part : TextPart) (s : PlacedSpan α) :
    StateM Definitions Node := do
  let style ← styleClass o part s.span.style
  return {
    tag := "text"
    attrs :=
      [("class", style), ("x", o.text s.x), ("y", o.text p.y)] ++
        optional "transform" (transform? o p) ++
        optional "dx" (offsets? o (innerSpaces s.span.spaces)) ++
        [("textLength", o.text s.span.width), ("lengthAdjust", "spacingAndGlyphs")]
    text := some s.span.text }

/-- A part of an element, after the span with the number `last`, if any. It is placed by itself
when spans have been left out before it. -/
def inner (o : Options α) (part : TextPart) (last : Option Nat) (s : PlacedSpan α) :
    StateM Definitions Node := do
  let style ← styleClass o part s.span.style
  let apart := last.any fun last => s.index != last + 1
  let spaces := if apart || last.isNone then innerSpaces s.span.spaces else s.span.spaces
  return {
    tag := "tspan"
    attrs :=
      [("class", style)] ++ (if apart then [("x", o.text s.x)] else []) ++
        optional "dx" (offsets? o spaces)
    text := some s.span.text }

/-- The parts of an element. -/
def inners (o : Options α) (part : TextPart) (last : Option Nat) :
    List (PlacedSpan α) → StateM Definitions (List Node)
  | [] => return []
  | s :: rest => do
    let node ← inner o part last s
    let nodes ← inners o part (some s.index) rest
    return node :: nodes

/-- The elements of the selected spans of a text paragraph. -/
def spanNodes (o : Options α) (p : Paragraph α) (part : TextPart) :
    List (PlacedSpan α) → StateM Definitions (List Node)
  | [] => return []
  | first :: rest => do
    if (first :: rest).any fun s => !(s.span.style.scaling == 100) then
      (first :: rest).mapM (stretched o p part)
    else
      let place :=
        [("x", o.text first.x), ("y", o.text p.y)] ++ optional "transform" (transform? o p)
      if rest.isEmpty then
        let style ← styleClass o part first.span.style
        return [{
          tag := "text"
          attrs := place ++ [("class", style)] ++
            optional "dx" (offsets? o (innerSpaces first.span.spaces))
          text := some first.span.text }]
      else
        return [{ tag := "text", attrs := place, children := ← inners o part none (first :: rest) }]

/-- The elements of a paragraph in a part. Drawn glyphs are visible. -/
def nodes (o : Options α) (p : Paragraph α) (part : TextPart) : StateM Definitions (List Node) :=
  match p.glyphs? with
  | some nodes => return if part = .visible then nodes else []
  | none => spanNodes o p part (selected p part)

end Layout

end PageSvg
