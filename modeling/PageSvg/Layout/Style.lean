import PageSvg.Options
import PageSvg.Graphics.State
import PageSvg.Scene.Node

/-!
# Text styles

What consecutive runs of text share, and its style declarations.
-/

namespace PageSvg

/-- How the outlines of text are stroked. -/
structure TextStroke (α : Type) where
  rgb : Rgb α
  alpha : α
  width : α
  deriving BEq

/-- The look of a run of text. Sizes are in units of the line. -/
structure TextStyle (α : Type) where
  family : String
  bold : Bool
  italic : Bool
  size : α
  /-- Colour and opacity of the fill; `none` is not filled. -/
  fill : Option (Rgb α × α)
  /-- The definition that paints the fill in place of a colour. -/
  fillReference : Option String
  stroke : Option (TextStroke α)
  letterSpacing : α
  /-- Horizontal scaling in per cent. -/
  scaling : α
  mode : RenderMode
  deriving BEq

namespace TextStyle

variable {α : Type} [Scalar α]

/-- An opacity declaration, unless the opacity is full. -/
def opacity (o : Options α) (property : String) (alpha : α) : List String :=
  if alpha < 1 then [property ++ ":" ++ o.text alpha] else []

/-- The declarations of the fill. -/
def fillDeclarations (o : Options α) (s : TextStyle α) : List String :=
  match s.fillReference, s.fill with
  | some id, _ => ["fill:" ++ Node.reference id]
  | none, some (rgb, alpha) => ("fill:" ++ rgb.css) :: opacity o "fill-opacity" alpha
  | none, none => ["fill:none"]

/-- The declarations of the stroke. -/
def strokeDeclarations (o : Options α) (s : TextStyle α) : List String :=
  match s.stroke with
  | some stroke =>
    ["stroke:" ++ stroke.rgb.css, "stroke-width:" ++ o.text stroke.width] ++
      opacity o "stroke-opacity" stroke.alpha
  | none => []

/-- The style declarations. -/
def css (o : Options α) (s : TextStyle α) : String :=
  String.intercalate ";" <|
    ["font-family:" ++ s.family, "font-size:" ++ o.text s.size ++ "px"] ++
      (if s.bold then ["font-weight:bold"] else []) ++
      (if s.italic then ["font-style:italic"] else []) ++
      ["white-space:pre"] ++ s.fillDeclarations o ++ s.strokeDeclarations o ++
      (if s.letterSpacing == 0 then [] else ["letter-spacing:" ++ o.text s.letterSpacing ++ "px"])

/-- The style of text that is there but not seen. -/
def hidden (s : TextStyle α) : TextStyle α :=
  { s with fill := some (.black, 0), fillReference := none, stroke := none }

end TextStyle

end PageSvg
