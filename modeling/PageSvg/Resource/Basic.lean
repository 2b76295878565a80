import PageSvg.Geometry.Rectangle
import PageSvg.Color.Space
import PageSvg.Content.Operand

/-!
# Resources

Content refers to fonts, colour spaces, images, forms, patterns, shadings and parameter sets by
names, which a resource set resolves. Forms, patterns and glyph procedures may name a resource
set of their own; sets refer to each other by their places in a library, so they may do so in
circles.
-/

namespace PageSvg

/-- The place of a resource set in a library. -/
abbrev SetId := Nat

/-- The text of a string shown in some font. -/
structure DecodedText (α : Type) where
  text : String
  /-- The total advance in thousandths of the font size. -/
  width : α
  /-- The number of character codes. -/
  glyphCount : Nat

/-- Glyphs drawn by content streams. -/
structure GlyphProcedures (α : Type) where
  /-- From glyph space to text space. -/
  matrix : Matrix α
  /-- The content of each one-byte code that has a glyph. -/
  content : UInt8 → Option (ContentStream α)
  /-- The resources of the glyphs, if the font has its own. -/
  resources : Option SetId

/-- A font, as far as layout needs it. -/
structure Font (α : Type) where
  /-- Fonts of one identity are the same font. -/
  id : String
  family : String
  bold : Bool
  italic : Bool
  /-- Word spacing applies to the code of the space; it does not in multi-byte encodings. -/
  wordSpacing : Bool
  decode : List UInt8 → DecodedText α
  procedures : Option (GlyphProcedures α)

namespace Font

variable {α : Type}

instance : BEq (Font α) := ⟨fun f g => f.id == g.id⟩

/-- A font that stands in for a missing one: each byte is a Latin-1 character of one width. -/
def fallback [Scalar α] (family : String) (advance : α) : Font α where
  id := "fallback"
  family := family
  bold := false
  italic := false
  wordSpacing := true
  decode bytes :=
    { text := String.ofList (bytes.map fun b => Char.ofNat b.toNat)
      width := Scalar.ofInt bytes.length * advance
      glyphCount := bytes.length }
  procedures := none

/-- The font of text whose font is missing. -/
def standIn [Scalar α] : Font α := fallback "sans-serif" 500

end Font

/-- An image, told from others by a key. -/
structure Image (α : Type) where
  key : String
  /-- Where its data is. -/
  url : Except (Fault α) String
  interpolate : Bool
  /-- The image is a stencil for the fill colour. -/
  isMask : Bool

/-- How a transparency group is composed with what lies beneath it. -/
structure TransparencyGroup where
  isolated : Bool

/-- A piece of content that is drawn as a whole. -/
structure Form (α : Type) where
  id : String
  content : ContentStream α
  matrix : Matrix α
  bbox : Option (Rectangle α)
  resources : Option SetId
  group : Option TransparencyGroup

/-- An external object. -/
inductive XObject (α : Type)
  | form (f : Form α)
  | image (i : Image α)

/-- A colour at an offset along a gradient. -/
structure GradientStop (α : Type) where
  offset : α
  color : Rgb α

/-- Where a gradient runs. -/
inductive ShadingKind (α : Type)
  /-- Between two points. -/
  | axial (start stop : α × α) (extend : Bool × Bool)
  /-- Between two circles. -/
  | radial (start : α × α) (startRadius : α) (stop : α × α) (stopRadius : α) (extend : Bool × Bool)
  /-- A shading that no gradient expresses. -/
  | other

/-- A smooth transition of colours. -/
structure Shading (α : Type) where
  id : String
  kind : ShadingKind α
  stops : List (GradientStop α)
  background : Option (Rgb α)
  bbox : Option (Rectangle α)

/-- The mean of the colours of the stops; without stops, the background or black. -/
def Shading.average {α : Type} [Scalar α] (s : Shading α) : Rgb α :=
  if s.stops.isEmpty then s.background.getD .black
  else
    let sum (part : Rgb α → α) : α := s.stops.foldl (fun total stop => total + part stop.color) 0
    let count : α := Scalar.ofInt s.stops.length
    ⟨sum Rgb.r / count, sum Rgb.g / count, sum Rgb.b / count⟩

/-- A cell repeated over the plane. -/
structure Tiling (α : Type) where
  id : String
  content : ContentStream α
  matrix : Matrix α
  bbox : Rectangle α
  xStep : α
  yStep : α
  /-- The cell takes its colour from where it is used. -/
  uncolored : Bool
  resources : Option SetId

/-- What a surface can be painted with besides plain colours. -/
inductive Pattern (α : Type)
  | tiling (t : Tiling α)
  | shading (s : Shading α) (matrix : Matrix α)

/-- What the strength of a soft mask is taken from. -/
inductive MaskKind
  | luminosity
  | alpha
  deriving DecidableEq, Repr

/-- The name of a kind of mask in descriptions. -/
def MaskKind.name : MaskKind → String
  | luminosity => "Luminosity"
  | alpha => "Alpha"

/-- A mask drawn by a transparency group. -/
structure SoftMask (α : Type) where
  kind : MaskKind
  group : Form α
  backdrop : Option (Rgb α)

/-- A set of graphics parameters under one name. -/
structure GraphicsParameters (α : Type) where
  lineWidth : Option α
  lineCap : Option Int64
  lineJoin : Option Int64
  miterLimit : Option α
  dash : Option (List α × α)
  fillAlpha : Option α
  strokeAlpha : Option α
  blendMode : Option String
  /-- `some none` takes the mask away. -/
  softMask : Option (Option (SoftMask α))
  font : Option (Font α × α)

/-- Kinds of resources that pages share. -/
inductive SharedKind
  | font
  | colorSpace
  deriving DecidableEq, Repr

/-- What names mean in some content. -/
structure ResourceSet (α : Type) where
  fonts : Keyed (Font α) := []
  colorSpaces : Keyed (ColorSpace α) := []
  patterns : Keyed (Pattern α) := []
  shadings : Keyed (Shading α) := []
  xobjects : Keyed (XObject α) := []
  parameters : Keyed (GraphicsParameters α) := []
  properties : Keyed (Keyed (Operand α)) := []
  /-- The number of the object behind a name, which pages that share the object agree on. -/
  keys : List ((SharedKind × String) × Nat) := []
  /-- Decodes an inline image. -/
  inlineImage : Keyed (Operand α) → List UInt8 → Option (Image α) := fun _ _ => none

/-- The number of the object behind a name. -/
def ResourceSet.key? {α : Type} (r : ResourceSet α) (kind : SharedKind) (name : String) :
    Option Nat :=
  r.keys.lookup (kind, name)

/-- The resource sets of a document. -/
abbrev Library (α : Type) := Array (ResourceSet α)

/-- The resource set at a place; an empty one where there is none. -/
def Library.set {α : Type} (library : Library α) (id : SetId) : ResourceSet α :=
  library.getD id {}

end PageSvg
