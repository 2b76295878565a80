import PageSvg.Color.Rgb

/-!
# Colour spaces

A colour space gives meaning to the components of a colour. The device spaces are built in; other
spaces come with their own conversion and are told apart by an identity, not by what they compute.
-/

namespace PageSvg

/-- A colour space with its own conversion. -/
structure ColorConversion (α : Type) where
  /-- Which space it is. -/
  identity : Nat
  name : String
  components : Nat
  /-- The components of its initial colour. -/
  initial : List α
  toRgb : List α → Rgb α

/-- What the components of a colour mean. -/
inductive ColorSpace (α : Type)
  | deviceGray
  | deviceRgb
  | deviceCmyk
  /-- Patterns that bring their own colours. -/
  | pattern
  /-- Patterns painted in a colour of another space. -/
  | patternOver (base : ColorSpace α)
  | custom (conversion : ColorConversion α)

namespace ColorSpace

variable {α : Type}

instance : Inhabited (ColorSpace α) := ⟨deviceGray⟩

/-- Are two spaces the same? -/
def same : ColorSpace α → ColorSpace α → Bool
  | deviceGray, deviceGray | deviceRgb, deviceRgb | deviceCmyk, deviceCmyk | pattern, pattern =>
    true
  | patternOver a, patternOver b => same a b
  | custom a, custom b => a.identity == b.identity
  | _, _ => false

instance : BEq (ColorSpace α) := ⟨same⟩

/-- The name of a space. -/
def name : ColorSpace α → String
  | deviceGray => "DeviceGray"
  | deviceRgb => "DeviceRGB"
  | deviceCmyk => "DeviceCMYK"
  | pattern | patternOver _ => "Pattern"
  | custom c => c.name

/-- How many components a colour has; for patterns, those of the space beneath. -/
def components : ColorSpace α → Nat
  | deviceGray => 1
  | deviceRgb => 3
  | deviceCmyk => 4
  | pattern => 0
  | patternOver base => base.components
  | custom c => c.components

/-- Are colours of the space patterns? -/
def isPattern : ColorSpace α → Bool
  | pattern | patternOver _ => true
  | _ => false

variable [Scalar α]

/-- The colour that selecting the space sets. -/
def initialRgb : ColorSpace α → Rgb α
  | deviceCmyk => Rgb.ofCmyk 0 0 0 1
  | custom c => c.toRgb c.initial
  | patternOver base => base.initialRgb
  | _ => Rgb.black

/-- The colour of some components, if their number fits the space. -/
def toRgb? : ColorSpace α → List α → Option (Rgb α)
  | deviceGray, [g] => some (Rgb.gray g)
  | deviceRgb, [r, g, b] => some (Rgb.ofUnits r g b)
  | deviceCmyk, [c, m, y, k] => some (Rgb.ofCmyk c m y k)
  | patternOver base, components => base.toRgb? components
  | custom c, components =>
    if components.length = c.components then some (c.toRgb components) else none
  | _, _ => none

/-- The spaces that need no definition, also under their short names. -/
def predefined? : String → Option (ColorSpace α)
  | "DeviceGray" | "G" => some deviceGray
  | "DeviceRGB" | "RGB" => some deviceRgb
  | "DeviceCMYK" | "CMYK" => some deviceCmyk
  | "Pattern" => some pattern
  | _ => none

end ColorSpace

/-- The name of a blend mode in style sheets; nothing for the normal mode and unknown ones. -/
def blendModeCss? : String → Option String
  | "Multiply" => some "multiply"
  | "Screen" => some "screen"
  | "Overlay" => some "overlay"
  | "Darken" => some "darken"
  | "Lighten" => some "lighten"
  | "ColorDodge" => some "color-dodge"
  | "ColorBurn" => some "color-burn"
  | "HardLight" => some "hard-light"
  | "SoftLight" => some "soft-light"
  | "Difference" => some "difference"
  | "Exclusion" => some "exclusion"
  | "Hue" => some "hue"
  | "Saturation" => some "saturation"
  | "Color" => some "color"
  | "Luminosity" => some "luminosity"
  | _ => none

end PageSvg
