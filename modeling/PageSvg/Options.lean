import PageSvg.Fault

/-!
# Options of a conversion

The tuning of a conversion, its defaults, the ranges it is held to, and the rounding of numbers
that it asks for.
-/

namespace PageSvg

/-- The tuning of a conversion. -/
structure Options (α : Type) where
  /-- The width of the thinnest line, in device units. -/
  minStrokeWidth : α
  /-- Decimal places of written coordinates. -/
  precision : Nat
  /-- A run continues a line of text when it starts within this distance of its end, in device
  units. -/
  textMergeDistance : α
  /-- Gaps below this fraction of the font size are dropped. -/
  mergeSpaceEm : α
  /-- Gaps below this distance in device units are dropped. -/
  minSpacePx : α
  /-- Invisible text is written as transparent text. -/
  includeHiddenText : Bool
  /-- Forms, patterns, masks and glyphs may nest this deep. -/
  maxNestingDepth : Nat
  /-- The finished tree is optimised. -/
  optimizeAttributes : Bool
  /-- The optimiser groups at least so many siblings. -/
  minGroupRun : Nat
  /-- Content inside a plain rectangle is not clipped to it. -/
  rectClipFastPath : Bool

namespace Options

variable {α : Type} [Scalar α]

/-- The options when nothing is chosen. -/
def standard : Options α where
  minStrokeWidth := 0.5
  precision := 3
  textMergeDistance := 20
  mergeSpaceEm := 0.02
  minSpacePx := 0.1
  includeHiddenText := true
  maxNestingDepth := 24
  optimizeAttributes := true
  minGroupRun := 3
  rectClipFastPath := true

/-- The options themselves when each is in its range, and the first that is not otherwise. -/
def validated (o : Options α) : Except (Fault α) (Options α) :=
  if !(decide (0 < o.minStrokeWidth)) then
    .error (.invalidOption "min_stroke_width must be positive")
  else if 10 < o.precision then
    .error (.invalidOption "precision must be at most 10 decimal places")
  else if o.textMergeDistance < 0 ∨ o.mergeSpaceEm < 0 ∨ o.minSpacePx < 0 then
    .error (.invalidOption "text merge thresholds must not be negative")
  else if o.maxNestingDepth = 0 then
    .error (.invalidOption "max_nesting_depth must be at least 1")
  else if o.minGroupRun < 2 then
    .error (.invalidOption "min_group_run must be at least 2")
  else .ok o

end Options

/-- A number with at most the given decimal places and no zeros at their end. -/
def Scalar.placesText {α : Type} [Scalar α] (places : Nat) (x : α) : String :=
  (Scalar.fixed places x).trimmed.text .plain

namespace Options

variable {α : Type} [Scalar α]

/-- A coordinate rounded to the precision; zero has no sign. -/
def round (o : Options α) (x : α) : α :=
  let factor : α := Scalar.power 10 o.precision
  let rounded := Scalar.round (x * factor) / factor
  if rounded == 0 then 0 else rounded

/-- The text of a coordinate. -/
def text (o : Options α) (x : α) : String := Scalar.placesText o.precision (o.round x)

end Options

end PageSvg
