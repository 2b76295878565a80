import PageSvg.Number.Scalar

/-!
# Colours

Colours on screen have red, green and blue parts from zero to one and are written in the shortest
form that style sheets know.
-/

namespace PageSvg

/-- A colour by its red, green and blue parts. -/
structure Rgb (α : Type) where
  r : α
  g : α
  b : α
  deriving BEq, Inhabited

namespace Rgb

variable {α : Type} [Scalar α]

/-- A part of a colour confined to its range; what is not a number counts as zero. -/
def unit (x : α) : α := if Scalar.isNaN x then 0 else Scalar.clamp 0 1 x

def black : Rgb α := ⟨0, 0, 0⟩

def white : Rgb α := ⟨1, 1, 1⟩

/-- A grey level. -/
def gray (level : α) : Rgb α := ⟨unit level, unit level, unit level⟩

/-- The colour of three parts, each confined to its range. -/
def ofUnits (r g b : α) : Rgb α := ⟨unit r, unit g, unit b⟩

/-- What cyan, magenta and yellow leave of the light, darkened by black. -/
def ofCmyk (c m y k : α) : Rgb α :=
  let k := unit k
  ⟨(1 - unit c) * (1 - k), (1 - unit m) * (1 - k), (1 - unit y) * (1 - k)⟩

/-- The brightness of a colour. -/
def luminance (c : Rgb α) : α := 0.299 * c.r + 0.587 * c.g + 0.114 * c.b

/-- A part in two hundred and fifty-five steps. -/
def step (x : α) : Nat := (Scalar.truncate (Scalar.round (unit x * 255))).toInt.toNat

/-- Two hexadecimal digits. -/
def hexPair (n : Nat) : List Char := [Nat.digitChar (n / 16), Nat.digitChar (n % 16)]

/-- Are the two hexadecimal digits equal? -/
def isDouble (n : Nat) : Bool := n / 16 == n % 16

/-- A colour in a style sheet: one digit for each part where that is exact, two otherwise. -/
def css (c : Rgb α) : String :=
  let parts := [step c.r, step c.g, step c.b]
  String.ofList <| '#' ::
    if parts.all isDouble then parts.map fun n => Nat.digitChar (n % 16) else parts.flatMap hexPair

end Rgb

end PageSvg
