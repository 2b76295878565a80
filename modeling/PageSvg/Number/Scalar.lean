import PageSvg.Number.Binary64

/-!
# Numbers of a page

Coordinates, widths and colours are computed in some type of numbers. `Scalar` lists what the page
geometry asks of it; doubles are the instance that runs. Every comparison with a value that is not
a number fails, which the operations below take into account.
-/

namespace PageSvg

/-- A type of numbers in which pages are computed. -/
class Scalar (α : Type) extends
    Add α, Sub α, Mul α, Div α, Neg α, LT α, LE α, BEq α, OfScientific α where
  /-- The number nearest to an integer. -/
  ofInt : Int → α
  /-- The absolute value. -/
  abs : α → α
  /-- The square root. -/
  sqrt : α → α
  /-- The nearest whole number, a half away from zero. -/
  round : α → α
  /-- The whole part, within the range of sixty-four bits; zero for what is not a number. -/
  truncate : α → Int64
  /-- The shortest numeral that stands for the number. -/
  shortest : Halfway → α → Numeral
  /-- The number at a fixed count of decimal places, a half to the even neighbour. -/
  fixed : Nat → α → Numeral
  decidableLT : DecidableLT α
  decidableLE : DecidableLE α

attribute [reducible, instance] Scalar.decidableLT Scalar.decidableLE

instance : Scalar Float where
  ofInt := Float.ofInt
  abs := Float.abs
  sqrt := Float.sqrt
  round := Float.round
  truncate := Float.toInt64
  shortest rule x := (Binary64.ofFloat x).shortest rule
  fixed places x := (Binary64.ofFloat x).fixed places
  decidableLT := inferInstance
  decidableLE := inferInstance

namespace Scalar

variable {α : Type} [Scalar α]

/-- Literals are integers of the number type. -/
instance (n : Nat) : OfNat α n := ⟨ofInt n⟩

instance : Inhabited α := ⟨0⟩

/-- The one kind of number that differs from itself. -/
def isNaN (x : α) : Bool := !(x == x)

/-- Neither infinite nor undefined. -/
def isFinite (x : α) : Bool := !isNaN (x - x)

/-- The smaller number; an undefined operand is ignored. -/
def min (x y : α) : α :=
  if isNaN x then y else if y < x then y else x

/-- The larger number; an undefined operand is ignored. -/
def max (x y : α) : α :=
  if isNaN x then y else if x < y then y else x

/-- Confines a number to an interval; an undefined number stays as it is. -/
def clamp (low high x : α) : α :=
  if x < low then low else if high < x then high else x

/-- A power by repeated squaring, taking the binary digits of the exponent from the lowest. -/
def power (x : α) (n : Nat) : α :=
  go x 1 n
where
  go (square product : α) (n : Nat) : α :=
    let product := if n % 2 = 1 then product * square else product
    if n < 2 then product else go (square * square) product (n / 2)
  termination_by n

/-- The digits with every place written out. -/
def plainText (x : α) : String := (shortest .outward x).text .plain

/-- The digits with a point, or with an exponent for very small and very large numbers. -/
def pointedText (x : α) : String := (shortest .outward x).text .pointed

end Scalar

end PageSvg
