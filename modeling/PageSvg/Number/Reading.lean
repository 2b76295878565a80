import PageSvg.Number.Scalar

/-!
# Reading numbers

Numbers as they are typed: a sign, digits with an optional point and an optional power of ten, or
one of the special values in letters of either case. The whole text must be a number.
-/

namespace PageSvg.Reading

/-- Takes a sign off the front of a text. -/
def takeSign : List Char → Bool × List Char
  | '-' :: rest => (true, rest)
  | '+' :: rest => (false, rest)
  | rest => (false, rest)

/-- The value of decimal digits. -/
def decimal (digits : List Char) : Nat := digits.foldl (fun n c => 10 * n + (c.toNat - '0'.toNat)) 0

/-- The value of a text that is digits and nothing else. -/
def digits? (text : List Char) : Option Nat :=
  if !text.isEmpty && text.all Char.isDigit then some (decimal text) else none

/-- An integer. -/
def integer? (text : List Char) : Option Int := do
  let (negative, digits) := takeSign text
  let n ← digits? digits
  return if negative then -(n : Int) else n

/-- A natural number; only a plus sign may stand before it. -/
def natural? : List Char → Option Nat
  | '+' :: rest => digits? rest
  | text => digits? text

/-- The power of ten behind the digits of a number; zero where there is none. -/
def exponent? : List Char → Option Int
  | [] => some 0
  | c :: rest => if c = 'e' ∨ c = 'E' then integer? rest else none

/-- The decimal places behind a point, if there is one, and the text after them. -/
def takePlaces : List Char → List Char × List Char
  | '.' :: rest => (rest.takeWhile Char.isDigit, rest.dropWhile Char.isDigit)
  | rest => ([], rest)

variable {α : Type} [Scalar α]

/-- An exponent beyond these bounds, widened by the number of digits, leaves the range of doubles
whatever the digits are. -/
def exponentBound : Nat := 2000

/-- The number `n · 10 ^ exponent`, where `n` has so many digits. -/
def scaled (n count : Nat) (exponent : Int) : α :=
  let bound : Int := exponentBound + count
  let exponent := Max.max (-bound) (Min.min bound exponent)
  OfScientific.ofScientific n (decide (exponent < 0)) exponent.natAbs

/-- A number without a sign. -/
def magnitude? (text : List Char) : Option α :=
  let letters := text.map Char.toLower
  if letters = "inf".toList ∨ letters = "infinity".toList then some (1 / 0)
  else if letters = "nan".toList then some (0 / 0)
  else do
    let whole := text.takeWhile Char.isDigit
    let (places, rest) := takePlaces (text.dropWhile Char.isDigit)
    if whole.isEmpty && places.isEmpty then none
    let exponent ← exponent? rest
    return scaled (decimal (whole ++ places)) (whole ++ places).length (exponent - places.length)

/-- A number. -/
def scalar? (text : List Char) : Option α := do
  let (negative, unsigned) := takeSign text
  let x ← magnitude? unsigned
  return if negative then -x else x

end PageSvg.Reading
