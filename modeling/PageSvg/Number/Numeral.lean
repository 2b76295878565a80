/-!
# Decimal numerals

A number as it is written: a sign, an integer of digits and a power of ten, or one of the
special values. `Numeral.text` writes a numeral in a `Numeral.Style`, which says where positional
notation ends and whether a whole number keeps a decimal point.
-/

namespace PageSvg

/-- A written number; `finite negative digits exponent` stands for `± digits · 10 ^ exponent`. -/
inductive Numeral
  | nan
  | infinite (negative : Bool)
  | finite (negative : Bool) (digits : Nat) (exponent : Int)
  deriving DecidableEq, Repr, Inhabited

namespace Numeral

/-- How numerals are spelled. -/
structure Style where
  /-- Decimal exponents of the leading digit that are written without an exponent part;
  `none` writes every number positionally. -/
  positional : Option (Int × Int)
  /-- A whole number in positional notation ends in `.0`. -/
  wholePoint : Bool
  /-- A positive exponent has a sign. -/
  exponentSign : Bool

/-- Every digit is written out and a whole number has no point. -/
def Style.plain : Style := ⟨none, false, false⟩

/-- Values from `1e-4` up to, but not including, `1e16` are positional, and a positional number
always has a point. -/
def Style.pointed : Style := ⟨some (-4, 15), true, false⟩

/-- The decimal digits of a number. -/
def digitText (n : Nat) : String := String.ofList (Nat.toDigits 10 n)

/-- Digits of `n`, with zeros in front up to the given width. -/
def padded (width n : Nat) : String :=
  let digits := Nat.toDigits 10 n
  String.ofList (List.replicate (width - digits.length) '0' ++ digits)

/-- `digits · 10 ^ exponent` without an exponent part. -/
def positionalText (wholePoint : Bool) (digits : Nat) (exponent : Int) : String :=
  match exponent with
  | .ofNat n => digitText (digits * Nat.pow 10 n) ++ (if wholePoint then ".0" else "")
  | .negSucc n =>
    let unit := Nat.pow 10 (n + 1)
    digitText (digits / unit) ++ "." ++ padded (n + 1) (digits % unit)

/-- An exponent, with a sign if it is positive and `sign` asks for one. -/
def exponentText (sign : Bool) (exponent : Int) : String :=
  (if sign && 0 < exponent then "+" else "") ++ toString exponent

/-- One digit, a point when more follow, and the exponent of the leading digit. -/
def scientificText (exponentSign : Bool) (digits : Nat) (leading : Int) : String :=
  let exponent := "e" ++ exponentText exponentSign leading
  match Nat.toDigits 10 digits with
  | [] => ""
  | first :: [] => first.toString ++ exponent
  | first :: more => first.toString ++ "." ++ String.ofList more ++ exponent

/-- The exponent of the leading digit of `digits · 10 ^ exponent`. -/
def leadingExponent (digits : Nat) (exponent : Int) : Int :=
  exponent + ((Nat.toDigits 10 digits).length : Int) - 1

/-- The absolute value of a finite numeral in a style. -/
def magnitudeText (style : Style) (digits : Nat) (exponent : Int) : String :=
  let leading := leadingExponent digits exponent
  match style.positional with
  | some (low, high) =>
    if digits ≠ 0 ∧ (leading < low ∨ high < leading) then
      scientificText style.exponentSign digits leading
    else positionalText style.wholePoint digits exponent
  | none => positionalText style.wholePoint digits exponent

/-- The spelling of a numeral. -/
def text (style : Style) : Numeral → String
  | nan => "NaN"
  | infinite negative => (if negative then "-" else "") ++ "inf"
  | finite negative digits exponent =>
    (if negative then "-" else "") ++ magnitudeText style digits exponent

/-- Drops the zeros at the end of the digits that stand after the point. -/
def trimDigits : (places digits : Nat) → Nat × Nat
  | 0, digits => (0, digits)
  | places + 1, digits =>
    if digits % 10 = 0 then trimDigits places (digits / 10) else (places + 1, digits)

/-- Without zeros at the end of the decimal places, and without the sign of zero. -/
def trimmed : Numeral → Numeral
  | finite negative digits (.negSucc n) =>
    let (places, digits) := trimDigits (n + 1) digits
    finite (negative && digits != 0) digits (-(places : Int))
  | finite negative digits exponent => finite (negative && digits != 0) digits exponent
  | other => other

end Numeral

end PageSvg
