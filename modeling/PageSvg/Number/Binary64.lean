import PageSvg.Number.Numeral

/-!
# Decimal digits of binary numbers

A finite double is `± mantissa · 2 ^ exponent`, so both of its decimal spellings are computed in
exact integer arithmetic: `Dyadic.shortest` is the shortest decimal inside the interval of reals
that round to the value, the nearest one of that length, and `Dyadic.fixed` rounds the exact value
to a number of decimal places with ties to even. Two shortest decimals may be equally near; a
`Halfway` rule chooses between them.
-/

namespace PageSvg

/-- Which of two equally near neighbours is taken. -/
inductive Halfway
  /-- The one of larger absolute value. -/
  | outward
  /-- The one whose last digit is even. -/
  | even
  deriving DecidableEq, Repr

/-- The nearer of `n` and its successor to a number between them, told how `n + 1 / 2` compares with
that number. -/
def Halfway.choose (rule : Halfway) (n : Nat) : Ordering → Nat
  | .gt => n
  | .lt => n + 1
  | .eq => if rule = .even ∧ n % 2 = 0 then n else n + 1

/-- A finite double: `± mantissa · 2 ^ exponent`; `narrowBelow` says that the next double below
in absolute value is only half a unit away. -/
structure Dyadic where
  negative : Bool
  mantissa : Nat
  exponent : Int
  narrowBelow : Bool
  deriving DecidableEq, Repr

namespace Dyadic

/-- A quotient rounded to the nearest integer, a half to the even neighbour. -/
def roundQuotient (numerator denominator : Nat) : Nat :=
  let quotient := numerator / denominator
  let doubled := 2 * (numerator % denominator)
  if doubled < denominator then quotient
  else if denominator < doubled then quotient + 1
  else if quotient % 2 = 0 then quotient else quotient + 1

/-- Numerator and denominator of `n · 2 ^ exponent`. -/
def fraction (n : Nat) : Int → Nat × Nat
  | .ofNat e => (n * Nat.pow 2 e, 1)
  | .negSucc e => (n, Nat.pow 2 (e + 1))

/-- The value at a fixed number of decimal places. -/
def fixed (x : Dyadic) (places : Nat) : Numeral :=
  let (numerator, denominator) := fraction x.mantissa x.exponent
  .finite x.negative (roundQuotient (numerator * Nat.pow 10 places) denominator) (-(places : Int))

/-- The reals that round to a positive value, in units of `2 ^ exponent`: the value lies at
`middle`, and the ends belong to the interval when `closed`. -/
structure Interval where
  low : Nat
  middle : Nat
  high : Nat
  exponent : Int
  closed : Bool

/-- The rounding interval of the absolute value. -/
def interval (x : Dyadic) : Interval where
  low := if x.narrowBelow then 4 * x.mantissa - 1 else 4 * x.mantissa - 2
  middle := 4 * x.mantissa
  high := 4 * x.mantissa + 2
  exponent := x.exponent - 2
  closed := x.mantissa % 2 == 0

/-- Compares `n · 10 ^ place` with `k · 2 ^ exponent`. -/
def comparePlace (n : Nat) (place : Int) (k : Nat) (exponent : Int) : Ordering :=
  let (numerator, denominator) := fraction k exponent
  match place with
  | .ofNat p => compare (n * Nat.pow 10 p * denominator) numerator
  | .negSucc p => compare (n * denominator) (numerator * Nat.pow 10 (p + 1))

/-- The largest `n` with `n · 10 ^ place ≤ k · 2 ^ exponent`. -/
def floorPlace (place : Int) (k : Nat) (exponent : Int) : Nat :=
  let (numerator, denominator) := fraction k exponent
  match place with
  | .ofNat p => numerator / (denominator * Nat.pow 10 p)
  | .negSucc p => numerator * Nat.pow 10 (p + 1) / denominator

/-- Does `n · 10 ^ place` lie in the interval? -/
def Interval.contains (i : Interval) (n : Nat) (place : Int) : Bool :=
  let low := comparePlace n place i.low i.exponent
  let high := comparePlace n place i.high i.exponent
  (low == .gt || (i.closed && low == .eq)) && (high == .lt || (i.closed && high == .eq))

/-- The neighbour of the middle on the grid of multiples of `10 ^ place` that lies in the interval,
and of two the nearer. -/
def Interval.nearest? (i : Interval) (rule : Halfway) (place : Int) : Option Nat :=
  let below := floorPlace place i.middle i.exponent
  match i.contains below place, i.contains (below + 1) place with
  | false, false => none
  | true, false => some below
  | false, true => some (below + 1)
  | true, true =>
    some (rule.choose below (comparePlace (2 * below + 1) place (2 * i.middle) i.exponent))

/-- The decimal exponent of the leading digit of `k · 2 ^ exponent`, for positive `k`. -/
def leadingPlace (k : Nat) (exponent : Int) : Int :=
  let guess := ((Nat.log2 k : Int) + exponent) * 30103 / 100000
  if comparePlace 1 (guess + 1) k exponent == .gt then guess else guess + 1

/-- The first grid, from coarse to fine, that has a point in the interval. -/
def search (i : Interval) (rule : Halfway) (place : Int) : Nat → Nat × Int
  | 0 => (floorPlace place i.middle i.exponent, place)
  | fuel + 1 =>
    match i.nearest? rule place with
    | some n => (n, place)
    | none => search i rule (place - 1) fuel

/-- Without zeros at the end of the digits. -/
def stripZeros : Nat → Nat → Int → Nat × Int
  | 0, n, place => (n, place)
  | fuel + 1, n, place =>
    if n ≠ 0 ∧ n % 10 = 0 then stripZeros fuel (n / 10) (place + 1) else (n, place)

/-- The shortest decimal that reads back to the value, the nearest one of that length. Seventeen
digits always suffice for a double. -/
def shortest (rule : Halfway) (x : Dyadic) : Numeral :=
  if x.mantissa = 0 then .finite x.negative 0 0
  else
    let i := x.interval
    let (n, place) := search i rule (leadingPlace i.middle i.exponent) 17
    let (n, place) := stripZeros 17 n place
    .finite x.negative n place

end Dyadic

/-- A double, taken apart. -/
inductive Binary64
  | nan
  | infinite (negative : Bool)
  | finite (value : Dyadic)

/-- The fields of the sixty-four bits of a double. -/
def Binary64.ofFloat (x : Float) : Binary64 :=
  let bits := x.toBits.toNat
  let negative := bits / Nat.pow 2 63 == 1
  let exponent : Nat := bits / Nat.pow 2 52 % Nat.pow 2 11
  let fraction : Nat := bits % Nat.pow 2 52
  if exponent = 2047 then if fraction = 0 then .infinite negative else .nan
  else if exponent = 0 then .finite ⟨negative, fraction, -1074, false⟩
  else .finite ⟨negative, Nat.pow 2 52 + fraction, (exponent : Int) - 1075,
    fraction == 0 && 1 < exponent⟩

/-- The shortest numeral that reads back to the double. -/
def Binary64.shortest (rule : Halfway) : Binary64 → Numeral
  | nan => .nan
  | infinite negative => .infinite negative
  | finite value => value.shortest rule

/-- The double at a fixed number of decimal places. -/
def Binary64.fixed (places : Nat) : Binary64 → Numeral
  | nan => .nan
  | infinite negative => .infinite negative
  | finite value => value.fixed places

end PageSvg
