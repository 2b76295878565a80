/-!
# Bytes of a content stream

Blanks separate tokens, delimiters open or close one, and all other bytes are regular.
-/

namespace PageSvg.Content

/-- Space, tab, line feed, carriage return, form feed and NUL. -/
def isBlank (b : UInt8) : Bool :=
  b == 0x20 || b == 0x09 || b == 0x0D || b == 0x0A || b == 0x00 || b == 0x0C

/-- Parentheses, angle brackets, square brackets, braces, the slash and the per cent sign. -/
def isDelimiter (b : UInt8) : Bool :=
  b == 0x28 || b == 0x29 || b == 0x3C || b == 0x3E || b == 0x5B || b == 0x5D ||
    b == 0x7B || b == 0x7D || b == 0x2F || b == 0x25

/-- A byte that may stand inside a word. -/
def isRegular (b : UInt8) : Bool := !isBlank b && !isDelimiter b

/-- A line feed or a carriage return. -/
def isLineEnd (b : UInt8) : Bool := b == 0x0A || b == 0x0D

/-- A decimal digit. -/
def isDigit (b : UInt8) : Bool := 0x30 ≤ b && b ≤ 0x39

/-- The value of a hexadecimal digit. -/
def hexDigit? (b : UInt8) : Option UInt8 :=
  if 0x30 ≤ b ∧ b ≤ 0x39 then some (b - 0x30)
  else if 0x61 ≤ b ∧ b ≤ 0x66 then some (b - 0x61 + 10)
  else if 0x41 ≤ b ∧ b ≤ 0x46 then some (b - 0x41 + 10)
  else none

/-- The value of an octal digit. -/
def octalDigit? (b : UInt8) : Option UInt8 :=
  if 0x30 ≤ b ∧ b ≤ 0x37 then some (b - 0x30) else none

/-- The bytes of an ASCII word. -/
def word (s : String) : List UInt8 := s.toList.map fun c => UInt8.ofNat c.toNat

/-- The number that decimal digits write. -/
def decimal (digits : List UInt8) : Nat :=
  digits.foldl (fun n b => 10 * n + (b - 0x30).toNat) 0

end PageSvg.Content
