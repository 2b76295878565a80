/-!
# Text from bytes

Bytes are read as UTF-8. A character is read byte by byte: its first byte fixes how many more are
owed and in which range the next one must lie. A byte outside that range ends the attempt, the
bytes of the attempt count as one replacement character, and the byte itself is read afresh.
-/

namespace PageSvg.Utf8

/-- Stands for bytes that are no character. -/
def replacement : Char := '\uFFFD'

/-- A character under way: its bits so far, the bytes still owed, and the range of the next. -/
structure Partial where
  bits : Nat
  owed : Nat
  low : UInt8 := 0x80
  high : UInt8 := 0xBF

/-- What a byte means between two characters. -/
inductive Lead
  | character (c : Char)
  | opening (p : Partial)
  | invalid

/-- The meaning of the first byte of a character. -/
def lead (b : UInt8) : Lead :=
  let n := b.toNat
  if n < 0x80 then .character (Char.ofNat n)
  else if n < 0xC2 then .invalid
  else if n < 0xE0 then .opening ⟨n - 0xC0, 1, 0x80, 0xBF⟩
  else if n = 0xE0 then .opening ⟨0, 2, 0xA0, 0xBF⟩
  else if n = 0xED then .opening ⟨0xD, 2, 0x80, 0x9F⟩
  else if n < 0xF0 then .opening ⟨n - 0xE0, 2, 0x80, 0xBF⟩
  else if n = 0xF0 then .opening ⟨0, 3, 0x90, 0xBF⟩
  else if n < 0xF4 then .opening ⟨n - 0xF0, 3, 0x80, 0xBF⟩
  else if n = 0xF4 then .opening ⟨4, 3, 0x80, 0x8F⟩
  else .invalid

/-- The bits after one more byte. -/
def Partial.add (p : Partial) (b : UInt8) : Nat := p.bits * 64 + (b.toNat - 0x80)

/-- The characters of the bytes, in the middle of a character or between two. -/
def decodeFrom : Option Partial → List UInt8 → List Char
  | none, [] => []
  | some _, [] => [replacement]
  | none, b :: rest =>
    match lead b with
    | .character c => c :: decodeFrom none rest
    | .opening p => decodeFrom (some p) rest
    | .invalid => replacement :: decodeFrom none rest
  | some p, b :: rest =>
    if p.low ≤ b ∧ b ≤ p.high then
      if p.owed ≤ 1 then Char.ofNat (p.add b) :: decodeFrom none rest
      else decodeFrom (some ⟨p.add b, p.owed - 1, 0x80, 0xBF⟩) rest
    else
      replacement ::
        match lead b with
        | .character c => c :: decodeFrom none rest
        | .opening p => decodeFrom (some p) rest
        | .invalid => replacement :: decodeFrom none rest

/-- The text of the bytes; each longest invalid part becomes one replacement character. -/
def decode (bytes : List UInt8) : String := String.ofList (decodeFrom none bytes)

/-- The bytes of a text. -/
def encode (s : String) : List UInt8 := s.toUTF8.toList

end PageSvg.Utf8
