import PageSvg.Fault
import PageSvg.Content.Token

/-!
# Scanning with positions

A scanner is a position in some content. It reports each token with the position of its first
byte and moves behind the token.
-/

namespace PageSvg.Content

variable {α : Type}

/-- A position in a content stream. -/
structure Scanner where
  content : List UInt8
  position : Nat

namespace Scanner

/-- At the start of some content. -/
def ofBytes (content : List UInt8) : Scanner := ⟨content, 0⟩

/-- The bytes not yet read. -/
def remaining (s : Scanner) : List UInt8 := s.content.drop s.position

/-- Has everything been read? -/
def atEnd (s : Scanner) : Bool := s.content.length ≤ s.position

/-- Moves to a position, at most to the end. -/
def seek (s : Scanner) (position : Nat) : Scanner :=
  { s with position := Nat.min position s.content.length }

/-- The position at which some bytes at the end of the content begin. -/
def positionOf (s : Scanner) (rest : List UInt8) : Nat := s.content.length - rest.length

/-- The next token with its position, or the fault in its place. At the end of the tokens the
scanner stands at the end of the content. -/
def next [Scalar α] (s : Scanner) : Option (Except (Fault α) (Nat × Token α)) × Scanner :=
  let start := s.positionOf (skipBlanks s.remaining)
  match next? s.remaining with
  | none => (none, { s with position := start })
  | some ⟨result, rest⟩ =>
    let s := { s with position := s.positionOf rest }
    match result with
    | .ok token => (some (.ok (start, token)), s)
    | .error .unterminated => (some (.error .unterminated), s)
    | .error (.badDigit offset byte) => (some (.error (.badHexDigit (start + offset) byte)), s)

/-- The data of an inline image that begins here. -/
def inlineData (s : Scanner) : List UInt8 × Scanner :=
  let (data, rest) := Content.inlineData s.remaining
  (data, { s with position := s.positionOf rest })

end Scanner

end PageSvg.Content
