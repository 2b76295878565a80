import PageSvg.Number.Scalar
import PageSvg.Text.Quoted

/-!
# Faults

Everything that can go wrong while a page is read, interpreted or written, and the one place
where a fault is worded.
-/

namespace PageSvg

/-- The cause of a failure. -/
inductive Fault (α : Type)
  /-- A byte of a hexadecimal string that is no digit, at its position in the content. -/
  | badHexDigit (position : Nat) (byte : UInt8)
  /-- The content ends inside a string. -/
  | unterminated
  /-- A matrix without an inverse, with its determinant. -/
  | notInvertible (determinant : α)
  | cancelled
  /-- Nested content reaches the depth at which it is refused. -/
  | nestingTooDeep (limit : Nat)
  /-- The data of an image cannot be had. -/
  | image (reason : String)
  /-- An option outside its range. -/
  | invalidOption (reason : String)

/-- The wording of a fault. -/
def Fault.message {α : Type} [Scalar α] : Fault α → String
  | badHexDigit position byte =>
    "invalid token at position " ++ toString position ++ ": invalid hex digit " ++
      Quoted.character (Char.ofNat byte.toNat)
  | unterminated => "unexpected end of input"
  | notInvertible determinant =>
    "matrix is not invertible (determinant " ++ Scalar.plainText determinant ++ ")"
  | cancelled => "conversion cancelled"
  | nestingTooDeep limit => "nested content exceeds maximum depth of " ++ toString limit
  | image reason => "image error: " ++ reason
  | invalidOption reason => "invalid option: " ++ reason

end PageSvg
