import PageSvg.Number.Scalar
import PageSvg.Keyed

/-!
# Operands

The values between the operators of a content stream. An integer is a number too.
-/

namespace PageSvg

/-- An operand of an operator. -/
inductive Operand (α : Type)
  | null
  | bool (value : Bool)
  | integer (value : Int64)
  | real (value : α)
  | string (bytes : List UInt8)
  | name (text : String)
  | array (items : List (Operand α))
  | dictionary (entries : List (String × Operand α))

namespace Operand

variable {α : Type}

instance : Inhabited (Operand α) := ⟨null⟩

/-- The kind of an operand in words. -/
def kind : Operand α → String
  | null => "null"
  | bool _ => "bool"
  | integer _ => "int"
  | real _ => "real"
  | string _ => "string"
  | name _ => "name"
  | array _ => "array"
  | dictionary _ => "dict"

/-- The number that an integer or a real stands for. -/
def number? [Scalar α] : Operand α → Option α
  | integer n => some (Scalar.ofInt n.toInt)
  | real x => some x
  | _ => none

/-- Is the operand an integer or a real? -/
def isNumber : Operand α → Bool
  | integer _ | real _ => true
  | _ => false

/-- The text of a name. -/
def name? : Operand α → Option String
  | name text => some text
  | _ => none

/-- The bytes of a string. -/
def bytes? : Operand α → Option (List UInt8)
  | string bytes => some bytes
  | _ => none

/-- The items of an array. -/
def items? : Operand α → Option (List (Operand α))
  | array items => some items
  | _ => none

/-- The entries of a dictionary. -/
def entries? : Operand α → Option (Keyed (Operand α))
  | dictionary entries => some entries
  | _ => none

/-- The entries of a dictionary whose keys and values stand in one list: a name takes the item
after it as its value, and any other item in the place of a key is passed over. -/
def pairs : List (Operand α) → List (String × Operand α)
  | name key :: value :: rest => (key, value) :: pairs rest
  | _ :: rest => pairs rest
  | [] => []

/-- The dictionary of a flat list of keys and values. -/
def ofItems (items : List (Operand α)) : Keyed (Operand α) := Keyed.ofPairs (pairs items)

end Operand

/-- An operator with its operands. -/
structure Operation (α : Type) where
  operator : String
  operands : List (Operand α)

/-- The operations of a page, form, pattern cell or glyph, in order. -/
abbrev ContentStream (α : Type) := List (Operation α)

end PageSvg
