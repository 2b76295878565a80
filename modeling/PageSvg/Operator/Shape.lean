import PageSvg.Text.Utf8
import PageSvg.Content.Operand

/-!
# Shapes of operand lists

An operator declares the operands it takes as a shape, a list of parameters. `accept` holds
operands against a shape and converts each to the kind that its parameter asks for.
-/

namespace PageSvg

/-- What a parameter asks for. -/
inductive Parameter
  | number
  /-- An integer; a finite real is rounded. -/
  | integer
  /-- A string; numbers and names are written out. -/
  | string
  /-- A name; a string is read as one. -/
  | name
  /-- An array; a number alone is an array of one. -/
  | array
  | dictionary
  | any
  /-- All operands that are left, each of them a number. -/
  | restNumbers
  /-- All operands that are left. -/
  | rest
  deriving DecidableEq, Repr

/-- Does the parameter take all operands that are left? -/
def Parameter.isRest : Parameter → Bool
  | restNumbers | rest => true
  | _ => false

/-- The parameters of an operator. -/
abbrev Shape := List Parameter

namespace Shape

/-- The parameters before the first that takes all operands that are left. -/
def fixed (shape : Shape) : Shape := shape.takeWhile (!·.isRest)

/-- The first parameter that takes all operands that are left. -/
def tail? (shape : Shape) : Option Parameter := shape.find? (·.isRest)

/-- How many parameters take one operand each. -/
def fixedCount (shape : Shape) : Nat := shape.countP (!·.isRest)

/-- Does the shape end with a parameter that takes all operands that are left? -/
def isVariadic (shape : Shape) : Bool := shape.getLast?.any Parameter.isRest

end Shape

/-- A converted operand. -/
inductive Argument (α : Type)
  | number (value : α)
  | integer (value : Int64)
  | string (bytes : List UInt8)
  | name (text : String)
  | array (items : List (Operand α))
  | dictionary (operand : Operand α)
  | any (operand : Operand α)
  | rest (items : List (Operand α))

/-- The arguments of an operator. Reading one in another kind than its own gives a neutral value. -/
abbrev Arguments (α : Type) := List (Argument α)

namespace Arguments

variable {α : Type}

/-- The number at a place, or zero. -/
def number [Scalar α] (args : Arguments α) (i : Nat) : α :=
  match args[i]? with
  | some (.number x) => x
  | some (.integer n) => Scalar.ofInt n.toInt
  | _ => 0

/-- The integer at a place, or zero; a number is rounded. -/
def integer [Scalar α] (args : Arguments α) (i : Nat) : Int64 :=
  match args[i]? with
  | some (.integer n) => n
  | some (.number x) => Scalar.truncate (Scalar.round x)
  | _ => 0

/-- The string at a place, or no bytes. -/
def bytes (args : Arguments α) (i : Nat) : List UInt8 :=
  match args[i]? with
  | some (.string b) => b
  | _ => []

/-- The name at a place, or the empty name. -/
def name (args : Arguments α) (i : Nat) : String :=
  match args[i]? with
  | some (.name s) => s
  | _ => ""

/-- The items of the array, or of the rest, at a place. -/
def items (args : Arguments α) (i : Nat) : List (Operand α) :=
  match args[i]? with
  | some (.array xs) | some (.rest xs) => xs
  | _ => []

/-- The dictionary or the unconverted operand at a place. -/
def operand? (args : Arguments α) (i : Nat) : Option (Operand α) :=
  match args[i]? with
  | some (.any o) | some (.dictionary o) => some o
  | _ => none

/-- The numbers among the items at a place. -/
def numbers [Scalar α] (args : Arguments α) (i : Nat) : List α :=
  (args.items i).filterMap Operand.number?

end Arguments

/-- The argument that a parameter makes of an operand. -/
def Parameter.convert {α : Type} [Scalar α] : Parameter → Operand α → Option (Argument α)
  | number, .integer n => some (.number (Scalar.ofInt n.toInt))
  | number, .real x => some (.number x)
  | integer, .integer n => some (.integer n)
  | integer, .real x =>
    if Scalar.isFinite x then some (.integer (Scalar.truncate (Scalar.round x))) else none
  | string, .string b => some (.string b)
  | string, .integer n => some (.string (Utf8.encode (toString n.toInt)))
  | string, .real x => some (.string (Utf8.encode (Scalar.plainText x)))
  | string, .name s => some (.string (Utf8.encode s))
  | name, .name s => some (.name s)
  | name, .string b => some (.name (Utf8.decode b))
  | array, .array xs => some (.array xs)
  | array, .integer n => some (.array [.integer n])
  | array, .real x => some (.array [.real x])
  | dictionary, .dictionary es => some (.dictionary (.dictionary es))
  | any, o => some (.any o)
  | _, _ => none

/-- Converts operands one by one. -/
def convertEach {α : Type} [Scalar α] : Shape → List (Operand α) → Option (Arguments α)
  | p :: ps, o :: os => do
    let a ← p.convert o
    let rest ← convertEach ps os
    return a :: rest
  | _, _ => some []

/-- The arguments that a shape makes of operands, unless their number or a kind does not fit. -/
def Shape.accept {α : Type} [Scalar α] (shape : Shape) (operands : List (Operand α)) :
    Option (Arguments α) :=
  let count := shape.fixed.length
  match shape.tail? with
  | none => if operands.length = count then convertEach shape.fixed operands else none
  | some tail => do
    if operands.length < count then none
    let args ← convertEach shape.fixed operands
    let left := operands.drop count
    if tail = .restNumbers && !left.all Operand.isNumber then none
    return args ++ [.rest left]

end PageSvg
