import PageSvg.Operator.Shape

/-!
# Operator tables

An operator may be defined for several shapes. Shapes with a fixed number of operands are tried
before variadic ones, longer ones before shorter ones, and earlier definitions before later ones;
the first that accepts the operands is taken.
-/

namespace PageSvg

/-- A definition of an operator for one shape. -/
structure Candidate (β : Type) where
  shape : Shape
  action : β

/-- Is `c` tried before `d` whatever the order of their definitions? -/
def Candidate.precedes {β : Type} (c d : Candidate β) : Bool :=
  match c.shape.isVariadic, d.shape.isVariadic with
  | false, true => true
  | true, false => false
  | _, _ => d.shape.fixedCount < c.shape.fixedCount

/-- Adds a candidate behind those that are not tried after it. -/
def Candidate.insert {β : Type} (c : Candidate β) : List (Candidate β) → List (Candidate β)
  | [] => [c]
  | d :: rest => if c.precedes d then c :: d :: rest else d :: insert c rest

/-- The candidates of each operator, in the order in which they are tried. -/
abbrev OperatorTable (β : Type) := Keyed (List (Candidate β))

namespace OperatorTable

variable {α β : Type}

/-- The candidates of an operator. -/
def candidates (table : OperatorTable β) (name : String) : List (Candidate β) :=
  (Keyed.get? table name).getD []

/-- Defines an operator for one more shape. -/
def define (table : OperatorTable β) (name : String) (shape : Shape) (action : β) :
    OperatorTable β :=
  Keyed.insert table name (Candidate.insert ⟨shape, action⟩ (candidates table name))

/-- The table of some definitions, made in order. -/
def ofDefinitions (definitions : List (String × Shape × β)) : OperatorTable β :=
  definitions.foldl (fun table (name, shape, action) => define table name shape action) []

/-- The first candidate that accepts the operands, with the arguments it makes of them. -/
def firstAccepting [Scalar α] (operands : List (Operand α)) :
    List (Candidate β) → Option (β × Arguments α)
  | [] => none
  | c :: rest =>
    match c.shape.accept operands with
    | some args => some (c.action, args)
    | none => firstAccepting operands rest

/-- What an operator does with its operands; nothing when it is unknown or no shape of it accepts
them. -/
def resolve [Scalar α] (table : OperatorTable β) (name : String) (operands : List (Operand α)) :
    Option (β × Arguments α) :=
  firstAccepting operands (candidates table name)

/-- Invokes the operator of a name with its operands. The answer is `false`, and nothing is invoked,
when the operator is unknown or no shape of it accepts the operands. -/
def dispatch {m : Type → Type} [Monad m] [Scalar α] (table : OperatorTable β)
    (invoke : β → Arguments α → m Unit) (name : String) (operands : List (Operand α)) : m Bool := do
  match resolve table name operands with
  | none => return false
  | some (action, args) =>
    invoke action args
    return true

end OperatorTable

end PageSvg
