import PageSvg.Content.Token
import PageSvg.Content.Operand

/-!
# Operations of a content stream

Operands are collected until an operator takes them. Arrays and dictionaries nest: operands go to
the innermost one that is open, and keywords inside them are skipped. Strings that cannot be read
and closing brackets that close nothing are skipped, and operands after the last operator are
dropped. An inline image, `BI` entries `ID` data `EI`, is one operation `EI` with its dictionary
and its data.
-/

namespace PageSvg.Content

variable {α : Type}

/-- An array or a dictionary that is still open, with the operands inside it so far. -/
inductive Frame (α : Type)
  | array (items : List (Operand α))
  | dictionary (items : List (Operand α))

/-- What has been collected for the next operator. -/
structure Collected (α : Type) where
  operands : List (Operand α) := []
  /-- The open arrays and dictionaries, the innermost first. -/
  frames : List (Frame α) := []
  /-- The operands are the entries of an inline image. -/
  inInlineImage : Bool := false

/-- What a token leads to. -/
inductive Step (α : Type)
  | collect (next : Collected α)
  | operation (op : Operation α) (next : Collected α)
  /-- The data of an inline image with these entries follows. -/
  | inlineImage (entries : Keyed (Operand α))

namespace Collected

/-- Adds an operand to the innermost open array or dictionary, or to the operands. -/
def push (c : Collected α) (operand : Operand α) : Collected α :=
  match c.frames with
  | .array items :: outer => { c with frames := .array (items ++ [operand]) :: outer }
  | .dictionary items :: outer => { c with frames := .dictionary (items ++ [operand]) :: outer }
  | [] => { c with operands := c.operands ++ [operand] }

/-- Closes the innermost frame if it is an array. -/
def closeArray (c : Collected α) : Collected α :=
  match c.frames with
  | .array items :: outer => { c with frames := outer }.push (.array items)
  | _ => c

/-- Closes the innermost frame if it is a dictionary. -/
def closeDictionary (c : Collected α) : Collected α :=
  match c.frames with
  | .dictionary items :: outer =>
    { c with frames := outer }.push (.dictionary (Operand.ofItems items))
  | _ => c

/-- The effect of a keyword. -/
def keyword (c : Collected α) (text : String) : Step α :=
  if !c.frames.isEmpty then .collect c
  else if text = "BI" then .collect { c with operands := [], inInlineImage := true }
  else if c.inInlineImage then
    if text = "ID" then .inlineImage (Operand.ofItems c.operands) else .collect c
  else .operation ⟨text, c.operands⟩ {}

/-- The effect of a token. -/
def step (c : Collected α) : Token α → Step α
  | .integer value => .collect (c.push (.integer value))
  | .real value => .collect (c.push (.real value))
  | .bool value => .collect (c.push (.bool value))
  | .null => .collect (c.push .null)
  | .name text => .collect (c.push (.name text))
  | .string bytes => .collect (c.push (.string bytes))
  | .arrayOpen => .collect { c with frames := .array [] :: c.frames }
  | .dictionaryOpen => .collect { c with frames := .dictionary [] :: c.frames }
  | .arrayClose => .collect c.closeArray
  | .dictionaryClose => .collect c.closeDictionary
  | .keyword text => c.keyword text

end Collected

theorem splitInlineEnd_length (last : Option UInt8) (bytes : List UInt8) :
    (splitInlineEnd last bytes).2.length ≤ bytes.length := by
  fun_induction splitInlineEnd last bytes <;> simp_all <;> omega

theorem inlineData_length (bytes : List UInt8) : (inlineData bytes).2.length ≤ bytes.length := by
  unfold inlineData
  split
  · next b rest =>
    split
    · exact Nat.le_succ_of_le (splitInlineEnd_length none rest)
    · exact splitInlineEnd_length none (b :: rest)
  · simp

/-- The operations of the bytes, after some operands have been collected. -/
def operationsFrom [Scalar α] (c : Collected α) (bytes : List UInt8) : ContentStream α :=
  match _h : next? bytes with
  | none => []
  | some ⟨.error _, rest⟩ => operationsFrom c rest
  | some ⟨.ok token, rest⟩ =>
    match c.step token with
    | .collect next => operationsFrom next rest
    | .operation op next => op :: operationsFrom next rest
    | .inlineImage entries =>
      ⟨"EI", [.dictionary entries, .string (inlineData rest).1]⟩ ::
        operationsFrom {} (inlineData rest).2
termination_by bytes.length
decreasing_by
  · exact next?_length _h
  · exact next?_length _h
  · exact next?_length _h
  · exact Nat.lt_of_le_of_lt (inlineData_length rest) (next?_length _h)

/-- The operations of a content stream. -/
def operations [Scalar α] (bytes : List UInt8) : ContentStream α := operationsFrom {} bytes

end PageSvg.Content
