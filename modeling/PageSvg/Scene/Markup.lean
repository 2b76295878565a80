import PageSvg.Scene.Node

/-!
# Markup

A tree is written as markup. Attribute values and text are escaped, style sheets stand in a
section of their own that needs no escapes, and an indented tree has line breaks only where no
text is rendered.
-/

namespace PageSvg.Markup

/-- The entity of a character that would be read as markup in text. -/
def textEntity (c : Char) : String :=
  if c = '&' then "&amp;"
  else if c = '<' then "&lt;"
  else if c = '>' then "&gt;"
  else c.toString

/-- The entity of a character that would be read as markup in an attribute in double quotes. -/
def attrEntity (c : Char) : String := if c = '"' then "&quot;" else textEntity c

/-- A control character that no document may hold. -/
def isForbidden (c : Char) : Bool :=
  c.toNat < 0x20 && c ≠ '\t' && c ≠ '\n' && c ≠ '\r'

/-- An attribute value between double quotes. -/
def attrText (s : String) : String := String.join (s.toList.map attrEntity)

/-- Character content, without the characters no document may hold. -/
def contentText (s : String) : String :=
  String.join ((s.toList.filter (!isForbidden ·)).map textEntity)

/-- The attributes of a start tag. -/
def attrsText (attrs : List (String × String)) : String :=
  String.join (attrs.map fun (name, value) => " " ++ name ++ "=\"" ++ attrText value ++ "\"")

/-- The text of an element; a style sheet is not escaped. -/
def bodyText (tag : String) : Option String → String
  | none => ""
  | some text =>
    if tag = "style" then "<![CDATA[" ++ text ++ "]]>" else contentText text

/-- A line break and the indentation of a depth. -/
def lineBreak (depth : Nat) : String := String.ofList ('\n' :: List.replicate (2 * depth) ' ')

/-- Are the children of an element put on lines of their own? White space inside text would be
rendered. -/
def indents (pretty : Bool) (tag : String) (text : Option String) : Bool :=
  pretty && tag != "text" && text.isNone

mutual

/-- The markup of a tree at a depth, in pieces. -/
def pieces (pretty : Bool) (depth : Nat) : Node → List String
  | ⟨tag, attrs, children, text⟩ =>
    if children.isEmpty && text.isNone then ["<", tag, attrsText attrs, "/>"]
    else
      let indent := indents pretty tag text
      ["<", tag, attrsText attrs, ">", bodyText tag text] ++
        childPieces pretty indent (depth + 1) children ++
        (if indent && !children.isEmpty then [lineBreak depth] else []) ++
        ["</", tag, ">"]

/-- The markup of children at their depth. -/
def childPieces (pretty indent : Bool) (depth : Nat) : List Node → List String
  | [] => []
  | n :: rest =>
    (if indent then [lineBreak depth] else []) ++ pieces pretty depth n ++
      childPieces pretty indent depth rest

end

/-- The markup of a tree. -/
def text (n : Node) (pretty : Bool := false) (depth : Nat := 0) : String :=
  String.join (pieces pretty depth n)

/-- The declaration before the root element. -/
def declaration : String := "<?xml version=\"1.0\" encoding=\"UTF-8\"?>\n"

/-- A whole document. -/
def document (root : Node) (pretty : Bool := false) : String :=
  declaration ++ text root pretty ++ (if pretty then "\n" else "")

end PageSvg.Markup
