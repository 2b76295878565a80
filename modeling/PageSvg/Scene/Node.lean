import PageSvg.Keyed
import PageSvg.Text.Quoted

/-!
# Scene trees

An element has a tag, attributes in order, children and perhaps text. Setting an attribute keeps
the place of the first one of that name.
-/

namespace PageSvg

/-- An element of the scene. -/
structure Node where
  tag : String
  attrs : List (String × String) := []
  children : List Node := []
  /-- Character content. -/
  text : Option String := none

namespace Node

instance : Inhabited Node := ⟨⟨"", [], [], none⟩⟩

/-- The element with an attribute set. -/
def set (n : Node) (name value : String) : Node := { n with attrs := Keyed.insert n.attrs name value }

/-- The element with an attribute set when a condition holds. -/
def setIf (n : Node) (condition : Bool) (name value : String) : Node :=
  if condition then n.set name value else n

/-- The value of an attribute. -/
def get? (n : Node) (name : String) : Option String := Keyed.get? n.attrs name

/-- Is the attribute there? -/
def has (n : Node) (name : String) : Bool := Keyed.contains n.attrs name

/-- Removes the first attribute of a name. -/
def removeAttr (name : String) : List (String × String) → List (String × String)
  | [] => []
  | (k, v) :: rest => if k = name then rest else (k, v) :: removeAttr name rest

/-- The element without the first attribute of a name. -/
def erase (n : Node) (name : String) : Node := { n with attrs := removeAttr name n.attrs }

/-- The element with one more child at the end. -/
def push (n child : Node) : Node := { n with children := n.children ++ [child] }

/-- Is the element a group? -/
def isGroup (n : Node) : Bool := n.tag == "g"

mutual

/-- How many elements a tree has. -/
def count : Node → Nat
  | ⟨_, _, children, _⟩ => 1 + countAll children

/-- How many elements the trees have. -/
def countAll : List Node → Nat
  | [] => 0
  | n :: rest => count n + countAll rest

end

mutual

/-- The elements with a tag, in document order. -/
def withTag (tag : String) : Node → List Node
  | ⟨t, attrs, children, text⟩ =>
    (if t = tag then [⟨t, attrs, children, text⟩] else []) ++ withTagAll tag children

/-- The elements with a tag in several trees. -/
def withTagAll (tag : String) : List Node → List Node
  | [] => []
  | n :: rest => withTag tag n ++ withTagAll tag rest

end

mutual

/-- The first element with an identifier, in document order. -/
def find? (id : String) : Node → Option Node
  | ⟨tag, attrs, children, text⟩ =>
    if Keyed.get? attrs "id" = some id then some ⟨tag, attrs, children, text⟩
    else findAll? id children

/-- The first element with an identifier in several trees. -/
def findAll? (id : String) : List Node → Option Node
  | [] => none
  | n :: rest => (find? id n).or (findAll? id rest)

end

/-- A reference to a definition, as paint, clip and mask attributes write it. -/
def reference (id : String) : String := "url(#" ++ id ++ ")"

/-- Items between square brackets. -/
def bracketed (items : List String) : String := "[" ++ String.intercalate ", " items ++ "]"

/-- An attribute in a description. -/
def describeAttr (attr : String × String) : String :=
  "(" ++ Quoted.text attr.1 ++ ", " ++ Quoted.text attr.2 ++ ")"

mutual

/-- A description of a tree that tells different trees apart; digests of it name definitions. -/
def describe : Node → String
  | ⟨tag, attrs, children, text⟩ =>
    "Node \x7b tag: " ++ Quoted.text tag ++ ", attrs: " ++ bracketed (attrs.map describeAttr) ++
      ", children: " ++ bracketed (describeEach children) ++ ", text: " ++
      (match text with
        | none => "None"
        | some s => "Some(" ++ Quoted.text s ++ ")") ++ " \x7d"

/-- The descriptions of several trees. -/
def describeEach : List Node → List String
  | [] => []
  | n :: rest => describe n :: describeEach rest

end

end Node

/-- A converted page: its size and its tree, an `svg` element with definitions and content. -/
structure Document (α : Type) where
  width : α
  height : α
  root : Node

/-- The definitions of a document. -/
def Document.definitions? {α : Type} (d : Document α) : Option Node :=
  d.root.children.find? (·.tag == "defs")

/-- The content of a document. -/
def Document.content? {α : Type} (d : Document α) : Option Node := d.root.find? "content"

end PageSvg
