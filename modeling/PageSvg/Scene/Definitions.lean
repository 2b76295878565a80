import PageSvg.Scene.Node
import PageSvg.Text.Digest

/-!
# Shared definitions

Images, patterns, gradients, masks and style rules are written once and referred to by an
identifier that is a digest of what they are. Definitions and rules keep the order in which they
came in.
-/

namespace PageSvg

/-- An identifier for what a key describes: a kind and ten digits of the digest of the key. -/
def stableId (kind key : String) : String :=
  kind ++ ((Digest.hexText (Digest.md5 (Utf8.encode key))).take 10).toString

/-- The definitions and style rules of a page. -/
structure Definitions where
  nodes : Keyed Node := []
  /-- Classes under the declarations they stand for. -/
  classes : Keyed String := []

namespace Definitions

/-- Is there a definition under the identifier? -/
def contains (d : Definitions) (id : String) : Bool := d.nodes.contains id

/-- The definition under an identifier. -/
def get? (d : Definitions) (id : String) : Option Node := d.nodes.get? id

/-- How many definitions there are, style rules not counted. -/
def size (d : Definitions) : Nat := d.nodes.length

/-- Neither definitions nor style rules. -/
def isEmpty (d : Definitions) : Bool := d.nodes.isEmpty && d.classes.isEmpty

/-- Adds a definition under its identifier unless there is one. -/
def insertNew (d : Definitions) (id : String) (node : Node) : Definitions :=
  if d.contains id then d else { d with nodes := d.nodes ++ [(id, node.set "id" id)] }

/-- The class of some style declarations, with a rule for it. -/
def styleClass (d : Definitions) (declarations : String) : String × Definitions :=
  match d.classes.get? declarations with
  | some name => (name, d)
  | none =>
    let name := stableId "s" declarations
    (name, { d with classes := d.classes ++ [(declarations, name)] })

/-- The rules of all classes, one a line. -/
def styleSheet (d : Definitions) : String :=
  String.intercalate "\n"
    (d.classes.map fun (declarations, name) => "." ++ name ++ "\x7b" ++ declarations ++ "\x7d")

/-- The element that holds the style sheet, some leading definitions, and the shared ones. -/
def toNode (d : Definitions) (leading : List Node) : Node where
  tag := "defs"
  children :=
    (if d.classes.isEmpty then [] else [{ tag := "style", text := some d.styleSheet }]) ++
      leading ++ d.nodes.map (·.2)

end Definitions

end PageSvg
