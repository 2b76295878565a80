import PageSvg.Scene.Node

/-!
# Sharing attributes

Presentation attributes whose value descendants inherit are moved up the tree: runs of siblings
with equal ones are put in a group that carries them, attributes common to all children of a group
move to the group, and groups without attributes give way to their children.
-/

namespace PageSvg.Scene

/-- Attributes that elements inherit from the elements around them. -/
def inheritable : List String :=
  ["fill", "fill-opacity", "fill-rule", "stroke", "stroke-width", "stroke-linecap",
   "stroke-linejoin", "stroke-miterlimit", "stroke-dasharray", "stroke-dashoffset",
   "stroke-opacity", "font-family", "font-size", "font-weight", "font-style"]

/-- Do elements inherit the attribute? -/
def isInheritable (name : String) : Bool := inheritable.contains name

/-- May the element stand in a group that carries its attributes? -/
def isGroupable (n : Node) : Bool :=
  ["path", "rect", "text", "use", "image", "g"].contains n.tag

/-- Attributes ordered by name, then by value. -/
def attrLE (a b : String × String) : Bool := a.1 < b.1 || (a.1 == b.1 && a.2 ≤ b.2)

/-- The inheritable attributes of an element, ordered. -/
def inherited (n : Node) : List (String × String) :=
  (n.attrs.filter fun attr => isInheritable attr.1).mergeSort attrLE

/-- The attributes under which an element may be grouped. -/
def groupKey (n : Node) : List (String × String) := if isGroupable n then inherited n else []

/-- The element without the named attributes. -/
def withoutAttrs (names : List String) (n : Node) : Node := names.foldl Node.erase n

/-- A group that carries a key, around the elements of a run. -/
def groupOf (key : List (String × String)) (run : List Node) : Node :=
  let group := key.foldl (fun g (name, value) => g.set name value) { tag := "g" : Node }
  { group with children := run.map (withoutAttrs (key.map (·.1))) }

/-- Do all elements have the same key? -/
def sameKeys (children : List Node) : Bool :=
  match children with
  | [] => true
  | first :: rest => rest.all fun n => groupKey n == groupKey first

/-- A run of siblings with one key: grouped when the key is not empty and the run long enough. -/
def wrapRun (minRun : Nat) (run : List Node) : List Node :=
  match run with
  | [] => []
  | first :: _ =>
    let key := groupKey first
    if key.isEmpty || run.length < minRun then run else [groupOf key run]

/-- Groups the runs among the children. Where all children of a group have one key, their
attributes move to the group itself instead. -/
def groupRuns (minRun : Nat) (n : Node) : Node :=
  if n.children.length < minRun || (n.isGroup && sameKeys n.children) then n
  else
    let runs := n.children.splitBy fun a b => groupKey a == groupKey b
    { n with children := runs.flatMap (wrapRun minRun) }

/-- The inheritable attributes that all elements have with one value. -/
def commonAttrs : List Node → List (String × String)
  | [] => []
  | first :: rest =>
    (inherited first).filter fun (name, value) => rest.all fun n => n.get? name == some value

/-- Moves an attribute from the children to the group, unless the group has another value. -/
def hoistAttr (group : Node) (attr : String × String) : Node :=
  match group.get? attr.1 with
  | some value =>
    if value = attr.2 then
      { group with children := group.children.map (·.erase attr.1) }
    else group
  | none =>
    let group := group.set attr.1 attr.2
    { group with children := group.children.map (·.erase attr.1) }

/-- Moves the attributes common to all children of a group to the group. -/
def hoist (group : Node) : Node :=
  if group.children.length < 2 || !group.children.all isGroupable then group
  else (commonAttrs group.children).foldl hoistAttr group

/-- The children of a group without attributes, and any other element itself. -/
def unwrapped (n : Node) : List Node :=
  if n.isGroup && n.attrs.isEmpty then n.children else [n]

/-- Replaces groups without attributes by their children. -/
def dissolve (n : Node) : Node := { n with children := n.children.flatMap unwrapped }

/-- Elements whose children are left as they are. -/
def keepsChildren (n : Node) : Bool :=
  ["clipPath", "mask", "pattern", "defs", "text"].contains n.tag

/-- Rearranges an element whose children have been rearranged. -/
def rearrange (minRun : Nat) (n : Node) : Node :=
  if keepsChildren n then n
  else
    let n := groupRuns minRun n
    dissolve (if n.isGroup then hoist n else n)

mutual

/-- Rearranges a tree from the leaves up. -/
def optimize (minRun : Nat) : Node → Node
  | ⟨tag, attrs, children, text⟩ =>
    rearrange minRun ⟨tag, attrs, optimizeAll minRun children, text⟩

/-- Rearranges several trees. -/
def optimizeAll (minRun : Nat) : List Node → List Node
  | [] => []
  | n :: rest => optimize minRun n :: optimizeAll minRun rest

end

end PageSvg.Scene
