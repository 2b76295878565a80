import PageSvg.Scene.Optimize
import PageSvg.Proofs.Keyed

/-!
# What a tree renders

An element is rendered with the value that each inherited attribute has at its place: its own, or
else that of the nearest element around it. Groups that only pass such values on leave no trace.
`meaning` gives what is left: the order of the elements, their tags, texts and own attributes, and
the values in force for each of them.
-/

namespace PageSvg

/-- A property of all elements of a tree. -/
inductive Node.Every (p : Node → Prop) : Node → Prop
  | mk {n : Node} : p n → (∀ c ∈ n.children, Node.Every p c) → Node.Every p n

namespace Node

variable {p : Node → Prop} {n : Node}

theorem Every.self (h : n.Every p) : p n := by
  cases h; assumption

theorem Every.children (h : n.Every p) : ∀ c ∈ n.children, c.Every p := by
  cases h; assumption

/-- The names of the attributes, in order. -/
def names (n : Node) : List String := Keyed.keys n.attrs

/-- An element that names no attribute twice and, if it is a group, has no text. -/
structure Tidy (n : Node) : Prop where
  nodup : n.names.Nodup
  groupText : n.isGroup → n.text = none

end Node

namespace Scene

/-- The values of inherited attributes around an element. -/
abbrev Ambient := String → Option String

/-- The values inside an element with some attributes. -/
def Ambient.extend (a : Ambient) (attrs : List (String × String)) : Ambient := fun name =>
  if isInheritable name then (Keyed.get? attrs name).or (a name) else a name

/-- The attributes that are not inherited, in order. -/
def ownAttrs (attrs : List (String × String)) : List (String × String) :=
  attrs.filter fun attr => !isInheritable attr.1

/-- What is rendered of an element or a group. -/
inductive Rendered
  | element (tag : String) (attrs : List (String × String)) (text : Option String)
      (values : List (Option String)) (content : List Rendered)
  | group (attrs : List (String × String)) (content : List Rendered)

mutual

/-- What is rendered of a tree among some values. A group with inherited attributes only is
transparent. -/
def meaning (a : Ambient) : Node → List Rendered
  | ⟨tag, attrs, children, text⟩ =>
    let inner := a.extend attrs
    let content := meaningAll inner children
    if tag = "g" then
      if attrs.all fun attr => isInheritable attr.1 then content
      else [.group (ownAttrs attrs) content]
    else [.element tag (ownAttrs attrs) text (inheritable.map inner) content]

/-- What is rendered of several trees. -/
def meaningAll (a : Ambient) : List Node → List Rendered
  | [] => []
  | n :: rest => meaning a n ++ meaningAll a rest

end

theorem meaningAll_eq_flatMap (a : Ambient) (nodes : List Node) :
    meaningAll a nodes = nodes.flatMap (meaning a) := by
  induction nodes with
  | nil => rfl
  | cons n rest ih => rw [meaningAll, ih, List.flatMap_cons]

theorem meaningAll_congr {a b : Ambient} {f : Node → Node} {nodes : List Node}
    (h : ∀ n ∈ nodes, meaning b (f n) = meaning a n) :
    meaningAll b (nodes.map f) = meaningAll a nodes := by
  rw [meaningAll_eq_flatMap, meaningAll_eq_flatMap, List.flatMap_map]
  exact List.flatMap_congr h

/-! ### Values in force -/

section Extend

variable {a b : Ambient} {attrs other : List (String × String)}

@[simp] theorem Ambient.extend_nil (a : Ambient) : a.extend [] = a := by
  funext name
  simp [Ambient.extend]

theorem Ambient.extend_apply {name : String} (h : isInheritable name = true) :
    a.extend attrs name = (Keyed.get? attrs name).or (a name) := if_pos h

/-- Ambient values agree where they agree on inherited attributes. -/
theorem Ambient.extend_congr (ho : ∀ name, isInheritable name = false → a name = b name)
    (hi : ∀ name, isInheritable name = true →
      (Keyed.get? attrs name).or (a name) = (Keyed.get? other name).or (b name)) :
    a.extend attrs = b.extend other := by
  funext name
  cases h : isInheritable name with
  | false => simp [Ambient.extend, h, ho name h]
  | true => rw [Ambient.extend_apply h, Ambient.extend_apply h, hi name h]

end Extend

/-- A group is transparent where it has no attributes of its own. -/
theorem all_isInheritable_iff (attrs : List (String × String)) :
    (attrs.all fun attr => isInheritable attr.1) = true ↔ ownAttrs attrs = [] := by
  simp [ownAttrs, List.filter_eq_nil_iff]

/-- The meaning of an element depends on its tag and text, on its own attributes, and on the values
and the meaning inside it. -/
theorem meaning_congr {a b : Ambient} {m n : Node} (htag : m.tag = n.tag) (htext : m.text = n.text)
    (hown : ownAttrs m.attrs = ownAttrs n.attrs) (hin : b.extend m.attrs = a.extend n.attrs)
    (hcontent : meaningAll (a.extend n.attrs) m.children =
      meaningAll (a.extend n.attrs) n.children) :
    meaning b m = meaning a n := by
  obtain ⟨tag, attrs, children, text⟩ := m
  obtain ⟨tag', attrs', children', text'⟩ := n
  dsimp only at htag htext hown hin hcontent
  subst htag htext
  simp only [meaning, all_isInheritable_iff, hown, hin, hcontent]

/-- A group whose attributes are all inherited gives its content. -/
theorem meaning_transparent (a : Ambient) {attrs : List (String × String)} {children : List Node}
    (h : ownAttrs attrs = []) :
    meaning a ⟨"g", attrs, children, none⟩ = meaningAll (a.extend attrs) children := by
  simp [meaning, (all_isInheritable_iff attrs).2 h]

end Scene

end PageSvg
