import Mathlib.Logic.Relation
import PageSvg.Proofs.Layout.Style
import PageSvg.Proofs.Scene.Sharing

/-!
# References

Elements refer to definitions by paint, clip and mask attributes and by the target of a `use`, and
text refers to a rule by its class, which may be painted with a definition in turn. A tree is
resolved where all that it refers to is there; rearranging a tree adds no reference.
-/

namespace PageSvg

/-! ### What attributes refer to -/

namespace Attr

/-- The attributes that refer to a definition by `url(#…)`. -/
def referring : List String := ["clip-path", "mask", "fill", "stroke"]

/-- An attribute of an element with the tag refers to the definition. -/
def Names (tag : String) (attr : String × String) (id : String) : Prop :=
  attr.1 ∈ referring ∧ attr.2 = Node.reference id ∨ tag = "use" ∧ attr = ("href", "#" ++ id)

/-- An attribute of an element with the tag is the class of some text. -/
def Styles (tag : String) (attr : String × String) (name : String) : Prop :=
  (tag = "text" ∨ tag = "tspan") ∧ attr = ("class", name)

/-- What an attribute refers to is there. -/
structure Resolves (ids names : String → Prop) (tag : String) (attr : String × String) : Prop where
  named : ∀ id, Names tag attr id → ids id
  styled : ∀ name, Styles tag attr name → names name

/-- An attribute of an element that is not a definition itself. -/
structure Inside (ids names : String → Prop) (tag : String) (attr : String × String) : Prop
    extends Resolves ids names tag attr where
  anonymous : attr.1 ≠ "id"

variable {ids names ids' names' : String → Prop} {tag : String} {attr : String × String}

theorem Resolves.mono (h : Resolves ids names tag attr) (hids : ∀ id, ids id → ids' id)
    (hnames : ∀ name, names name → names' name) : Resolves ids' names' tag attr :=
  ⟨fun id hid => hids id (h.named id hid), fun name hname => hnames name (h.styled name hname)⟩

theorem Inside.mono (h : Inside ids names tag attr) (hids : ∀ id, ids id → ids' id)
    (hnames : ∀ name, names name → names' name) : Inside ids' names' tag attr :=
  ⟨h.toResolves.mono hids hnames, h.anonymous⟩

theorem resolves_id (value : String) : Resolves ids names tag ("id", value) := by
  constructor
  · rintro id (⟨hmem, _⟩ | ⟨_, e⟩)
    · simp [referring] at hmem
    · simp at e
  · rintro name ⟨_, e⟩
    simp at e

/-- On a group an attribute refers to no more than on any other element. -/
theorem Resolves.onGroup (h : Resolves ids names tag attr) : Resolves ids names "g" attr := by
  refine ⟨fun id hid => ?_, fun name hname => ?_⟩
  · rcases hid with hid | hid
    · exact h.named id (.inl hid)
    · exact absurd hid.1 (by decide)
  · exact absurd hname.1 (by decide)

/-- The attribute has nothing to do with references. -/
def inert (name : String) : Bool :=
  !(["id", "clip-path", "mask", "fill", "stroke", "href", "class"].contains name)

theorem inside_of_inert (h : inert attr.1 = true) : Inside ids names tag attr := by
  simp only [inert, List.contains_eq_mem, List.mem_cons, List.not_mem_nil, or_false,
    Bool.not_eq_true', decide_eq_false_iff_not, not_or] at h
  refine ⟨⟨?_, ?_⟩, h.1⟩
  · rintro id (⟨hmem, _⟩ | ⟨_, rfl⟩)
    · simp [referring, h] at hmem
    · simp at h
  · rintro name ⟨_, rfl⟩
    simp at h

/-- The value of an attribute is a reference to a definition that is there, or none at all. -/
def Answered (ids : String → Prop) (value : String) : Prop :=
  ∀ id, value = Node.reference id → ids id

theorem answered_reference {id : String} (h : ids id) : Answered ids (Node.reference id) :=
  fun _ e => Node.reference_injective e ▸ h

theorem answered_css {α : Type} [Scalar α] (c : Rgb α) : Answered ids c.css :=
  fun id e => absurd e (c.css_ne_reference id)

theorem answered_none : Answered ids "none" :=
  fun id e => absurd e (Node.none_ne_reference id)

theorem inside_of_referring {name value : String} (hname : name ∈ referring)
    (hvalue : Answered ids value) : Inside ids names tag (name, value) := by
  have hall : ∀ name ∈ referring, name ≠ "id" ∧ name ≠ "href" ∧ name ≠ "class" := by
    simp [referring]
  refine ⟨⟨?_, ?_⟩, (hall name hname).1⟩
  · rintro id (⟨_, h⟩ | ⟨_, h⟩)
    · exact hvalue id h
    · exact absurd (Prod.mk.inj h).1 (hall name hname).2.1
  · rintro _ ⟨_, h⟩
    exact absurd (Prod.mk.inj h).1 (hall name hname).2.2

theorem inside_href {id : String} (h : ids id) : Inside ids names "use" ("href", "#" ++ id) := by
  refine ⟨⟨?_, ?_⟩, by simp⟩
  · rintro id' (⟨hmem, _⟩ | ⟨_, e⟩)
    · simp [referring] at hmem
    · rw [Prod.mk.injEq, String.append_right_inj] at e
      exact e.2 ▸ h
  · rintro name ⟨hmem, _⟩
    simp at hmem

/-- The target of anything but a `use` is no definition. -/
theorem inside_href_of_ne (htag : tag ≠ "use") {value : String} :
    Inside ids names tag ("href", value) := by
  refine ⟨⟨?_, ?_⟩, by simp⟩
  · rintro id (⟨hmem, _⟩ | ⟨e, _⟩)
    · simp [referring] at hmem
    · exact absurd e htag
  · rintro name ⟨_, e⟩
    simp at e

/-- Only the class of text is one of a rule. -/
theorem inside_class_of_ne (htag : tag ≠ "text" ∧ tag ≠ "tspan") {value : String} :
    Inside ids names tag ("class", value) := by
  refine ⟨⟨?_, ?_⟩, by simp⟩
  · rintro id (⟨hmem, _⟩ | ⟨_, e⟩)
    · simp [referring] at hmem
    · simp at e
  · rintro name ⟨hmem, _⟩
    exact absurd hmem (by simp [htag])

theorem inside_class {name : String} (h : names name) : Inside ids names tag ("class", name) := by
  refine ⟨⟨?_, ?_⟩, by simp⟩
  · rintro id (⟨hmem, _⟩ | ⟨_, e⟩)
    · simp [referring] at hmem
    · simp at e
  · rintro name' ⟨_, e⟩
    exact (Prod.mk.inj e).2 ▸ h

end Attr

/-! ### Resolved trees -/

namespace Node

/-- Every attribute in a tree is as `A` says. -/
def Throughout (A : String → String × String → Prop) : Node → Prop :=
  Every fun n => ∀ attr ∈ n.attrs, A n.tag attr

/-- All that a tree refers to is there, and no element of it is a definition. -/
def Resolved (ids names : String → Prop) : Node → Prop := Throughout (Attr.Inside ids names)

variable {A B : String → String × String → Prop} {ids names ids' names' : String → Prop} {n : Node}

theorem Throughout.imp (h : n.Throughout A) (hAB : ∀ tag attr, A tag attr → B tag attr) :
    n.Throughout B := by
  induction h with
  | mk hself _ ih => exact .mk (fun attr hattr => hAB _ attr (hself attr hattr)) ih

theorem Throughout.of_subset (h : n.Throughout A) {attrs : List (String × String)}
    (hs : ∀ attr ∈ attrs, attr ∈ n.attrs) : Throughout A { n with attrs := attrs } :=
  .mk (fun attr hattr => h.self attr (hs attr hattr)) h.children

theorem Throughout.set (h : n.Throughout A) {name value : String} (hattr : A n.tag (name, value)) :
    (n.set name value).Throughout A := by
  refine .mk (fun attr hmem => ?_) h.children
  rcases Keyed.mem_of_mem_insert hmem with rfl | hmem
  · exact hattr
  · exact h.self attr hmem

theorem Throughout.setIf (h : n.Throughout A) (condition : Bool) {name value : String}
    (hattr : A n.tag (name, value)) : (n.setIf condition name value).Throughout A := by
  unfold Node.setIf
  split_ifs
  · exact h.set hattr
  · exact h

theorem Resolved.mono (h : n.Resolved ids names) (hids : ∀ id, ids id → ids' id)
    (hnames : ∀ name, names name → names' name) : n.Resolved ids' names' :=
  h.imp fun _ _ ha => ha.mono hids hnames

/-- An element without children. -/
theorem resolved_leaf {tag : String} {attrs : List (String × String)} {text : Option String}
    (h : ∀ attr ∈ attrs, Attr.Inside ids names tag attr) :
    Resolved ids names { tag, attrs, text } :=
  .mk h (by simp)

/-- An element whose attributes have nothing to do with references. -/
theorem resolved_of_inert {tag : String} {attrs : List (String × String)} {children : List Node}
    {text : Option String} (h : ∀ attr ∈ attrs, Attr.inert attr.1 = true)
    (hchildren : ∀ c ∈ children, c.Resolved ids names) :
    Resolved ids names ⟨tag, attrs, children, text⟩ :=
  .mk (fun attr hattr => Attr.inside_of_inert (h attr hattr)) hchildren

mutual

/-- The elements of a tree, in document order. -/
def elements : Node → List Node
  | ⟨tag, attrs, children, text⟩ => ⟨tag, attrs, children, text⟩ :: elementsAll children

/-- The elements of several trees. -/
def elementsAll : List Node → List Node
  | [] => []
  | n :: rest => elements n ++ elementsAll rest

end

theorem elementsAll_eq_flatMap (nodes : List Node) :
    elementsAll nodes = nodes.flatMap elements := by
  induction nodes with
  | nil => rfl
  | cons n rest ih => rw [elementsAll, ih, List.flatMap_cons]

theorem elements_eq (n : Node) : n.elements = n :: n.children.flatMap elements := by
  obtain ⟨tag, attrs, children, text⟩ := n
  rw [elements, elementsAll_eq_flatMap]

theorem Every.elements {p : Node → Prop} (h : n.Every p) : ∀ m ∈ n.elements, p m := by
  induction h with
  | mk hself _ ih =>
    intro m hm
    rw [elements_eq, List.mem_cons, List.mem_flatMap] at hm
    rcases hm with rfl | ⟨c, hc, hm⟩
    · exact hself
    · exact ih c hc m hm

/-- The element refers to the definition. -/
def Names (n : Node) (id : String) : Prop := ∃ attr ∈ n.attrs, Attr.Names n.tag attr id

/-- The element is text of the class. -/
def HasClass (n : Node) (name : String) : Prop := ∃ attr ∈ n.attrs, Attr.Styles n.tag attr name

end Node

/-! ### Rearranging -/

namespace Scene

variable {A : String → String × String → Prop} {n : Node}

theorem throughout_erase (h : n.Throughout A) (name : String) : (n.erase name).Throughout A :=
  h.of_subset (removeAttr_sublist n.attrs).subset

theorem throughout_withoutAttrs (names : List String) (h : n.Throughout A) :
    (withoutAttrs names n).Throughout A := by
  unfold withoutAttrs
  induction names generalizing n with
  | nil => exact h
  | cons name rest ih => exact ih (throughout_erase h name)

theorem throughout_groupOf {key : List (String × String)} {run : List Node}
    (hkey : ∀ attr ∈ key, A "g" attr) (hrun : ∀ n ∈ run, n.Throughout A) :
    (groupOf key run).Throughout A := by
  have hset (group : Node) (htag : group.tag = "g") (h : group.Throughout A) :
      (key.foldl (fun g attr => g.set attr.1 attr.2) group).Throughout A ∧
        (key.foldl (fun g attr => g.set attr.1 attr.2) group).tag = "g" := by
    induction key generalizing group with
    | nil => exact ⟨h, htag⟩
    | cons attr rest ih =>
      refine ih (fun attr hattr => hkey attr (List.mem_cons_of_mem _ hattr)) _ htag (h.set ?_)
      rw [htag]
      exact hkey attr List.mem_cons_self
  obtain ⟨h, _⟩ := hset { tag := "g" } rfl (.mk (by simp) (by simp))
  refine .mk h.self fun c hc => ?_
  obtain ⟨n, hn, rfl⟩ := List.mem_map.1 hc
  exact throughout_withoutAttrs _ (hrun n hn)

theorem throughout_hoistAttr {attr : String × String} (hattr : A n.tag attr)
    (h : n.Throughout A) : (hoistAttr n attr).Throughout A := by
  have herase : ∀ c ∈ n.children.map (·.erase attr.1), c.Throughout A := by
    intro _ hmem
    obtain ⟨c, hc, rfl⟩ := List.mem_map.1 hmem
    exact throughout_erase (h.children c hc) attr.1
  unfold hoistAttr
  split
  · split_ifs
    · exact .mk h.self herase
    · exact h
  · exact .mk (h.set hattr).self herase

theorem throughout_foldl_hoistAttr (attrs : List (String × String))
    (hattrs : ∀ attr ∈ attrs, A "g" attr) (hg : n.isGroup = true) (h : n.Throughout A) :
    (attrs.foldl hoistAttr n).Throughout A := by
  induction attrs generalizing n with
  | nil => exact h
  | cons attr rest ih =>
    have hself := hattrs attr List.mem_cons_self
    have htag : n.tag = "g" := by simpa [Node.isGroup] using hg
    rw [← htag] at hself
    exact ih (fun attr hattr => hattrs attr (List.mem_cons_of_mem _ hattr)) (hoistAttr_isGroup hg)
      (throughout_hoistAttr hself h)

theorem throughout_dissolve (h : n.Throughout A) : (dissolve n).Throughout A := by
  refine .mk h.self fun c hc => ?_
  obtain ⟨m, hm, hc⟩ := List.mem_flatMap.1 hc
  unfold unwrapped at hc
  split_ifs at hc
  · exact (h.children m hm).children c hc
  · rw [List.mem_singleton.1 hc]
    exact h.children m hm

variable (hgroup : ∀ tag attr, A tag attr → A "g" attr)

include hgroup

theorem throughout_wrapRun (minRun : Nat) {run : List Node} (hrun : ∀ n ∈ run, n.Throughout A) :
    ∀ n ∈ wrapRun minRun run, n.Throughout A := by
  cases run with
  | nil => exact hrun
  | cons first rest =>
    simp only [wrapRun]
    split_ifs
    · exact hrun
    · intro n hn
      rw [List.mem_singleton.1 hn]
      refine throughout_groupOf (fun attr hattr => ?_) hrun
      unfold groupKey at hattr
      split_ifs at hattr
      · exact hgroup _ attr ((hrun first List.mem_cons_self).self attr (mem_inherited.1 hattr).1)
      · cases hattr

theorem throughout_groupRuns (minRun : Nat) (h : n.Throughout A) :
    (groupRuns minRun n).Throughout A := by
  unfold groupRuns
  split_ifs
  · exact h
  · refine .mk h.self fun c hc => ?_
    obtain ⟨run, hrun, hc⟩ := List.mem_flatMap.1 hc
    refine throughout_wrapRun hgroup minRun (fun m hm => h.children m ?_) c hc
    rw [← List.flatten_splitBy (fun a b => groupKey a == groupKey b) n.children]
    exact List.mem_flatten_of_mem hrun hm

theorem throughout_hoist (hg : n.isGroup = true) (h : n.Throughout A) :
    (hoist n).Throughout A := by
  unfold hoist
  split_ifs
  · exact h
  · refine throughout_foldl_hoistAttr _ (fun attr hattr => ?_) hg h
    unfold commonAttrs at hattr
    split at hattr
    · cases hattr
    · next first rest hchildren =>
      have hfirst := h.children first (hchildren ▸ List.mem_cons_self)
      exact hgroup _ attr (hfirst.self attr (mem_inherited.1 (List.mem_filter.1 hattr).1).1)

/-- Rearranging a tree adds no attribute but such as elements of it have, to groups. -/
theorem throughout_optimize (minRun : Nat) (h : n.Throughout A) :
    (optimize minRun n).Throughout A := by
  induction h with
  | @mk n hself _ ih =>
    have hbelow : Node.Throughout A { n with children := n.children.map (optimize minRun) } := by
      refine .mk hself fun c hc => ?_
      obtain ⟨m, hm, rfl⟩ := List.mem_map.1 hc
      exact ih m hm
    have hruns := throughout_groupRuns hgroup minRun hbelow
    rw [optimize_eq]
    unfold rearrange
    split_ifs with hkeeps
    · exact hbelow
    · dsimp only
      split_ifs with hg
      · exact throughout_dissolve (throughout_hoist hgroup hg hruns)
      · exact throughout_dissolve hruns

end Scene

/-! ### Following references -/

/-- A tree refers to a definition: an element in it names that one, or is text of a class whose rule
is painted with it. -/
def Node.PointsTo (rules : Keyed String) (n : Node) (id : String) : Prop :=
  ∃ m ∈ n.elements, m.Names id ∨ ∃ rule ∈ rules, m.HasClass rule.2 ∧ PaintsWith rule.1 id

/-- A definition refers to another one. -/
def Refers (defs : List Node) (rules : Keyed String) (a b : String) : Prop :=
  ∃ n ∈ defs, n.get? "id" = some a ∧ n.PointsTo rules b

/-- References can be followed only so far. -/
def Grounded (R : String → String → Prop) : Prop := WellFounded (Function.swap R)

variable {R S : String → String → Prop}

/-- Following references never leads back. -/
theorem Grounded.not_transGen_self (h : Grounded R) (a : String) : ¬Relation.TransGen R a a := by
  intro hcycle
  have hswap : Relation.TransGen (Function.swap R) a a := Relation.transGen_swap.2 hcycle
  exact WellFounded.asymmetric (WellFounded.transGen h) a a hswap hswap

theorem Grounded.mono (h : Grounded S) (hRS : ∀ a b, R a b → S a b) : Grounded R :=
  Subrelation.wf (fun {_ _} => hRS _ _) h

/-- References stay grounded when all refer to what was known before, and what was known refers to
nothing new. -/
theorem Grounded.extend (h : Grounded R) (known : String → Prop) (hS : ∀ a b, S a b → known b)
    (hold : ∀ a b, known a → S a b → R a b) : Grounded S := by
  -- From what was known only the older references lead on, so the older order carries over.
  have hknown (a : String) (ha : known a) : Acc (Function.swap S) a := by
    induction a using WellFounded.induction h with
    | _ a ih => exact ⟨a, fun b hb => ih b (hold a b ha hb) (hS a b hb)⟩
  exact ⟨fun a => ⟨a, fun b hb => hknown b (hS a b hb)⟩⟩

end PageSvg
