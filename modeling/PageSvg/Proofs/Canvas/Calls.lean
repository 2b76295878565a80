import Mathlib.Data.List.Induction
import PageSvg.Canvas.Emission
import PageSvg.Proofs.Clip

/-!
# Calls that draw

What has been drawn comes about by calls, each of which puts one element on the canvas: as it is, or
in a clip region. Elements that follow on each other in one region share a group, so the content is
made of single elements and groups that hold the elements of the calls in their order.
-/

namespace PageSvg

variable {α : Type}

/-- The group of a clip region of some name around elements. -/
def Node.clipGroup (name : String) (children : List Node) : Node :=
  { tag := "g", attrs := [("clip-path", Node.reference name)], children }

/-! ### What has been drawn -/

/-- What has been drawn: the elements, the last first, and the clip region whose group is open. -/
def Context.drawn (k : Context α) : List Node × Option Nat := (k.content, k.openClip)

/-- The context with something else drawn. -/
def Context.withDrawn (k : Context α) (drawn : List Node × Option Nat) : Context α :=
  { k with content := drawn.1, openClip := drawn.2 }

/-- One call: of an element as it is, or of one in the clip region of a number, by its name. -/
inductive Call
  | raw (node : Node)
  | clipped (region : Nat) (name : String) (node : Node)

namespace Call

/-- The element that is drawn. -/
def node : Call → Node
  | raw node => node
  | clipped _ _ node => node

/-- The clip region in which the element is drawn. -/
def region? : Call → Option Nat
  | raw _ => none
  | clipped region _ _ => some region

/-- Adds an element to what has been drawn: to the last one if that is the open group of its region,
and otherwise after it. -/
def addTo (drawn : List Node × Option Nat) : Call → List Node × Option Nat
  | raw node => (node :: drawn.1, none)
  | clipped region name node =>
    match drawn.2 == some region, drawn.1 with
    | true, group :: rest => (group.push node :: rest, some region)
    | _, content => (Node.clipGroup name [node] :: content, some region)

/-- What has been drawn after some calls. -/
def draw (calls : List Call) (drawn : List Node × Option Nat) : List Node × Option Nat :=
  calls.foldl addTo drawn

theorem draw_append (calls more : List Call) (drawn : List Node × Option Nat) :
    draw (calls ++ more) drawn = draw more (draw calls drawn) := List.foldl_append

section Adding

variable {drawn : List Node × Option Nat} {region : Nat} {name : String} {node : Node}

/-- The group of the region is open: the element goes into it. -/
theorem addTo_of_open {group : Node} {rest : List Node} (hopen : drawn.2 = some region)
    (hcontent : drawn.1 = group :: rest) :
    (clipped region name node).addTo drawn = (group.push node :: rest, some region) := by
  unfold addTo
  dsimp only
  rw [hopen, hcontent, beq_self_eq_true]

/-- The group of the region is not open: a new one is drawn. -/
theorem addTo_of_closed (hclosed : drawn.2 = some region → drawn.1 = []) :
    (clipped region name node).addTo drawn =
      (Node.clipGroup name [node] :: drawn.1, some region) := by
  unfold addTo
  dsimp only
  by_cases hopen : drawn.2 = some region
  · rw [hopen, hclosed hopen, beq_self_eq_true]
  · rw [beq_eq_false_iff_ne.2 hopen]

/-- The group of the region is open, or it is not. -/
theorem open_or_closed (drawn : List Node × Option Nat) (region : Nat) :
    (∃ group rest, drawn.2 = some region ∧ drawn.1 = group :: rest) ∨
      (drawn.2 = some region → drawn.1 = []) := by
  cases hcontent : drawn.1 with
  | nil => exact .inr fun _ => rfl
  | cons group rest =>
    by_cases hopen : drawn.2 = some region
    · exact .inl ⟨group, rest, hopen, rfl⟩
    · exact .inr fun h => absurd h hopen

theorem snd_addTo (call : Call) (drawn : List Node × Option Nat) :
    (call.addTo drawn).2 = call.region? := by
  cases call with
  | raw node => rfl
  | clipped region name node =>
    rcases open_or_closed drawn region with ⟨group, rest, hopen, hcontent⟩ | hclosed
    · rw [addTo_of_open hopen hcontent, region?]
    · rw [addTo_of_closed hclosed, region?]

end Adding

end Call

/-- An element in a clip region is added to what has been drawn, and nothing else changes. -/
theorem Context.pushClipped_eq (k : Context α) (region : Nat) (name : String) (node : Node) :
    k.pushClipped region name node =
      k.withDrawn ((Call.clipped region name node).addTo k.drawn) := by
  rcases Call.open_or_closed k.drawn region with ⟨group, rest, hopen, hcontent⟩ | hclosed
  · rw [Call.addTo_of_open hopen hcontent]
    have hopen : k.openClip = some region := hopen
    have hcontent : k.content = group :: rest := hcontent
    unfold pushClipped
    rw [hopen, hcontent, beq_self_eq_true]
    rfl
  · rw [Call.addTo_of_closed hclosed]
    have hclosed : k.openClip = some region → k.content = [] := hclosed
    unfold pushClipped withDrawn drawn
    by_cases hopen : k.openClip = some region
    · rw [hopen, hclosed hopen, beq_self_eq_true]
      rfl
    · rw [beq_eq_false_iff_ne.2 hopen]
      rfl

/-! ### Groups -/

/-- The calls come to the elements, both in their order: one of an element as it is to that element,
and those in one region that follow on each other to the group of the region around theirs. -/
inductive Call.Wraps : List Call → List Node → Prop
  | nil : Wraps [] []
  | raw {calls : List Call} {content : List Node} (node : Node) (h : Wraps calls content) :
    Wraps (calls ++ [.raw node]) (content ++ [node])
  | group {calls : List Call} {content : List Node} (region : Nat) (name : String)
    {nodes : List Node} (hsome : nodes ≠ []) (h : Wraps calls content)
    (hother : calls.getLast?.bind Call.region? ≠ some region) :
    Wraps (calls ++ nodes.map (.clipped region name)) (content ++ [Node.clipGroup name nodes])

namespace Call

/-- The call names its region as some names do. -/
def NamedBy (names : Nat → String) : Call → Prop
  | raw _ => True
  | clipped region name _ => name = names region

/-- What comes last is a group if it was drawn in a region. -/
theorem Wraps.last_group {calls : List Call} {content : List Node} {region : Nat}
    (h : Wraps calls content) (hlast : calls.getLast?.bind Call.region? = some region) :
    ∃ before name nodes rest, nodes ≠ [] ∧ calls = before ++ nodes.map (.clipped region name) ∧
      content = rest ++ [Node.clipGroup name nodes] ∧ Wraps before rest ∧
      before.getLast?.bind Call.region? ≠ some region := by
  cases h with
  | nil => cases hlast
  | raw node h => rw [List.getLast?_concat] at hlast; cases hlast
  | @group before rest region' name nodes hsome h hother =>
    obtain ⟨nodes, node, rfl⟩ := (List.eq_nil_or_concat nodes).resolve_left hsome
    have hregion : region' = region := by
      rw [List.concat_eq_append, List.map_append, List.map_singleton, ← List.append_assoc,
        List.getLast?_concat] at hlast
      exact Option.some.inj hlast
    subst hregion
    exact ⟨before, name, _, rest, hsome, rfl, rfl, h, hother⟩

/-- **Drawing wraps the calls**, and the open group is that of the last one, if it was drawn in a
region. -/
theorem wraps_draw {names : Nat → String} (calls : List Call)
    (hnamed : ∀ call ∈ calls, call.NamedBy names) :
    Wraps calls (draw calls ([], none)).1.reverse ∧
      (draw calls ([], none)).2 = calls.getLast?.bind Call.region? := by
  induction calls using List.reverseRecOn with
  | nil => exact ⟨.nil, rfl⟩
  | append_singleton calls call ih =>
    rw [List.forall_mem_append, List.forall_mem_singleton] at hnamed
    obtain ⟨hwraps, hopen⟩ := ih hnamed.1
    have hdraw : draw (calls ++ [call]) ([], none) = call.addTo (draw calls ([], none)) :=
      draw_append ..
    rw [hdraw, List.getLast?_concat]
    refine ⟨?_, call.snd_addTo _⟩
    generalize draw calls ([], none) = drawn at hwraps hopen
    cases call with
    | raw node =>
      show Wraps _ (node :: drawn.1).reverse
      rw [List.reverse_cons]
      exact .raw node hwraps
    | clipped region name node =>
      by_cases hlast : calls.getLast?.bind Call.region? = some region
      · -- The group of the last calls takes the element in.
        obtain ⟨before, name', nodes, rest, hsome, rfl, hcontent, hrest, hother⟩ :=
          hwraps.last_group hlast
        have hname : name' = name := by
          obtain ⟨first, more, rfl⟩ := List.exists_cons_of_ne_nil hsome
          have hfirst := hnamed.1 (.clipped region name' first) (by simp)
          exact hfirst.trans hnamed.2.symm
        subst hname
        have hreverse : drawn.1 = Node.clipGroup name' nodes :: rest.reverse := by
          rw [← List.reverse_reverse drawn.1, hcontent, List.reverse_append]
          rfl
        rw [addTo_of_open (hopen.trans hlast) hreverse, List.reverse_cons, List.reverse_reverse,
          List.append_assoc]
        have hsome : nodes ++ [node] ≠ [] := List.append_ne_nil_of_right_ne_nil _ (by simp)
        have hgroup := Wraps.group region name' hsome hrest hother
        rw [List.map_append] at hgroup
        exact hgroup
      · have hclosed : drawn.2 = some region → drawn.1 = [] :=
          fun h => absurd (hopen.symm.trans h) hlast
        rw [addTo_of_closed hclosed, List.reverse_cons]
        exact .group region name (List.cons_ne_nil node []) hwraps hlast

end Call

/-! ### Drawing by calls -/

/-- The call draws an element under the effects of a state, in its clip region if it has one. Where
elements may be found to fit into their region, they may lie in none. -/
inductive Call.Under [Scalar α] (o : Options α) (g : GraphicsState α) : Call → Prop
  | raw (node : Node) (h : g.clip = none ∨ o.rectClipFastPath = true) :
    Under o g (.raw (g.withEffects node))
  | clipped (region : Nat) (name : String) (node : Node) (h : g.clip = some region) :
    Under o g (.clipped region name (g.withEffects node))

namespace Canvas

/-- From `c` to `d` elements are drawn, in their order. -/
def Adds (elements : List Node) (c d : Canvas α) : Prop :=
  ∃ calls : List Call, calls.map Call.node = elements ∧
    d.context.drawn = Call.draw calls c.context.drawn

variable {c d e : Canvas α} {xs ys : List Node}

theorem Adds.of_eq (h : d.context.drawn = c.context.drawn) : Adds [] c d := ⟨[], rfl, h⟩

theorem Adds.trans (h : Adds xs c d) (h' : Adds ys d e) : Adds (xs ++ ys) c e := by
  obtain ⟨calls, rfl, hdrawn⟩ := h
  obtain ⟨more, rfl, hdrawn'⟩ := h'
  exact ⟨calls ++ more, List.map_append, by rw [Call.draw_append, hdrawn', hdrawn]⟩

/-- The canvas with one more element drawn, whose region is marked then. -/
def withCall (c : Canvas α) (call : Call) : Canvas α :=
  { c with
    context := c.context.withDrawn (call.addTo c.context.drawn)
    clips := call.region?.elim c.clips c.clips.mark }

variable [Scalar α] (o : Options α)

/-- The call by which an element is drawn within some bounds: under the effects in force, and in the
clip region in force unless clipping cannot change it. -/
def call (c : Canvas α) (node : Node) (bounds : Option (Rectangle α)) : Call :=
  let node := c.graphics.withEffects node
  match c.graphics.clip with
  | none => .raw node
  | some region =>
    if c.fits o bounds then .raw node else .clipped region (c.clips.id region) node

/-- An element is drawn as it is, or in the region in force. -/
theorem call_cases (c : Canvas α) (node : Node) (bounds : Option (Rectangle α)) :
    (c.call o node bounds = .raw (c.graphics.withEffects node) ∧
        (c.graphics.clip = none ∨ c.fits o bounds = true)) ∨
      ∃ region, c.graphics.clip = some region ∧ c.fits o bounds = false ∧
        c.call o node bounds =
          .clipped region (c.clips.id region) (c.graphics.withEffects node) := by
  unfold call
  cases c.graphics.clip with
  | none => exact .inl ⟨rfl, .inl rfl⟩
  | some region =>
    dsimp only
    cases c.fits o bounds with
    | true => exact .inl ⟨rfl, .inr rfl⟩
    | false => exact .inr ⟨region, rfl, rfl, rfl⟩

theorem node_call (c : Canvas α) (node : Node) (bounds : Option (Rectangle α)) :
    (c.call o node bounds).node = c.graphics.withEffects node := by
  rcases c.call_cases o node bounds with ⟨hcall, -⟩ | ⟨region, -, -, hcall⟩
  · rw [hcall, Call.node]
  · rw [hcall, Call.node]

theorem under_call (c : Canvas α) (node : Node) (bounds : Option (Rectangle α)) :
    (c.call o node bounds).Under o c.graphics := by
  rcases c.call_cases o node bounds with ⟨hcall, hfits⟩ | ⟨region, hclip, -, hcall⟩
  · rw [hcall]
    refine .raw node (hfits.imp_right fun hfits => ?_)
    unfold fits at hfits
    cases ho : o.rectClipFastPath with
    | true => rfl
    | false =>
      rw [ho] at hfits
      cases hfits
  · rw [hcall]
    exact .clipped region _ node hclip

/-- An element that is drawn is added by its call. -/
theorem append_eq (c : Canvas α) (node : Node) (bounds : Option (Rectangle α)) :
    c.append o node bounds = c.withCall (c.call o node bounds) := by
  unfold append call
  cases c.graphics.clip with
  | none => rfl
  | some region =>
    dsimp only
    split
    · rfl
    · rw [ClipForest.id_mark]
      exact congrArg (fun k => { c with context := k, clips := c.clips.mark region })
        (c.context.pushClipped_eq ..)

end Canvas

end PageSvg
