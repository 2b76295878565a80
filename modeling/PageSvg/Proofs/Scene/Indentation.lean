import PageSvg.Layout.Element
import PageSvg.Scene.Markup
import PageSvg.Proofs.Scene.Rendering

/-!
# Indented markup

The markup of a tree is a list of parts, tags and texts, each inside some of the elements.
Indentation changes none of them: it puts a line break before some of the tags (`text_eq_written`).
No break stands among the children of a text element, and none anywhere inside it if the elements
inside that have children have a text of their own.
-/

namespace PageSvg.Markup

/-! ### Parts -/

/-- A part of markup: a tag, or the text of an element. -/
inductive Part
  | start (tag : String) (attrs : List (String × String))
  /-- The tag of an element without content. -/
  | whole (tag : String) (attrs : List (String × String))
  | body (tag : String) (text : Option String)
  | stop (tag : String)
  deriving DecidableEq

namespace Part

/-- A part as it is written. -/
def text : Part → String
  | start tag attrs => "<" ++ tag ++ attrsText attrs ++ ">"
  | whole tag attrs => "<" ++ tag ++ attrsText attrs ++ "/>"
  | body tag text => bodyText tag text
  | stop tag => "</" ++ tag ++ ">"

/-- Is the part a tag? -/
def isTag : Part → Bool
  | body .. => false
  | _ => true

/-- Is the part an end tag? -/
def isStop : Part → Bool
  | stop _ => true
  | _ => false

/-- The character content that the part stands for. -/
def content : Part → String
  | body tag text => bodyText tag text
  | _ => ""

end Part

/-- A part with the elements that it stands inside, the innermost first. An end tag stands inside
its element, a start tag does not. -/
structure PlacedPart where
  around : List Node
  part : Part

mutual

/-- The parts of a tree inside some elements. -/
def parts (around : List Node) : Node → List PlacedPart
  | ⟨tag, attrs, children, text⟩ =>
    if children.isEmpty && text.isNone then [⟨around, .whole tag attrs⟩]
    else
      let inner := ⟨tag, attrs, children, text⟩ :: around
      ⟨around, .start tag attrs⟩ :: ⟨inner, .body tag text⟩ ::
        (partsAll inner children ++ [⟨inner, .stop tag⟩])

/-- The parts of several trees inside some elements. -/
def partsAll (around : List Node) : List Node → List PlacedPart
  | [] => []
  | n :: rest => parts around n ++ partsAll around rest

end

namespace PlacedPart

/-- The depth of the line break before a part, if there is one, in the markup
of a tree at a depth. -/
def line? (pretty : Bool) (depth : Nat) (p : PlacedPart) : Option Nat :=
  match p.around with
  | [] => none
  | e :: outer =>
    if p.part.isTag && indents pretty e.tag e.text then
      some (depth + outer.length + if p.part.isStop then 0 else 1)
    else none

/-- The line break before a part. -/
def gap (pretty : Bool) (depth : Nat) (p : PlacedPart) : String :=
  (p.line? pretty depth).elim "" lineBreak

/-- Does the part stand inside a text element? -/
def InText (p : PlacedPart) : Prop := ∃ e ∈ p.around, e.tag = "text"

end PlacedPart

/-- What is rendered as text: the characters inside text elements, line breaks included. -/
def renderedText (pretty : Bool) (depth : Nat) (n : Node) : String :=
  String.join (((parts [] n).filter fun p => p.around.any (·.tag == "text")).map fun p =>
    p.gap pretty depth ++ p.part.content)

/-! ### Markup in parts -/

section Join

variable {pretty : Bool} {depth : Nat}

/-- Parts as they are written, with the line breaks before them. -/
def written (pretty : Bool) (depth : Nat) (ps : List PlacedPart) : String :=
  String.join (ps.map fun p => p.gap pretty depth ++ p.part.text)

theorem written_append (ps qs : List PlacedPart) :
    written pretty depth (ps ++ qs) = written pretty depth ps ++ written pretty depth qs := by
  rw [written, List.map_append, String.join_append]
  rfl

theorem written_cons (p : PlacedPart) (ps : List PlacedPart) :
    written pretty depth (p :: ps) =
      p.gap pretty depth ++ p.part.text ++ written pretty depth ps := by
  rw [written, List.map_cons, String.join_cons]
  rfl

theorem join_ite (p : Bool) (s : String) :
    String.join (if p then [s] else []) = if p then s else "" := by
  split
  · rw [String.join_cons, String.join_nil, String.append_empty]
  · rfl

/-- The line break before a child of the innermost element. -/
def childGap (pretty : Bool) (depth : Nat) (around : List Node) : String :=
  match around with
  | [] => ""
  | e :: outer => if indents pretty e.tag e.text then lineBreak (depth + outer.length + 1) else ""

theorem gap_of_start {around : List Node} {part : Part} (htag : part.isTag = true)
    (hstop : part.isStop = false) :
    PlacedPart.gap pretty depth ⟨around, part⟩ = childGap pretty depth around := by
  unfold PlacedPart.gap PlacedPart.line? childGap
  cases around with
  | nil => rfl
  | cons e outer =>
    dsimp only
    rw [htag, hstop, Bool.true_and]
    split <;> rfl

theorem gap_of_body (around : List Node) (tag : String) (text : Option String) :
    PlacedPart.gap pretty depth ⟨around, .body tag text⟩ = "" := by
  cases around with
  | nil => rfl
  | cons e outer => rfl

theorem gap_of_stop (e : Node) (outer : List Node) (tag : String) :
    PlacedPart.gap pretty depth ⟨e :: outer, .stop tag⟩ =
      if indents pretty e.tag e.text then lineBreak (depth + outer.length) else "" := by
  show Option.elim (if indents pretty e.tag e.text then some (depth + outer.length) else none)
    "" _ = _
  split <;> rfl

mutual

/-- The pieces of a tree are its parts, but for the line break before it. -/
theorem join_pieces : ∀ (n : Node) (around : List Node),
    childGap pretty depth around ++ String.join (pieces pretty (depth + around.length) n) =
      written pretty depth (parts around n)
  | ⟨tag, attrs, children, text⟩, around => by
    cases hwhole : (children.isEmpty && text.isNone) with
    | true =>
      rw [pieces, parts, if_pos hwhole, if_pos hwhole, written_cons, gap_of_start rfl rfl]
      simp [Part.text, written, String.append_assoc]
    | false =>
      have hchildren := join_childPieces children ⟨tag, attrs, children, text⟩ around
      -- An element that is indented has no text, so it has children.
      have hindent : (indents pretty tag text && !children.isEmpty) = indents pretty tag text := by
        cases text with
        | none => simpa using fun _ => hwhole
        | some s => simp [indents]
      rw [pieces, parts, hwhole, if_neg Bool.false_ne_true, if_neg Bool.false_ne_true]
      dsimp only at hchildren ⊢
      rw [written_cons, written_cons, written_append, written_cons, gap_of_start rfl rfl,
        gap_of_body, gap_of_stop, ← hchildren, hindent]
      simp only [String.join_append, join_ite]
      simp [Part.text, written, String.append_assoc]

/-- The pieces of the children of an element are their parts. -/
theorem join_childPieces : ∀ (nodes : List Node) (e : Node) (outer : List Node),
    String.join (childPieces pretty (indents pretty e.tag e.text) (depth + outer.length + 1) nodes) =
      written pretty depth (partsAll (e :: outer) nodes)
  | [], e, outer => rfl
  | n :: rest, e, outer => by
    have hfirst := join_pieces n (e :: outer)
    rw [List.length_cons, ← Nat.add_assoc] at hfirst
    rw [childPieces, partsAll, written_append, String.join_append, String.join_append,
      join_childPieces rest e outer, ← hfirst]
    rw [join_ite]
    rfl

end

/-- **Markup is its parts with the line breaks before them.** -/
theorem text_eq_written (n : Node) (pretty : Bool) (depth : Nat) :
    text n pretty depth = written pretty depth (parts [] n) := by
  rw [← join_pieces n []]
  exact String.empty_append.symm

end Join

/-! ### Where lines are broken -/

section Breaks

variable {depth : Nat}

/-- Compact markup has no line breaks. -/
theorem gap_compact (p : PlacedPart) : p.gap false depth = "" := by
  unfold PlacedPart.gap PlacedPart.line?
  split
  · rfl
  · simp [indents]

/-- A line is broken before a tag, when the innermost element around it is not a text
element and has no text. -/
theorem line?_pretty_iff (p : PlacedPart) :
    (p.line? true depth).isSome = true ↔
      p.part.isTag = true ∧ ∃ e outer, p.around = e :: outer ∧ e.tag ≠ "text" ∧ e.text = none := by
  unfold PlacedPart.line?
  split
  · next h => simp [h]
  · next e outer h => simp [h, indents]

end Breaks

end PageSvg.Markup

namespace PageSvg.Node

/-- All elements of the tree that have children have a text of their own or are text elements. -/
def Filled (n : Node) : Prop := n.Every fun e => e.children ≠ [] → e.tag = "text" ∨ e.text ≠ none

/-- Inside text elements, all elements that have children have a text of their own or are text
elements. -/
def TextsFilled (n : Node) : Prop := n.Every fun e => e.tag = "text" → e.Filled

end PageSvg.Node

namespace PageSvg.Markup

open Node

/-! ### Inside text elements -/

/-- If one of the elements around is a text element, the innermost one is one or has a text. -/
def Unbroken (around : List Node) : Prop :=
  (∃ e ∈ around, e.tag = "text") → ∀ e outer, around = e :: outer → e.tag = "text" ∨ e.text ≠ none

theorem Unbroken.cons {n : Node} {around : List Node} (htexts : n.TextsFilled)
    (hfilled : (∃ e ∈ around, e.tag = "text") → n.Filled)
    (hcontent : (n.children.isEmpty && n.text.isNone) = false) : Unbroken (n :: around) := by
  rintro ⟨t, ht, htext⟩ e outer heq
  cases heq
  have hn : n.Filled := by
    rcases List.mem_cons.1 ht with rfl | ht
    · exact htexts.self htext
    · exact hfilled ⟨t, ht, htext⟩
  cases hchildren : n.children with
  | nil =>
    rw [hchildren] at hcontent
    exact .inr fun hnone => by simp [hnone] at hcontent
  | cons c rest => exact hn.self (hchildren ▸ List.cons_ne_nil c rest)

mutual

theorem unbroken_of_mem_parts : ∀ (n : Node) (around : List Node), n.TextsFilled →
    ((∃ e ∈ around, e.tag = "text") → n.Filled) → Unbroken around →
    ∀ p ∈ parts around n, Unbroken p.around
  | ⟨tag, attrs, children, text⟩, around, htexts, hfilled, haround, p, hp => by
    rw [parts] at hp
    split at hp
    · rw [List.mem_singleton.1 hp]
      exact haround
    · next hcontent =>
      have hinner : Unbroken (⟨tag, attrs, children, text⟩ :: around) :=
        .cons htexts hfilled (Bool.eq_false_iff.2 hcontent)
      have hchildren : (∃ e ∈ ⟨tag, attrs, children, text⟩ :: around, e.tag = "text") →
          ∀ c ∈ children, c.Filled := by
        rintro ⟨e, he, htext⟩
        rcases List.mem_cons.1 he with rfl | he
        · exact (htexts.self htext).children
        · exact (hfilled ⟨e, he, htext⟩).children
      simp only [List.mem_cons, List.mem_append, List.not_mem_nil, or_false] at hp
      rcases hp with rfl | rfl | hp | rfl
      · exact haround
      · exact hinner
      · exact unbroken_of_mem_partsAll children _ htexts.children hchildren hinner p hp
      · exact hinner

theorem unbroken_of_mem_partsAll : ∀ (nodes : List Node) (around : List Node),
    (∀ c ∈ nodes, c.TextsFilled) → ((∃ e ∈ around, e.tag = "text") → ∀ c ∈ nodes, c.Filled) →
    Unbroken around → ∀ p ∈ partsAll around nodes, Unbroken p.around
  | [], _, _, _, _, p, hp => nomatch hp
  | n :: rest, around, htexts, hfilled, haround, p, hp => by
    obtain ⟨hn, hrest⟩ := List.forall_mem_cons.1 htexts
    rcases List.mem_append.1 hp with hp | hp
    · exact unbroken_of_mem_parts n around hn
        (fun h => hfilled h n List.mem_cons_self) haround p hp
    · exact unbroken_of_mem_partsAll rest around hrest
        (fun h c hc => hfilled h c (List.mem_cons_of_mem n hc)) haround p hp

end

/-- No line is broken inside a text element whose elements with children are filled. -/
theorem line?_of_inText {n : Node} (h : n.TextsFilled) {p : PlacedPart} (hp : p ∈ parts [] n)
    (htext : p.InText) (depth : Nat) : p.line? true depth = none := by
  have hunbroken : Unbroken p.around :=
    unbroken_of_mem_parts n [] h (fun ⟨_, he, _⟩ => nomatch he) (fun ⟨_, he, _⟩ => nomatch he) p hp
  rw [← Option.isNone_iff_eq_none, ← Option.not_isSome, Bool.not_eq_true', Bool.eq_false_iff]
  intro hsome
  obtain ⟨-, e, outer, heq, htag, hnone⟩ := (line?_pretty_iff p).1 hsome
  rcases hunbroken htext e outer heq with htag' | htext'
  · exact htag htag'
  · exact htext' hnone

/-- **Indentation only puts line breaks before tags.** The compact markup of a tree is that of its
parts; the indented markup has besides a line break and spaces before some tags, exactly where the
innermost element around is not a text element and has no text. So none stands among the children of
a text element, and if the elements inside text elements that have children have a text of their
own, none stands anywhere inside a text element, and the same text is rendered. -/
theorem text_indented (n : Node) (depth : Nat) :
    text n false depth = String.join ((parts [] n).map fun p => p.part.text) ∧
      text n true depth = String.join ((parts [] n).map fun p =>
        (p.line? true depth).elim "" lineBreak ++ p.part.text) ∧
      (∀ p ∈ parts [] n, (p.line? true depth).isSome = true ↔ p.part.isTag = true ∧
        ∃ e outer, p.around = e :: outer ∧ e.tag ≠ "text" ∧ e.text = none) ∧
      (n.TextsFilled → (∀ p ∈ parts [] n, p.InText → p.line? true depth = none) ∧
        renderedText true depth n = renderedText false depth n) := by
  refine ⟨?_, text_eq_written n true depth, fun p _ => line?_pretty_iff p, fun h => ?_⟩
  · rw [text_eq_written, written]
    exact congrArg String.join (List.map_congr_left fun p _ => by
      rw [gap_compact, String.empty_append])
  · have hnone (p : PlacedPart) (hp : p ∈ parts [] n) (htext : p.InText) :
        p.line? true depth = none := line?_of_inText h hp htext depth
    refine ⟨hnone, congrArg String.join (List.map_congr_left fun p hp => ?_)⟩
    obtain ⟨hp, htext⟩ := List.mem_filter.1 hp
    have htext : p.InText := by simpa [PlacedPart.InText] using htext
    rw [gap_compact, PlacedPart.gap, hnone p hp htext]
    rfl

/-- A group with a text of two parts, and an image. -/
theorem text_indented_parts :
    let n : Node := ⟨"g", [],
      [⟨"text", [], [⟨"tspan", [], [], some "a"⟩, ⟨"tspan", [], [], some " b"⟩], none⟩,
        ⟨"image", [], [], none⟩], none⟩
    n.TextsFilled ∧
      text n true = "<g>\n  <text><tspan>a</tspan><tspan> b</tspan></text>\n  <image/>\n</g>" ∧
      renderedText true 0 n = "a b" ∧ renderedText false 0 n = "a b" := by
  intro n
  have hleaf (tag : String) (s : Option String) (htag : tag ≠ "text") :
      TextsFilled ⟨tag, [], [], s⟩ :=
    .mk (fun h => absurd h htag) fun _ hc => nomatch hc
  have hn : n.TextsFilled := by
    refine .mk (fun h => absurd h (by decide)) (List.forall_mem_cons.2 ⟨.mk (fun _ => ?_) ?_,
      List.forall_mem_singleton.2 (hleaf _ _ (by decide))⟩)
    · refine .mk (fun _ => .inl rfl) (List.forall_mem_cons.2 ⟨?_, List.forall_mem_singleton.2 ?_⟩)
      all_goals exact .mk (fun h => absurd rfl h) fun _ hc => nomatch hc
    · exact List.forall_mem_cons.2 ⟨hleaf _ _ (by decide),
        List.forall_mem_singleton.2 (hleaf _ _ (by decide))⟩
  obtain ⟨-, hindented, -, htexts⟩ := text_indented n 0
  obtain ⟨-, hrendered⟩ := htexts hn
  have hcompact : renderedText false 0 n = "a b" := by decide
  exact ⟨hn, hindented.trans (by decide), hrendered.trans hcompact, hcompact⟩

/-- A part of a text element that has parts of its own and no text: lines are broken inside the text
element. -/
theorem text_broken_inside :
    let n : Node := ⟨"text", [], [⟨"tspan", [], [⟨"tspan", [], [], some "a"⟩], none⟩], none⟩
    text n false = "<text><tspan><tspan>a</tspan></tspan></text>" ∧
      text n true = "<text><tspan>\n    <tspan>a</tspan>\n  </tspan></text>" ∧
      (∃ p ∈ parts [] n, p.InText ∧ p.line? true 0 = some 2) ∧
      renderedText false 0 n = "a" ∧ renderedText true 0 n = "\n    a\n  " := by
  intro n
  refine ⟨by decide, by decide, ?_, by decide, by decide⟩
  exact ⟨⟨[⟨"tspan", [], [⟨"tspan", [], [], some "a"⟩], none⟩, n], .start "tspan" []⟩,
    .tail _ (.tail _ (.tail _ (.tail _ (.head _)))), ⟨n, .tail _ (.head _), rfl⟩, rfl⟩

end PageSvg.Markup

namespace PageSvg.Layout

/-! ### The texts of a page -/

section Texts

variable {α : Type} [Scalar α] (o : Options α) (p : Paragraph α) (part : TextPart)

theorem children_inners (last : Option Nat) (spans : List (PlacedSpan α)) (d : Definitions) :
    ∀ c ∈ (inners o part last spans d).1, c.children = [] := by
  induction spans generalizing last d with
  | nil => exact fun _ hc => nomatch hc
  | cons s rest ih => exact List.forall_mem_cons.2 ⟨rfl, ih (some s.index) _⟩

theorem children_mapM_stretched (spans : List (PlacedSpan α)) (d : Definitions) :
    ∀ c ∈ (spans.mapM (stretched o p part) d).1, c.tag = "text" ∧ c.children = [] := by
  induction spans generalizing d with
  | nil => exact fun _ hc => nomatch hc
  | cons s rest ih =>
    rw [List.mapM_cons]
    exact List.forall_mem_cons.2 ⟨⟨rfl, rfl⟩, ih _⟩

theorem textsFilled_of_children {n : Node} (h : ∀ c ∈ n.children, c.children = [])
    (htag : n.tag = "text") : n.TextsFilled := by
  have hleaf {p : Node → Prop} {c : Node} (hc : c.children = []) (hp : p c) : c.Every p :=
    .mk hp fun _ hd => by rw [hc] at hd; cases hd
  refine .mk (fun _ => .mk (fun _ => .inl htag) fun c hc => ?_) fun c hc => ?_
  · exact hleaf (h c hc) fun hne => absurd (h c hc) hne
  · exact hleaf (h c hc) fun _ => hleaf (h c hc) fun hne => absurd (h c hc) hne

/-- The text elements of a paragraph render the same text with and without indentation. -/
theorem textsFilled_nodes (hglyphs : p.glyphs? = none) (d : Definitions) :
    ∀ n ∈ ((nodes o p part).run d).1, n.TextsFilled := by
  unfold nodes
  rw [hglyphs]
  cases selected p part with
  | nil => exact fun _ hn => nomatch hn
  | cons first rest =>
    show ∀ n ∈ (spanNodes o p part (first :: rest) d).1, n.TextsFilled
    rw [spanNodes]
    split
    · intro n hn
      obtain ⟨htag, hchildren⟩ := children_mapM_stretched o p part (first :: rest) d n hn
      exact textsFilled_of_children (by rw [hchildren]; exact fun _ hc => nomatch hc) htag
    · dsimp only
      split
      · exact List.forall_mem_singleton.2
          (textsFilled_of_children (fun _ hc => nomatch hc) rfl)
      · exact List.forall_mem_singleton.2
          (textsFilled_of_children (children_inners o part none (first :: rest) d) rfl)

end Texts

end PageSvg.Layout
