import PageSvg.Proofs.Canvas.SavedStates
import PageSvg.Proofs.Canvas.Simulation
import PageSvg.Proofs.Layout.Letters

/-!
# Text that is still to be drawn

Text that was shown waits until something else is drawn. Then its paragraphs become elements that
read as their letters, and what clips is kept for the end of the text object. So an operator that
neither shows text nor ends its object does one of two things: it leaves the elements and the text
alone, or it draws as it would have drawn had the waiting text been drawn before.
-/

namespace PageSvg

open Draw

variable {α β γ : Type}

/-! ### Elements -/

namespace Node

theorem characters_wrapped (n : Node) (name value : String) :
    (n.wrapped name value).characters = n.characters := List.append_nil _

theorem characters_set (n : Node) (name value : String) :
    (n.set name value).characters = n.characters := by
  cases n
  rfl

/-- Effects leave the characters alone. -/
theorem characters_withEffects (g : GraphicsState α) (n : Node) :
    (g.withEffects n).characters = n.characters := by
  have hblended (mode : Option String) : (n.blended mode).characters = n.characters := by
    unfold blended
    split
    · rfl
    · dsimp only
      split
      · exact characters_wrapped ..
      · exact characters_set ..
  have hmasked (m : Node) (mask : Option String) : (m.masked mask).characters = m.characters := by
    unfold masked
    split
    · rfl
    · exact characters_wrapped ..
  exact (hmasked _ _).trans (hblended _)

theorem charactersEach_append (l m : List Node) :
    charactersEach (l ++ m) = charactersEach l ++ charactersEach m := by
  rw [charactersEach_eq, charactersEach_eq, charactersEach_eq, List.flatMap_append]

theorem characters_push (n child : Node) :
    (n.push child).characters = n.characters ++ child.characters := by
  obtain ⟨tag, attrs, children, text⟩ := n
  have hchildren : charactersEach (children ++ [child]) =
      charactersEach children ++ child.characters :=
    (charactersEach_append children [child]).trans (congrArg _ (List.append_nil _))
  show _ ++ charactersEach (children ++ [child]) = _
  rw [hchildren, ← List.append_assoc]
  rfl

theorem charactersEach_map_withEffects (g : GraphicsState α) (nodes : List Node) :
    charactersEach (nodes.map g.withEffects) = charactersEach nodes := by
  rw [charactersEach_eq, charactersEach_eq, List.flatMap_map]
  simp only [characters_withEffects]

end Node

/-- What has been drawn reads as before and then as the elements that are added: groups have
no text of their own. -/
theorem Canvas.Adds.charactersEach_content {elements : List Node} {c d : Canvas α}
    (h : Adds elements c d) : Node.charactersEach d.content =
      Node.charactersEach c.content ++ Node.charactersEach elements := by
  have hcall (call : Call) (drawn : List Node × Option Nat) :
      Node.charactersEach (call.addTo drawn).1.reverse =
        Node.charactersEach drawn.1.reverse ++ call.node.characters := by
    have hcons (node : Node) (nodes : List Node) : Node.charactersEach (node :: nodes).reverse =
        Node.charactersEach nodes.reverse ++ node.characters := by
      rw [List.reverse_cons, Node.charactersEach_append]
      exact congrArg _ (List.append_nil _)
    cases call with
    | raw node => exact hcons node drawn.1
    | clipped region name node =>
      rcases Call.open_or_closed drawn region with ⟨group, rest, hopen, hcontent⟩ | hclosed
      · rw [Call.addTo_of_open hopen hcontent, hcontent, hcons, hcons, Node.characters_push,
          List.append_assoc]
        rfl
      · rw [Call.addTo_of_closed hclosed, hcons]
        exact congrArg _ (List.append_nil _)
  have hdraw (calls : List Call) (drawn : List Node × Option Nat) :
      Node.charactersEach (Call.draw calls drawn).1.reverse =
        Node.charactersEach drawn.1.reverse ++ Node.charactersEach (calls.map Call.node) := by
    induction calls generalizing drawn with
    | nil => exact (List.append_nil _).symm
    | cons call calls ih =>
      refine (ih (call.addTo drawn)).trans ?_
      rw [hcall, List.append_assoc]
      rfl
  obtain ⟨calls, rfl, hdrawn⟩ := h
  have hcontent : d.content = (Call.draw calls c.context.drawn).1.reverse :=
    congrArg (·.1.reverse) hdrawn
  rw [hcontent]
  exact hdraw calls c.context.drawn

/-! ### Drawing elements -/

namespace Canvas

/-- From `c` to `d` elements are drawn by some calls, and nothing else about the context changes. -/
structure Draws (calls : List Call) (c d : Canvas α) : Prop where
  context : d.context = c.context.withDrawn d.context.drawn
  drawn : d.context.drawn = Call.draw calls c.context.drawn

variable {c d e : Canvas α} {xs ys : List Call}

theorem Draws.of_eq (h : d.context = c.context) : Draws [] c d := by
  refine ⟨?_, ?_⟩
  · rw [h]
    rfl
  · rw [h]
    rfl

theorem Draws.trans (h : Draws xs c d) (h' : Draws ys d e) : Draws (xs ++ ys) c e := by
  refine ⟨?_, ?_⟩
  · rw [h'.context, h.context]
    rfl
  · rw [h'.drawn, h.drawn, Call.draw_append]

theorem Draws.graphics (h : Draws xs c d) : d.graphics = c.graphics := by
  rw [Canvas.graphics, h.context]
  rfl

theorem Draws.adds (h : Draws xs c d) : Adds (xs.map Call.node) c d := ⟨xs, rfl, h.drawn⟩

theorem draws_push (c : Canvas α) (node : Node) : Draws [.raw node] c (c.push node) := ⟨rfl, rfl⟩

theorem draws_pushAll (c : Canvas α) (nodes : List Node) :
    Draws (nodes.map .raw) c (c.pushAll nodes) := by
  unfold pushAll
  induction nodes generalizing c with
  | nil => exact .of_eq rfl
  | cons node rest ih => exact (c.draws_push node).trans (ih _)

variable [Scalar α] (o : Options α)

theorem draws_append (c : Canvas α) (node : Node) (bounds : Option (Rectangle α)) :
    Draws [c.call o node bounds] c (c.append o node bounds) := by
  rw [append_eq]
  exact ⟨rfl, rfl⟩

/-- Elements are drawn one by one under the effects in force. -/
theorem draws_appendAll (c : Canvas α) (nodes : List Node) (bounds : Option (Rectangle α)) :
    ∃ calls, Draws calls c (nodes.foldl (fun c node => c.append o node bounds) c) ∧
      calls.map Call.node = nodes.map c.graphics.withEffects ∧
      ∀ call ∈ calls, call.Under o c.graphics := by
  induction nodes generalizing c with
  | nil => exact ⟨[], .of_eq rfl, rfl, fun _ hcall => nomatch hcall⟩
  | cons node rest ih =>
    have hnode := c.draws_append o node bounds
    obtain ⟨calls, hcalls, hnodes, hunder⟩ := ih (c.append o node bounds)
    rw [hnode.graphics] at hnodes hunder
    refine ⟨c.call o node bounds :: calls, hnode.trans hcalls, ?_,
      List.forall_mem_cons.2 ⟨c.under_call o node bounds, hunder⟩⟩
    rw [List.map_cons, List.map_cons, c.node_call, hnodes]

/-- A part of a paragraph is drawn under the effects in force, as elements that read as
the letters in the part. -/
theorem draws_drawPart (c : Canvas α) {p : Paragraph α} (hp : p.glyphs? = none)
    (bounds : Option (Rectangle α)) (part : TextPart) :
    ∃ calls, Draws calls c (c.drawPart o p bounds part) ∧
      Node.charactersEach (calls.map Call.node) = part.read p.letters ∧
      ∀ call ∈ calls, call.Under o c.graphics := by
  have hrules : Draws [] c (c.paragraphNodes o p part).2 := .of_eq rfl
  obtain ⟨calls, hcalls, hnodes, hunder⟩ :=
    draws_appendAll o (c.paragraphNodes o p part).2 (c.paragraphNodes o p part).1 bounds
  refine ⟨calls, hrules.trans hcalls, ?_, hunder⟩
  rw [hnodes, Node.charactersEach_map_withEffects, Node.charactersEach_eq]
  exact Layout.characters_nodes o p part c.definitions hp

end Canvas

/-! ### Drawing paragraphs -/

/-- The elements read as the visible letters, and then as the invisible ones if hidden text is
included. -/
def ReadsAs (o : Options α) (letters : List Letter) (elements : List Node) : Prop :=
  ∃ visible invisible, elements = visible ++ invisible ∧
    Node.charactersEach visible = TextPart.visible.read letters ∧
    Node.charactersEach invisible =
      if o.includeHiddenText then TextPart.invisible.read letters else []

namespace Canvas

variable [Scalar α]

/-- From `c` to `d` paragraphs with some letters are drawn, each by its calls, under the effects in
force, and their clipping letters are added to the outlines. -/
structure DrawsText (o : Options α) (paragraphs : List (List Letter × List Call))
    (c d : Canvas α) : Prop where
  reads : ∀ p ∈ paragraphs, ReadsAs o p.1 (p.2.map Call.node)
  under : ∀ p ∈ paragraphs, ∀ call ∈ p.2, call.Under o c.graphics
  graphics : d.graphics = c.graphics
  drawn : d.context.drawn = Call.draw (paragraphs.flatMap (·.2)) c.context.drawn
  outlines : Node.charactersEach d.context.outlines =
    Node.charactersEach c.context.outlines ++ TextPart.clip.read (paragraphs.flatMap (·.1))
  layout : d.context.layout = c.context.layout

variable {o : Options α} {c d e : Canvas α} {xs ys : List (List Letter × List Call)}

theorem DrawsText.refl (c : Canvas α) : DrawsText o [] c c :=
  ⟨fun _ hp => absurd hp List.not_mem_nil, fun _ hp => absurd hp List.not_mem_nil, rfl, rfl,
    (List.append_nil _).symm, rfl⟩

theorem DrawsText.trans (h : DrawsText o xs c d) (h' : DrawsText o ys d e) :
    DrawsText o (xs ++ ys) c e where
  reads := List.forall_mem_append.2 ⟨h.reads, h'.reads⟩
  under := List.forall_mem_append.2 ⟨h.under, h.graphics ▸ h'.under⟩
  graphics := h'.graphics.trans h.graphics
  drawn := by rw [h'.drawn, h.drawn, List.flatMap_append, Call.draw_append]
  outlines := by
    rw [h'.outlines, h.outlines, List.append_assoc, List.flatMap_append, TextPart.read_append]
  layout := h'.layout.trans h.layout

theorem drawsText_drawParagraph (c : Canvas α) {p : Paragraph α} (hp : p.glyphs? = none) :
    ∃ calls, DrawsText o [(p.letters, calls)] c (c.drawParagraph o p) := by
  let bounds := paragraphBounds p
  obtain ⟨visible, hvisible, hreads, hunder⟩ := draws_drawPart o c hp bounds .visible
  -- Hidden text is drawn after the visible text, or left out.
  obtain ⟨d, invisible, hparts, hinvisible, hreads', hunder'⟩ :
      ∃ (d : Canvas α) (invisible : List Call),
        (if o.includeHiddenText then [TextPart.invisible] else []).foldl (drawPart o p bounds)
          (c.drawPart o p bounds .visible) = d ∧
        Draws invisible (c.drawPart o p bounds .visible) d ∧
        Node.charactersEach (invisible.map Call.node) =
          (if o.includeHiddenText then TextPart.invisible.read p.letters else []) ∧
        ∀ call ∈ invisible, call.Under o (c.drawPart o p bounds .visible).graphics := by
    split
    · obtain ⟨invisible, hinvisible, hreads', hunder'⟩ :=
        draws_drawPart o (c.drawPart o p bounds .visible) hp bounds .invisible
      exact ⟨_, invisible, rfl, hinvisible, hreads', hunder'⟩
    · exact ⟨_, [], rfl, .of_eq rfl, rfl, fun _ hcall => nomatch hcall⟩
  have hdrawn := hvisible.trans hinvisible
  have hparagraph : c.drawParagraph o p = (d.paragraphNodes o p .clip).2.mapContext fun k =>
      { k with outlines := k.outlines ++ (d.paragraphNodes o p .clip).1 } := by
    unfold drawParagraph
    rw [hp, ← hparts]
    rfl
  have houtlines : Node.charactersEach (d.paragraphNodes o p .clip).1 =
      TextPart.clip.read p.letters := by
    rw [Node.charactersEach_eq]
    exact Layout.characters_nodes o p .clip d.definitions hp
  refine ⟨visible ++ invisible, List.forall_mem_singleton.2
    ⟨_, _, List.map_append, hreads, hreads'⟩, List.forall_mem_singleton.2
    (List.forall_mem_append.2 ⟨hunder, hvisible.graphics ▸ hunder'⟩), ?_, ?_, ?_, ?_⟩
  · rw [hparagraph]
    exact hdrawn.graphics
  · rw [hparagraph, List.flatMap_singleton]
    exact hdrawn.drawn
  · rw [hparagraph, List.flatMap_singleton, ← houtlines, ← Node.charactersEach_append]
    show Node.charactersEach (d.context.outlines ++ _) = _
    rw [hdrawn.context]
    rfl
  · rw [hparagraph]
    exact congrArg (·.layout) hdrawn.context

/-- **The waiting text is drawn paragraph by paragraph**, and none waits afterwards. -/
theorem drawsText_flushText (o : Options α) (hlettered : c.context.layout.Lettered) :
    ∃ paragraphs, paragraphs.map (·.1) = c.context.layout.letters ∧
      DrawsText o paragraphs (c.mapContext fun k => { k with layout := .empty })
        (c.flushText o) := by
  have hdraw (ps : List (Paragraph α)) (hps : ∀ p ∈ ps, p.glyphs? = none)
      (c : Canvas α) : ∃ paragraphs, paragraphs.map (·.1) = ps.map Paragraph.letters ∧
        DrawsText o paragraphs c (ps.foldl (drawParagraph o) c) := by
    induction ps generalizing c with
    | nil => exact ⟨[], rfl, .refl c⟩
    | cons p rest ih =>
      rw [List.forall_mem_cons] at hps
      obtain ⟨calls, hcalls⟩ := drawsText_drawParagraph c hps.1
      obtain ⟨paragraphs, hletters, hrest⟩ := ih hps.2 (c.drawParagraph o p)
      exact ⟨(p.letters, calls) :: paragraphs, congrArg _ hletters, hcalls.trans hrest⟩
  unfold flushText
  split
  · next hempty =>
    have hlayout := hlettered.eq_empty hempty
    have hsame : (c.mapContext fun k => { k with layout := .empty }) = c := by
      rw [← hlayout]
      rfl
    rw [hsame, hlayout]
    exact ⟨[], rfl, .refl c⟩
  · exact hdraw _ (fun p hp => hlettered.text p (List.mem_reverse.1 hp)) _

end Canvas

end PageSvg
