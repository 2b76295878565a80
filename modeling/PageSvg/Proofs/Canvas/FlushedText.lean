import PageSvg.Proofs.Canvas.TextObject

/-!
# Effects on text that was kept

Text is kept until it has to be drawn, and it is drawn under the effects in force then: the blend
mode, the soft mask and the clip region that were set when it was shown do not matter any more. The
elements of glyphs that were drawn one by one had their effects when they were shown; they are put
on the canvas as they are.
-/

namespace PageSvg

open Draw

variable {α : Type} [Scalar α]

/-! ### The flush -/

namespace Canvas

/-- From `c` to `d` elements are drawn, each under the effects in force or as in `P`, and the
graphics state stays the same. -/
def DrawsUnder (o : Options α) (P : Call → Prop) (c d : Canvas α) : Prop :=
  d.graphics = c.graphics ∧
    ∃ calls, d.context.drawn = Call.draw calls c.context.drawn ∧
      ∀ call ∈ calls, call.Under o c.graphics ∨ P call

variable {o : Options α} {P Q : Call → Prop} {c d e : Canvas α}

theorem DrawsUnder.refl (c : Canvas α) : DrawsUnder o P c c :=
  ⟨rfl, [], rfl, fun _ hcall => nomatch hcall⟩

theorem DrawsUnder.trans (h : DrawsUnder o P c d) (h' : DrawsUnder o P d e) :
    DrawsUnder o P c e := by
  obtain ⟨hgraphics, calls, hcalls, hunder⟩ := h
  obtain ⟨hgraphics', calls', hcalls', hunder'⟩ := h'
  refine ⟨hgraphics'.trans hgraphics, calls ++ calls', ?_, ?_⟩
  · rw [Call.draw_append, hcalls', hcalls]
  · exact List.forall_mem_append.2 ⟨hunder, hgraphics ▸ hunder'⟩

theorem DrawsUnder.mono (h : DrawsUnder o P c d) (hPQ : ∀ call, P call → Q call) :
    DrawsUnder o Q c d := by
  obtain ⟨hgraphics, calls, hcalls, hunder⟩ := h
  exact ⟨hgraphics, calls, hcalls, fun call hcall => (hunder call hcall).imp_right (hPQ call)⟩

theorem drawsUnder_foldl {γ : Type} (f : Canvas α → γ → Canvas α) (items : List γ)
    (hf : ∀ c, ∀ a ∈ items, DrawsUnder o P c (f c a)) (c : Canvas α) :
    DrawsUnder o P c (items.foldl f c) := by
  induction items generalizing c with
  | nil => exact .refl c
  | cons a rest ih =>
    exact (hf c a List.mem_cons_self).trans (ih (fun c b hb => hf c b (List.mem_cons_of_mem _ hb)) _)

variable (o)

theorem drawsUnder_drawPart (p : Paragraph α) (bounds : Option (Rectangle α)) (c : Canvas α)
    (part : TextPart) : DrawsUnder o P c (c.drawPart o p bounds part) := by
  obtain ⟨calls, hcalls, -, hunder⟩ :=
    draws_appendAll o (c.paragraphNodes o p part).2 (c.paragraphNodes o p part).1 bounds
  exact ⟨hcalls.graphics, calls, hcalls.drawn, fun call hcall => .inl (hunder call hcall)⟩

/-- The text of a paragraph is drawn under the effects in force, and drawn glyphs as they are. -/
theorem drawsUnder_drawParagraph (c : Canvas α) (p : Paragraph α) :
    DrawsUnder o (fun call => ∃ nodes, p.glyphs? = some nodes ∧ ∃ node ∈ nodes, call = .raw node)
      c (c.drawParagraph o p) := by
  unfold drawParagraph
  cases p.glyphs? with
  | some nodes =>
    have hpushed := draws_pushAll c nodes
    refine ⟨hpushed.graphics, _, hpushed.drawn, fun call hcall => .inr ⟨nodes, rfl, ?_⟩⟩
    obtain ⟨node, hnode, rfl⟩ := List.mem_map.1 hcall
    exact ⟨node, hnode, rfl⟩
  | none =>
    obtain ⟨hgraphics, calls, hcalls, hunder⟩ := drawsUnder_foldl (P := fun _ => False)
      (drawPart o p (paragraphBounds p))
      (.visible :: if o.includeHiddenText then [.invisible] else [])
      (fun c part _ => drawsUnder_drawPart o p (paragraphBounds p) c part) c
    exact ⟨hgraphics, calls, hcalls, fun call hcall => (hunder call hcall).imp_right False.elim⟩

theorem drawsUnder_flushText (c : Canvas α) :
    DrawsUnder o (fun call => ∃ p ∈ c.context.layout.recent, ∃ nodes, p.glyphs? = some nodes ∧
      ∃ node ∈ nodes, call = .raw node) c (c.flushText o) := by
  unfold flushText
  split
  · exact .refl c
  · exact drawsUnder_foldl (drawParagraph o) c.context.layout.paragraphs
      (fun d p hp => (d.drawsUnder_drawParagraph o p).mono fun _ hcall =>
        ⟨p, List.mem_reverse.1 hp, hcall⟩)
      (c.mapContext fun k => { k with layout := .empty })

end Canvas

/-! ### Runs -/

/-- What becomes of waiting letters: from `d` to `e` nothing is drawn, or they are drawn before
anything else, as elements that read as them under the effects in force on `d`. -/
def Canvas.DrawsWaiting (o : Options α) (waiting : List Letter) (d e : Canvas α) : Prop :=
  e.context.drawn = d.context.drawn ∨
    ∃ (paragraphs : List (List Letter × List Call)) (later : List Call),
      paragraphs.flatMap (·.1) = waiting ∧
      (∀ p ∈ paragraphs, ReadsAs o p.1 (p.2.map Call.node) ∧
        ∀ call ∈ p.2, call.Under o d.graphics) ∧
      e.context.drawn = Call.draw (paragraphs.flatMap (·.2) ++ later) d.context.drawn

namespace Canvas

variable {o : Options α} {c d e : Canvas α}

theorem DrawsWaiting.of_flush (hlettered : d.context.layout.Lettered) {elements : List Node}
    (h : (d.flushText o).Adds elements e) :
    d.DrawsWaiting o d.context.layout.letters.flatten e := by
  obtain ⟨paragraphs, hletters, hdrawn⟩ := drawsText_flushText o hlettered
  obtain ⟨later, -, hlater⟩ := h
  refine .inr ⟨paragraphs, later, ?_, fun p hp => ⟨hdrawn.reads p hp, hdrawn.under p hp⟩, ?_⟩
  · rw [← hletters]
    rfl
  · rw [hlater, hdrawn.drawn, Call.draw_append]
    rfl

end Canvas

section Runs

variable {s : Setting α} {level : Nat} {d e : Canvas α}

/-- An operation draws the waiting letters first, if it draws anything. -/
theorem drawsWaiting_execute (hlettered : d.context.layout.Lettered) (hd : d.KeepsMode)
    {op : Operation α} (hplain : op.strings = [] ∨ d.graphics.currentFont.procedures = none)
    {b : Bool} (hexecute : execute ⟨s, s.nested level⟩ op d = .ok b e) :
    d.DrawsWaiting s.options d.context.layout.letters.flatten e := by
  by_cases hend : op.executed? = some .endText
  · -- The end of a text object draws the text and then nothing but cuts the region in force.
    rw [execute_endText hend] at hexecute
    cases hexecute
    let left := d.mapContext fun k => { k with inText := false }
    have hdrawn : (d.endText s.options).context.drawn = (left.flushText s.options).context.drawn := by
      unfold Canvas.endText
      dsimp only
      split
      · rfl
      · rfl
    exact .of_flush (d := left) hlettered (.of_eq hdrawn)
  · rcases execute_outcome hd hend hplain hexecute with hadds | ⟨-, -, hdraws⟩
    · exact .inl hadds.drawn
    · obtain ⟨paragraphs, -, hdrawn⟩ := Canvas.drawsText_flushText s.options hlettered
      have hlayout : (d.flushText s.options).context.layout = .empty := hdrawn.layout
      obtain ⟨-, -, elements, hadds⟩ := hdraws (congrArg (·.recent) hlayout)
      exact .of_flush hlettered hadds

end Runs

/-- **Text is drawn under the effects at the flush.** From any canvas, the waiting text is drawn
under the effects in force there, and drawn glyphs as they are. Along a run that begins without
waiting text, in which fonts have no glyph procedures and no text object ends, the letters that were
shown last wait; the next operation draws nothing, or it draws these letters first, under the
effects in force before it and not those under which they were shown. -/
theorem text_under_effects_at_flush :
    (∀ (o : Options α) (c : Canvas α), (c.flushText o).graphics = c.graphics ∧
      ∃ calls, (c.flushText o).context.drawn = Call.draw calls c.context.drawn ∧
        ∀ call ∈ calls, call.Under o c.graphics ∨
          ∃ p ∈ c.context.layout.recent, ∃ nodes, p.glyphs? = some nodes ∧
            ∃ node ∈ nodes, call = .raw node) ∧
    ∀ (v : Converter α) (p : Page α) (outer : List (Context α)) (c : Canvas α) (level : Nat)
        (run : ContentStream α),
      let s := p.setting v.options v.library
      let env : Environment α := ⟨s, s.nested level⟩
      v.cancellation.onset = none → v.Reaches p outer c → c.context.layout = .empty →
      c.context.outlines = [] → (∀ op ∈ run, op.executed? ≠ some .endText) →
      (∀ x ∈ executed env run c,
        x.1.strings = [] ∨ x.2.graphics.currentFont.procedures = none) →
      ∃ (d : Canvas α) (before waiting : List Letter), executeAll env run c = .ok () d ∧
        before ++ waiting = shownLetters env run c ∧
        d.context.layout.letters.flatten = waiting ∧
        ∀ (op : Operation α) (e : Canvas α),
          op.strings = [] ∨ d.graphics.currentFont.procedures = none →
          executeAll env (run ++ [op]) c = .ok () e → d.DrawsWaiting v.options waiting e := by
  refine ⟨fun o c => c.drawsUnder_flushText o, ?_⟩
  intro v p outer c level run s env hrunning hc hlayout houtlines hrun hplain
  obtain ⟨_, hcomposed⟩ := (invariant_composed s).of_reaches (c := c)
    (v := v) ⟨hrunning, Canvas.keepsMode_of_none rfl⟩ hc
  have hstart : Canvas.Accounts env run c [] [] c := .start hlayout houtlines
  obtain ⟨d, blocks, hall, hd, haccounts⟩ :=
    hstart.executeAll (fun op hop => ⟨hop, hrun op hop⟩) hcomposed hplain
  refine ⟨d, _, _, hall, haccounts.letters, rfl, fun op e hop he => ?_⟩
  rw [executeAll_append, bind_apply, hall] at he
  obtain ⟨-, b, f, hexecute, hend⟩ := executeAll_cons_ok he
  cases hend
  exact drawsWaiting_execute (d := d.looked) haccounts.lettered hd.mode hop hexecute

section Example

attribute [local instance] Scalar.rational

/-- A converter with a font and with parameters for another blend mode. -/
def blendingConverter : Converter ℚ where
  options := .standard
  library := #[{
    fonts := [("F", .standIn)]
    parameters :=
      [("G", ⟨none, none, none, none, none, none, none, some "Multiply", none, none⟩)] }]

/-- A page without content. -/
def blankPage : Page ℚ := ⟨⟨0, 0, 100, 100⟩, 0, [], 0, []⟩

/-- A letter is shown before the blend mode is set. -/
def blendedRun : ContentStream ℚ :=
  [⟨"BT", []⟩, ⟨"Tf", [.name "F", .integer 10]⟩, ⟨"Tj", [.string [0x61]]⟩, ⟨"gs", [.name "G"]⟩]

/-- The end of the text object draws the letter under the blend mode that is set by then. -/
theorem text_under_effects_at_flush_blended :
    let v := blendingConverter
    let p := blankPage
    let s := p.setting v.options v.library
    let env : Environment ℚ := ⟨s, s.nested 0⟩
    v.cancellation.onset = none ∧ v.Reaches p [] (v.canvas p) ∧
      (v.canvas p).context.layout = .empty ∧ (v.canvas p).context.outlines = [] ∧
      (∀ op ∈ blendedRun, op.executed? ≠ some .endText) ∧
      (∀ x ∈ executed env blendedRun (v.canvas p),
        x.1.strings = [] ∨ x.2.graphics.currentFont.procedures = none) ∧
      ∃ (d e : Canvas ℚ) (paragraphs : List (List Letter × List Call)) (later : List Call),
        executeAll env blendedRun (v.canvas p) = .ok () d ∧
        d.graphics.blendMode = some "multiply" ∧
        executeAll env (blendedRun ++ [⟨"ET", []⟩]) (v.canvas p) = .ok () e ∧
        paragraphs.flatMap (·.1) = [⟨.fill, 'a'⟩] ∧
        (∀ p ∈ paragraphs, ReadsAs v.options p.1 (p.2.map Call.node) ∧
          ∀ call ∈ p.2, call.Under v.options d.graphics) ∧
        e.context.drawn = Call.draw (paragraphs.flatMap (·.2) ++ later) d.context.drawn := by
  intro v p s env
  have hreaches : v.Reaches p [] (v.canvas p) := v.reaches_canvas rfl rfl
  have hrun : ∀ op ∈ blendedRun, op.executed? ≠ some .endText := by decide +kernel
  have hplain : ∀ x ∈ executed env blendedRun (v.canvas p),
      x.1.strings = [] ∨ x.2.graphics.currentFont.procedures = none := by decide +kernel
  obtain ⟨d, before, waiting, hall, -, hwaiting, hdraws⟩ :=
    text_under_effects_at_flush.2 v p [] (v.canvas p) 0 blendedRun rfl hreaches rfl rfl hrun hplain
  have hstate : Draw.Ends (executeAll env blendedRun) (v.canvas p)
      (fun _ d => d.graphics.blendMode = some "multiply" ∧ d.context.content.length = 0 ∧
        d.graphics.currentFont.procedures = none ∧
        d.context.layout.letters.flatten = [⟨.fill, 'a'⟩]) fun _ _ => False := by decide +kernel
  have hend : Draw.Ends (executeAll env (blendedRun ++ [⟨"ET", []⟩])) (v.canvas p)
      (fun _ e => e.context.content.length = 1) fun _ _ => False := by decide +kernel
  rw [ends_of_ok hall] at hstate
  obtain ⟨hblend, hnothing, hfont, hletters⟩ := hstate
  obtain ⟨_, e, hlast, hdrawn⟩ := hend.exists_ok
  obtain ⟨paragraphs, later, hparagraphs, hunder, hsame⟩ :=
    (hdraws ⟨"ET", []⟩ e (.inr hfont) hlast).resolve_left fun hsame => by
      have hcontent : e.context.content = d.context.content := congrArg Prod.fst hsame
      rw [hcontent, hnothing] at hdrawn
      cases hdrawn
  exact ⟨rfl, hreaches, rfl, rfl, hrun, hplain, d, e, paragraphs, later, hall, hblend, hlast,
    hparagraphs.trans (hwaiting.symm.trans hletters), hunder, hsame⟩

/-- A letter is shown under the normal blend mode, and drawn under the one that is set before it has
to be drawn. -/
theorem text_blended_after_shown :
    ∃ (s : Setting ℚ) (shown rest : ContentStream ℚ) (c d : Canvas ℚ),
      executeAll s.environment shown (.blank s 0) = .ok () c ∧ c.graphics.blendMode = none ∧
      drawContent s.environment (shown ++ rest) (.blank s 0) = .ok () d ∧
      d.content.map (·.tag) = ["text"] ∧
      ∀ node ∈ d.content, Keyed.get? node.attrs "style" = some "mix-blend-mode:multiply" := by
  let s := blankPage.setting blendingConverter.options blendingConverter.library
  let shown := blendedRun.take 3
  let rest : ContentStream ℚ := [⟨"gs", [.name "G"]⟩, ⟨"ET", []⟩]
  have hshown : Draw.Ends (executeAll s.environment shown) (.blank s 0)
      (fun _ c => c.graphics.blendMode = none) fun _ _ => False := by decide +kernel
  have hdrawn : Draw.Ends (drawContent s.environment (shown ++ rest)) (.blank s 0)
      (fun _ d => d.content.map (·.tag) = ["text"] ∧
        ∀ node ∈ d.content, Keyed.get? node.attrs "style" = some "mix-blend-mode:multiply")
      fun _ _ => False := by decide +kernel
  obtain ⟨_, c, hfirst, hnormal⟩ := hshown.exists_ok
  obtain ⟨_, d, hrun, htext, hblended⟩ := hdrawn.exists_ok
  exact ⟨s, shown, rest, c, d, hfirst, hnormal, hrun, htext, hblended⟩

end Example

end PageSvg
