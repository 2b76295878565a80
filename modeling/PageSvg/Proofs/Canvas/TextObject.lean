import PageSvg.Proofs.Canvas.Flushing
import PageSvg.Proofs.Canvas.TextMode
import PageSvg.Proofs.Clip
import PageSvg.Proofs.Number.Rational

/-!
# Text objects

The letters shown in a text object come out of it once each, whatever is drawn in between: those
that are not only for clipping in the elements of their paragraphs, and those that clip in the
outlines by which the end of the object cuts the clip region.
-/

namespace PageSvg

open Draw

variable {α β : Type} [Scalar α]

/-! ### Letters that are shown -/

/-- The strings that an operator shows. -/
def Operator.strings (args : Arguments α) : Operator → List (List UInt8)
  | showText => [args.bytes 0]
  | showAdjusted => (args.items 0).filterMap Operand.bytes?
  | showOnNextLine => [args.bytes 0]
  | showSpacedOnNextLine => [args.bytes 2]
  | _ => []

/-- The state in which an operator shows its strings, as far as letters depend on it. -/
def Operator.showing (args : Arguments α) (g : GraphicsState α) : Operator → GraphicsState α
  | showSpacedOnNextLine => { g with text := { g.text with wordSpacing := args.number 0 } }
  | _ => g

namespace GraphicsState

/-- The pieces in which a string is shown. -/
def pieces (g : GraphicsState α) (bytes : List UInt8) : List (List UInt8) :=
  if !(g.text.wordSpacing == 0) && g.currentFont.wordSpacing then splitAfterSpaces bytes else [bytes]

/-- The letters of a string: the font decodes it piece by piece. -/
def letters (g : GraphicsState α) (bytes : List UInt8) : List Letter :=
  (g.pieces bytes).flatMap fun piece =>
    Letter.ofText g.text.mode (g.currentFont.decode piece).text

theorem letters_congr {g g' : GraphicsState α} (hfont : g'.text.font = g.text.font)
    (hspacing : g'.text.wordSpacing = g.text.wordSpacing) (hmode : g'.text.mode = g.text.mode) :
    g'.letters = g.letters := by
  have hcurrent : g'.currentFont = g.currentFont := congrArg (·.getD .standIn) hfont
  funext bytes
  unfold letters pieces
  rw [hcurrent, hspacing, hmode]

/-- Splitting loses no byte. -/
theorem flatten_pieces (g : GraphicsState α) (bytes : List UInt8) :
    (g.pieces bytes).flatten = bytes := by
  have hsplit : (splitAfterSpaces bytes).flatten = bytes := by
    induction bytes with
    | nil => rfl
    | cons b rest ih =>
      rw [splitAfterSpaces]
      split
      · exact congrArg (b :: ·) ih
      · split
        · next hpieces =>
          rw [hpieces] at ih
          exact congrArg (b :: ·) ih
        · next hpieces =>
          rw [hpieces] at ih
          exact congrArg (b :: ·) ih
  unfold pieces
  split
  · exact hsplit
  · exact List.append_nil _

/-- Where a font decodes byte by byte, the letters are those of the whole string. -/
theorem letters_eq_ofText (g : GraphicsState α) (bytes : List UInt8)
    (hdecode : ∀ a b, (g.currentFont.decode (a ++ b)).text =
      (g.currentFont.decode a).text ++ (g.currentFont.decode b).text) :
    g.letters bytes = Letter.ofText g.text.mode (g.currentFont.decode bytes).text := by
  have hempty : (g.currentFont.decode []).text = "" := by
    have hlength := congrArg String.length (hdecode [] [])
    rw [String.length_append] at hlength
    exact String.length_eq_zero_iff.1 (by simpa using hlength)
  have hjoin (pieces : List (List UInt8)) :
      pieces.flatMap (fun piece => Letter.ofText g.text.mode (g.currentFont.decode piece).text) =
        Letter.ofText g.text.mode (g.currentFont.decode pieces.flatten).text := by
    induction pieces with
    | nil =>
      rw [List.flatten_nil, hempty]
      rfl
    | cons piece rest ih =>
      rw [List.flatMap_cons, ih, List.flatten_cons, hdecode, Letter.ofText_append]
  rw [letters, hjoin, g.flatten_pieces]

end GraphicsState

/-- The letters that an operation shows in a state. -/
def Operation.letters (op : Operation α) (g : GraphicsState α) : List Letter :=
  match Operator.table.resolve op.operator op.operands with
  | some (operator, args) => (operator.strings args).flatMap (operator.showing args g).letters
  | none => []

/-- The strings that an operation shows. -/
def Operation.strings (op : Operation α) : List (List UInt8) :=
  match Operator.table.resolve op.operator op.operands with
  | some (operator, args) => operator.strings args
  | none => []

/-- The operations of some content that are executed, with the canvas before each of them. -/
def executed (env : Environment α) :
    ContentStream α → Canvas α → List (Operation α × Canvas α)
  | [], _ => []
  | op :: rest, c =>
    (op, c) ::
      match execute env op c.looked with
      | .ok _ d => executed env rest d
      | .error _ _ => []

theorem executed_cons {env : Environment α} {op : Operation α} {c d : Canvas α} {b : Bool}
    (hop : execute env op c.looked = .ok b d) (rest : ContentStream α) :
    executed env (op :: rest) c = (op, c) :: executed env rest d := by
  show (op, c) :: (match execute env op c.looked with
    | .ok _ d => executed env rest d
    | .error _ _ => []) = _
  rw [hop]

/-- The letters that some content shows. -/
def shownLetters (env : Environment α) (content : ContentStream α) (c : Canvas α) : List Letter :=
  (executed env content c).flatMap fun (op, d) => op.letters d.graphics

/-! ### Showing strings -/

namespace Canvas

/-- From `c` to `d` letters are added to the waiting text, and nothing is drawn. -/
structure AddsLetters (letters : List Letter) (c d : Canvas α) : Prop where
  lettered : c.context.layout.Lettered → d.context.layout.Lettered
  letters : c.context.layout.Lettered →
    d.context.layout.letters.flatten = c.context.layout.letters.flatten ++ letters
  drawn : d.context.drawn = c.context.drawn
  outlines : d.context.outlines = c.context.outlines

/-- Letters are shown: nothing that letters depend on changes. -/
structure Shows (letters : List Letter) (c d : Canvas α) : Prop extends
    AddsLetters letters c d where
  font : d.graphics.text.font = c.graphics.text.font
  wordSpacing : d.graphics.text.wordSpacing = c.graphics.text.wordSpacing
  mode : d.graphics.text.mode = c.graphics.text.mode
  style : d.KeepsMode

variable {c d e : Canvas α} {k l : List Letter}

theorem SparesText.addsLetters (h : c.SparesText d) : AddsLetters [] c d where
  lettered hc := h.layout ▸ hc
  letters _ := by rw [h.layout, List.append_nil]
  drawn := h.drawn
  outlines := h.outlines

theorem AddsLetters.of_adjusts (h : c.Adjusts d) : AddsLetters [] c d := h.sparesText.addsLetters

theorem AddsLetters.trans (h : AddsLetters k c d) (h' : AddsLetters l d e) :
    AddsLetters (k ++ l) c e where
  lettered hc := h'.lettered (h.lettered hc)
  letters hc := by rw [h'.letters (h.lettered hc), h.letters hc, List.append_assoc]
  drawn := h'.drawn.trans h.drawn
  outlines := h'.outlines.trans h.outlines

theorem Shows.refl (h : c.KeepsMode) : Shows [] c c :=
  ⟨.of_adjusts (.refl c), rfl, rfl, rfl, h⟩

theorem Shows.trans (h : Shows k c d) (h' : Shows l d e) : Shows (k ++ l) c e where
  toAddsLetters := h.toAddsLetters.trans h'.toAddsLetters
  font := h'.font.trans h.font
  wordSpacing := h'.wordSpacing.trans h.wordSpacing
  mode := h'.mode.trans h.mode
  style := h'.style

theorem Shows.currentFont (h : Shows k c d) : d.graphics.currentFont = c.graphics.currentFont :=
  congrArg (·.getD .standIn) h.font

/-- The letters of a string depend on what showing text keeps. -/
theorem Shows.letters_eq (h : Shows k c d) : d.graphics.letters = c.graphics.letters :=
  GraphicsState.letters_congr h.font h.wordSpacing h.mode

theorem shows_advance (h : c.KeepsMode) (x : α) : Shows [] c (c.advance x) :=
  ⟨.of_adjusts (c.adjusts_mapText _), rfl, rfl, rfl, h⟩

end Canvas

section Showing

variable {env : Environment α} (h : env.Isolates) {c : Canvas α}

include h

/-- The style in force has the render mode in force. -/
theorem ends_currentStyle (hc : c.KeepsMode) (scale : α) :
    Ends (currentStyle env scale) c
      (fun style d => style.mode = c.graphics.text.mode ∧
        d.context = { c.context with textStyle := d.context.textStyle } ∧ d.KeepsMode)
      fun _ _ => True := by
  have hnew : Ends (renewStyle env c.graphics scale) c
      (fun style d => style.mode = c.graphics.text.mode ∧
        d.context = { c.context with textStyle := d.context.textStyle } ∧ d.KeepsMode)
      fun _ _ => True := by
    unfold renewStyle makeStyle
    rw [ends_bind, ends_bind]
    refine ((quiet_textFill h _).ends c).mono (fun fill d hd => ?_) fun _ _ _ => trivial
    have hd : d.context = c.context := hd.context
    rw [ends_pure, ends_bind, ends_modify, ends_pure]
    refine ⟨rfl, ?_, ?_⟩
    · rw [← hd]
      rfl
    · rintro _ ⟨⟩
      exact congrArg (·.graphics.text.mode) hd.symm
  rw [currentStyle_eq, ends_bind, ends_get]
  dsimp only
  cases hstyle : c.context.textStyle with
  | none => exact hnew
  | some known =>
    rw [ends_ite]
    refine ⟨fun _ => ⟨hc known hstyle, rfl, hc⟩, fun _ => hnew⟩

/-- A piece adds its letters to the waiting text. -/
theorem shows_showPiece (hc : c.KeepsMode) (font : Font α) (piece : List UInt8) (spaces : Nat) :
    Ends (showPiece env font piece spaces) c
      (fun _ d => Canvas.Shows (Letter.ofText c.graphics.text.mode (font.decode piece).text) c d)
      fun _ _ => True := by
  unfold showPiece
  dsimp only
  rw [ends_bind, ends_get, ends_bind, ends_set, ends_bind]
  let o := env.options
  let m := c.graphics.textPosition
  have hpositioned : Canvas.KeepsMode
      (c.mapContext fun k => { k with layout := k.layout.position o m }) := hc
  refine (ends_currentStyle h hpositioned _).mono (fun style d hd => ?_) fun _ _ _ => trivial
  obtain ⟨hmode, hcontext, hstyle⟩ := hd
  have hmode : style.mode = c.graphics.text.mode := hmode
  have hlayout : d.context.layout = c.context.layout.position o m :=
    congrArg (·.layout) hcontext
  have hgraphics : d.graphics = c.graphics := congrArg (·.graphics) hcontext
  have hshown (hlettered : c.context.layout.Lettered) (width : α) :=
    TextLayout.letters_addText (hlettered.position o m)
      (TextLayout.isSome_line_position o c.context.layout m) o (font.decode piece).text width style
  rw [ends_modify]
  refine ⟨⟨fun hlettered => ?_, fun hlettered => ?_, congrArg (·.drawn) hcontext,
    congrArg (·.outlines) hcontext⟩, congrArg (·.text.font) hgraphics,
    congrArg (·.text.wordSpacing) hgraphics, congrArg (·.text.mode) hgraphics, hstyle⟩
  · show (d.context.layout.addText o (font.decode piece).text _ style).Lettered
    rw [hlayout]
    exact (hshown hlettered _).1
  · show (d.context.layout.addText o (font.decode piece).text _ style).letters.flatten = _
    rw [hlayout, (hshown hlettered _).2.2, TextLayout.flatten_letters_position, hmode]

/-- A string is shown piece by piece. -/
theorem shows_showText (hc : c.KeepsMode) (hplain : c.graphics.currentFont.procedures = none)
    (bytes : List UInt8) :
    Ends (showText env bytes) c (fun _ d => Canvas.Shows (c.graphics.letters bytes) c d)
      fun _ _ => True := by
  let font := c.graphics.currentFont
  have hpieces (pieces : List (List UInt8)) (d : Canvas α) (hd : d.KeepsMode) :
      Ends (pieces.forM fun piece => showPiece env font piece (piece.count 0x20)) d
        (fun _ e => Canvas.Shows (pieces.flatMap fun piece =>
          Letter.ofText d.graphics.text.mode (font.decode piece).text) d e) fun _ _ => True := by
    induction pieces generalizing d with
    | nil => exact .refl hd
    | cons piece rest ih =>
      show Ends (showPiece env font piece (piece.count 0x20) >>= fun _ =>
        rest.forM fun piece => showPiece env font piece (piece.count 0x20)) d _ _
      rw [ends_bind]
      refine (shows_showPiece h hd font piece _).mono (fun _ e he => ?_) fun _ _ _ => trivial
      refine (ih e he.style).mono (fun _ _ hrest => ?_) fun _ _ _ => trivial
      rw [he.mode] at hrest
      exact he.trans hrest
  unfold showText
  rw [ends_bind, ends_get]
  dsimp only
  rw [hplain, ends_ite]
  unfold GraphicsState.letters GraphicsState.pieces
  refine ⟨fun hsplit => ?_, fun hwhole => ?_⟩
  · rw [if_pos hsplit]
    exact hpieces _ c hc
  · rw [if_neg hwhole, List.flatMap_singleton]
    exact shows_showPiece h hc font bytes 0

theorem shows_showAdjusted (hc : c.KeepsMode) (items : List (Operand α))
    (hplain : items.filterMap Operand.bytes? = [] ∨ c.graphics.currentFont.procedures = none) :
    Ends (showAdjusted env items) c
      (fun _ d => Canvas.Shows ((items.filterMap Operand.bytes?).flatMap c.graphics.letters) c d)
      fun _ _ => True := by
  induction items generalizing c with
  | nil => exact .refl hc
  | cons item rest ih =>
    have hrest {k : List Letter} {d : Canvas α} (hd : Canvas.Shows k c d)
        (hplain : rest.filterMap Operand.bytes? = [] ∨
          c.graphics.currentFont.procedures = none) :
        Ends (showAdjusted env rest) d (fun _ e => Canvas.Shows
          (k ++ (rest.filterMap Operand.bytes?).flatMap c.graphics.letters) c e) fun _ _ => True := by
      rw [← hd.currentFont] at hplain
      refine (ih hd.style hplain).mono (fun _ e he => ?_) fun _ _ _ => trivial
      rw [hd.letters_eq] at he
      exact hd.trans he
    unfold showAdjusted
    dsimp only
    split
    · next bytes =>
      have hplain := hplain.resolve_left (List.cons_ne_nil _ _)
      rw [ends_bind]
      exact (shows_showText h hc hplain bytes).mono
        (fun _ d hd => hrest hd (.inr hplain)) fun _ _ _ => trivial
    · next hother =>
      have hnone : item.bytes? = none := by
        cases item with
        | string bytes => exact absurd rfl (hother bytes)
        | _ => rfl
      rw [List.filterMap_cons_none hnone] at hplain ⊢
      split
      · rw [ends_bind, ends_modify]
        exact hrest (Canvas.shows_advance hc _) hplain
      · exact hrest (.refl hc) hplain

/-- A string that is shown after an adjustment. -/
theorem addsLetters_showText {d : Canvas α} (hd : d.KeepsMode) (hadjusts : c.Adjusts d)
    {g : GraphicsState α} (hletters : d.graphics.letters = g.letters)
    (hplain : d.graphics.currentFont.procedures = none) (bytes : List UInt8) :
    Ends (showText env bytes) d (fun _ e => Canvas.AddsLetters ([bytes].flatMap g.letters) c e)
      fun _ _ => True := by
  refine (shows_showText h hd hplain bytes).mono (fun _ e he => ?_) fun _ _ _ => trivial
  rw [List.flatMap_singleton, ← hletters]
  exact (Canvas.AddsLetters.of_adjusts hadjusts).trans he.toAddsLetters

/-- An operator that shows strings adds their letters to the waiting text. -/
theorem addsLetters_perform (hc : c.KeepsMode) (args : Arguments α) {op : Operator}
    (hshows : op.showsText = true)
    (hplain : op.strings args = [] ∨ c.graphics.currentFont.procedures = none) :
    Ends (op.perform env args) c
      (fun _ d => Canvas.AddsLetters
        ((op.strings args).flatMap (op.showing args c.graphics).letters) c d) fun _ _ => True := by
  cases op with
  | showText =>
    exact addsLetters_showText h hc (.refl c) rfl (hplain.resolve_left (List.cons_ne_nil _ _)) _
  | showAdjusted =>
    exact (shows_showAdjusted h hc _ hplain).mono (fun _ d hd => hd.toAddsLetters)
      fun _ _ _ => trivial
  | showOnNextLine =>
    exact addsLetters_showText h (d := c.nextLine) (hc.adjust .nextLine env) c.adjusts_nextLine rfl
      (hplain.resolve_left (List.cons_ne_nil _ _)) _
  | showSpacedOnNextLine =>
    let spaced := c.setWordSpacing (args.number 0)
    let d := (spaced.setCharSpacing (args.number 1)).nextLine
    have hd : d.KeepsMode := ((hc.adjust (.wordSpacing (args.number 0)) env).adjust
      (.charSpacing (args.number 1)) env).adjust .nextLine env
    have htext : d.graphics.text.font = c.graphics.text.font ∧
        d.graphics.text.wordSpacing = args.number 0 ∧
        d.graphics.text.mode = c.graphics.text.mode := by
      dsimp only [d, Canvas.setCharSpacing, Canvas.mapTextUnless]
      split
      · exact ⟨rfl, rfl, rfl⟩
      · exact ⟨rfl, rfl, rfl⟩
    have hplain := hplain.resolve_left (List.cons_ne_nil _ _)
    have hfont : d.graphics.currentFont = c.graphics.currentFont :=
      congrArg (·.getD .standIn) htext.1
    refine addsLetters_showText h (g := Operator.showing args c.graphics .showSpacedOnNextLine) hd ?_
      (GraphicsState.letters_congr htext.1 htext.2.1 htext.2.2) (hfont ▸ hplain) _
    exact ((c.adjusts_mapText _).trans (Canvas.adjusts_setCharSpacing _ _)).trans
      (Canvas.adjusts_nextLine _)
  | _ => cases hshows

end Showing

/-! ### The account of a text object -/

/-- What a text object draws: the elements of a paragraph with its letters, or other elements. -/
inductive Block
  | paragraph (letters : List Letter) (elements : List Node)
  | other (elements : List Node)

namespace Block

/-- The letters of a paragraph. -/
def letters : Block → List Letter
  | paragraph letters _ => letters
  | other _ => []

/-- The elements of text. -/
def textElements : Block → List Node
  | paragraph _ elements => elements
  | other _ => []

/-- All elements. -/
def elements : Block → List Node
  | paragraph _ elements => elements
  | other elements => elements

/-- The elements of a paragraph read as its letters. Other elements were drawn by an operation of
the content when no text was waiting. -/
def Faithful (env : Environment α) (content : ContentStream α) : Block → Prop
  | paragraph letters elements => ReadsAs env.options letters elements
  | other elements => ∃ op ∈ content, ∃ (c d : Canvas α) (b : Bool),
      c.context.layout = .empty ∧ execute env op c = .ok b d ∧ c.Adds elements d

end Block

/-- Visible and invisible letters are all letters but those that only clip. -/
theorem TextPart.read_visible_perm (letters : List Letter) :
    (visible.read letters ++ invisible.read letters).Perm
      ((letters.filter (·.mode != .clip)).map (·.char)) := by
  have hparts := List.filter_append_perm (fun l : Letter => visible.includes l.mode)
    (letters.filter (·.mode != .clip))
  have hvisible : (fun l : Letter => visible.includes l.mode && l.mode != .clip) =
      fun l => visible.includes l.mode := by
    funext ⟨mode, char⟩
    cases mode <;> rfl
  have hinvisible : (fun l : Letter => !visible.includes l.mode && l.mode != .clip) =
      fun l => invisible.includes l.mode := by
    funext ⟨mode, char⟩
    cases mode <;> rfl
  rw [List.filter_filter, List.filter_filter, hvisible, hinvisible] at hparts
  unfold read
  rw [← List.map_append]
  exact hparts.map _

/-- The elements of text of a faithful account read as its letters. -/
theorem Block.charactersEach_perm {env : Environment α} {content : ContentStream α}
    {blocks : List Block} (hhidden : env.options.includeHiddenText = true)
    (h : ∀ b ∈ blocks, b.Faithful env content) :
    (Node.charactersEach (blocks.flatMap Block.textElements)).Perm
      (((blocks.flatMap Block.letters).filter (·.mode != .clip)).map (·.char)) := by
  induction blocks with
  | nil => exact .nil
  | cons b rest ih =>
    rw [List.forall_mem_cons] at h
    rw [List.flatMap_cons, List.flatMap_cons, Node.charactersEach_append, List.filter_append,
      List.map_append]
    refine .append ?_ (ih h.2)
    cases b with
    | paragraph letters elements =>
      obtain ⟨visible, invisible, rfl, hvisible, hinvisible⟩ := h.1
      rw [hhidden, if_pos rfl] at hinvisible
      show (Node.charactersEach (visible ++ invisible)).Perm _
      rw [Node.charactersEach_append, hvisible, hinvisible]
      exact TextPart.read_visible_perm letters
    | other elements => exact .nil

/-- From `c` to `d` the letters `shown` have been shown and the blocks drawn. -/
structure Canvas.Accounts (env : Environment α) (content : ContentStream α) (c : Canvas α)
    (shown : List Letter) (blocks : List Block) (d : Canvas α) : Prop where
  lettered : d.context.layout.Lettered
  faithful : ∀ b ∈ blocks, b.Faithful env content
  drawn : c.Adds (blocks.flatMap Block.elements) d
  /-- The letters are in the blocks, or still wait. -/
  letters : blocks.flatMap Block.letters ++ d.context.layout.letters.flatten = shown
  outlines : Node.charactersEach d.context.outlines =
    TextPart.clip.read (blocks.flatMap Block.letters)

namespace Canvas.Accounts

variable {env : Environment α} {content : ContentStream α} {c d e : Canvas α}
  {shown : List Letter} {blocks : List Block}

theorem start (hlayout : c.context.layout = .empty) (houtlines : c.context.outlines = []) :
    Accounts env content c [] [] c where
  lettered := hlayout ▸ TextLayout.lettered_empty
  faithful _ hb := absurd hb List.not_mem_nil
  drawn := .of_eq rfl
  letters := by rw [hlayout]; rfl
  outlines := by rw [houtlines]; rfl

theorem spares (h : Accounts env content c shown blocks d) (hd : d.SparesText e) :
    Accounts env content c shown blocks e where
  lettered := hd.layout ▸ h.lettered
  faithful := h.faithful
  drawn := List.append_nil (blocks.flatMap Block.elements) ▸ h.drawn.trans (.of_eq hd.drawn)
  letters := hd.layout ▸ h.letters
  outlines := hd.outlines ▸ h.outlines

theorem adds {letters : List Letter} (h : Accounts env content c shown blocks d)
    (hd : d.AddsLetters letters e) : Accounts env content c (shown ++ letters) blocks e where
  lettered := hd.lettered h.lettered
  faithful := h.faithful
  drawn := List.append_nil (blocks.flatMap Block.elements) ▸ h.drawn.trans (.of_eq hd.drawn)
  letters := by rw [hd.letters h.lettered, ← List.append_assoc, h.letters]
  outlines := hd.outlines ▸ h.outlines

/-- The waiting text becomes blocks. -/
theorem flush (h : Accounts env content c shown blocks d) :
    (d.flushText env.options).context.layout = .empty ∧
      ∃ new, Accounts env content c shown (blocks ++ new) (d.flushText env.options) := by
  obtain ⟨paragraphs, hletters, hdrawn⟩ := drawsText_flushText env.options h.lettered
  have hlayout : (d.flushText env.options).context.layout = .empty := hdrawn.layout
  let block (p : List Letter × List Call) : Block := .paragraph p.1 (p.2.map Call.node)
  have hblockLetters : (paragraphs.map block).flatMap Block.letters = paragraphs.flatMap (·.1) :=
    List.flatMap_map ..
  have hblockElements : (paragraphs.flatMap (·.2)).map Call.node =
      (paragraphs.map block).flatMap Block.elements := by
    rw [List.map_flatMap, List.flatMap_map]
    rfl
  have hflatten : paragraphs.flatMap (·.1) = d.context.layout.letters.flatten := by
    rw [← hletters]
    rfl
  refine ⟨hlayout, paragraphs.map block, ?_, fun b hb => ?_, ?_, ?_, ?_⟩
  · rw [hlayout]
    exact TextLayout.lettered_empty
  · rcases List.mem_append.1 hb with hb | hb
    · exact h.faithful b hb
    · obtain ⟨p, hp, rfl⟩ := List.mem_map.1 hb
      exact hdrawn.reads p hp
  · rw [List.flatMap_append]
    exact h.drawn.trans ⟨_, hblockElements, hdrawn.drawn⟩
  · rw [hlayout, List.flatMap_append, hblockLetters, hflatten, h.letters]
    exact List.append_nil _
  · rw [List.flatMap_append, hblockLetters, TextPart.read_append, ← h.outlines]
    exact hdrawn.outlines

/-- What an operation draws where no text waits is a block. -/
theorem draw (h : Accounts env content c shown blocks d) (hlayout : d.context.layout = .empty)
    {op : Operation α} (hop : op ∈ content) {b : Bool} (hexecute : execute env op d = .ok b e)
    (hd : d.DrawsAfter e) : ∃ new, Accounts env content c shown (blocks ++ new) e := by
  obtain ⟨hsame, houtlines, elements, hadds⟩ := hd (congrArg (·.recent) hlayout)
  refine ⟨[.other elements], ?_, fun b hb => ?_, ?_, ?_, ?_⟩
  · rw [hsame]
    exact h.lettered
  · rcases List.mem_append.1 hb with hb | hb
    · exact h.faithful b hb
    · rw [List.mem_singleton.1 hb]
      exact ⟨op, hop, d, e, _, hlayout, hexecute, hadds⟩
  · rw [List.flatMap_append, List.flatMap_singleton]
    exact h.drawn.trans hadds
  · rw [hsame, List.flatMap_append]
    show (_ ++ []) ++ _ = _
    rw [List.append_nil, h.letters]
  · rw [houtlines, h.outlines, List.flatMap_append]
    exact congrArg TextPart.clip.read (List.append_nil _).symm

end Canvas.Accounts

/-! ### Steps and runs -/

section Runs

variable {s : Setting α} {level : Nat} {content : ContentStream α} {c d e : Canvas α}
  {shown : List Letter} {blocks : List Block}

theorem execute_endText {env : Environment α} {op : Operation α}
    (hop : op.executed? = some .endText) (c : Canvas α) :
    execute env op c = .ok true (c.endText env.options) := by
  obtain ⟨⟨operator, args⟩, hresolved, hend⟩ := Option.map_eq_some_iff.1 hop
  unfold execute OperatorTable.dispatch
  rw [hresolved]
  cases hend
  rfl

/-- Each operation comes to an end. -/
theorem execute_composed (s : Setting α) (level : Nat) (hd : d.Composed) (op : Operation α) :
    ∃ b e, execute ⟨s, s.nested level⟩ op d = .ok b e ∧ e.Composed := by
  have hsimulation : Simulation s (Manner.watching fun _ => pure ()) _ _ :=
    (invariant_composed s).simulation fun _ _ _ _ => rfl
  exact (matches_execute (hsimulation.steps level []) (hsimulation.nested level [])
    (s.nested_isolates level) ⟨rfl, hd⟩ op).completes fun _ h => h.running

theorem execute_apply {env : Environment α} {op : Operation α} {operator : Operator}
    {args : Arguments α}
    (hresolved : Operator.table.resolve op.operator op.operands = some (operator, args))
    (d : Canvas α) :
    execute env op d =
      match operator.perform env args d with
      | .ok _ e => .ok true e
      | .error fault e => .error fault e := by
  unfold execute OperatorTable.dispatch
  rw [hresolved]
  dsimp only
  rw [bind_apply]
  cases operator.perform env args d <;> rfl

/-- What an operation does that does not end a text object: it adds the letters that it shows to the
waiting text, or it shows none, and draws as if the waiting text had been drawn before. -/
theorem execute_outcome (hd : d.KeepsMode) {op : Operation α} (hend : op.executed? ≠ some .endText)
    (hplain : op.strings = [] ∨ d.graphics.currentFont.procedures = none) {b : Bool}
    (hexecute : execute ⟨s, s.nested level⟩ op d = .ok b e) :
    d.AddsLetters (op.letters d.graphics) e ∨
      op.letters d.graphics = [] ∧
        execute ⟨s, s.nested level⟩ op (d.flushText s.options) = .ok b e ∧
        (d.flushText s.options).DrawsAfter e := by
  have hisolates := s.nested_isolates level
  unfold Operation.letters
  unfold Operation.strings at hplain
  cases hresolved : Operator.table.resolve op.operator op.operands with
  | none =>
    unfold execute OperatorTable.dispatch at hexecute
    rw [hresolved] at hexecute
    cases hexecute
    exact .inl (.of_adjusts (.refl d))
  | some resolved =>
    obtain ⟨operator, args⟩ := resolved
    rw [hresolved] at hplain
    have hperform {d : Canvas α} (hexecute : execute ⟨s, s.nested level⟩ op d = .ok b e) :
        operator.perform ⟨s, s.nested level⟩ args d = .ok () e := by
      rw [execute_apply hresolved] at hexecute
      split at hexecute
      · next hok =>
        cases hexecute
        exact hok
      · cases hexecute
    cases hshows : operator.showsText with
    | true =>
      have hadds := addsLetters_perform hisolates hd args hshows hplain
      rw [ends_of_ok (hperform hexecute)] at hadds
      exact .inl hadds
    | false =>
      have hnone : operator.strings args = [] := by
        cases operator with
        | showText => cases hshows
        | showAdjusted => cases hshows
        | showOnNextLine => cases hshows
        | showSpacedOnNextLine => cases hshows
        | _ => rfl
      have hoperator : operator ≠ .endText := by
        rintro rfl
        exact hend (congrArg (Option.map Prod.fst) hresolved)
      dsimp only
      rw [hnone, List.flatMap_nil]
      rcases flushesFirst_perform hisolates args hshows hoperator d with hspares | ⟨hsame, hdraws⟩
      · rw [ends_of_ok (hperform hexecute)] at hspares
        exact .inl hspares.addsLetters
      · have hflushed : execute ⟨s, s.nested level⟩ op (d.flushText s.options) = .ok b e := by
          rw [← hexecute, execute_apply hresolved, execute_apply hresolved, hsame]
        rw [ends_of_ok (hperform hflushed)] at hdraws
        exact .inr ⟨rfl, hflushed, hdraws⟩

/-- **What an operation does to the account**: the letters that it shows wait, or what it draws is a
block, after the blocks of the text that was waiting. -/
theorem Canvas.Accounts.execute (h : Accounts ⟨s, s.nested level⟩ content c shown blocks d)
    (hd : d.KeepsMode) {op : Operation α} (hop : op ∈ content)
    (hend : op.executed? ≠ some .endText)
    (hplain : op.strings = [] ∨ d.graphics.currentFont.procedures = none) {b : Bool}
    (hexecute : PageSvg.execute ⟨s, s.nested level⟩ op d = .ok b e) :
    ∃ new, Accounts ⟨s, s.nested level⟩ content c (shown ++ op.letters d.graphics)
      (blocks ++ new) e := by
  rcases execute_outcome hd hend hplain hexecute with hadds | ⟨hnone, hflushed, hdraws⟩
  · exact ⟨[], by rw [List.append_nil]; exact h.adds hadds⟩
  · obtain ⟨hlayout, text, htext⟩ := h.flush
    obtain ⟨new, hnew⟩ := htext.draw hlayout hop hflushed hdraws
    exact ⟨text ++ new, by rwa [hnone, List.append_nil, ← List.append_assoc]⟩

/-- **A run keeps the account.** -/
theorem Canvas.Accounts.executeAll {rest : ContentStream α}
    (hrest : ∀ op ∈ rest, op ∈ content ∧ op.executed? ≠ some .endText)
    (h : Accounts ⟨s, s.nested level⟩ content c shown blocks d) (hd : d.Composed)
    (hplain : ∀ x ∈ executed ⟨s, s.nested level⟩ rest d,
      x.1.strings = [] ∨ x.2.graphics.currentFont.procedures = none) :
    ∃ e new, PageSvg.executeAll ⟨s, s.nested level⟩ rest d = .ok () e ∧ e.Composed ∧
      Accounts ⟨s, s.nested level⟩ content c
        (shown ++ shownLetters ⟨s, s.nested level⟩ rest d) (blocks ++ new) e := by
  induction rest generalizing d shown blocks with
  | nil =>
    refine ⟨d, [], rfl, hd, ?_⟩
    have hnone : shownLetters ⟨s, s.nested level⟩ [] d = [] := rfl
    rw [hnone, List.append_nil, List.append_nil]
    exact h
  | cons op rest ih =>
    rw [List.forall_mem_cons] at hrest
    have hlooked : d.looked.Composed := (kept_composed s True).look hd
    obtain ⟨b, e, hexecute, he⟩ := execute_composed s level hlooked op
    have hexecuted := executed_cons hexecute rest
    rw [hexecuted, List.forall_mem_cons] at hplain
    obtain ⟨new, hnew⟩ := (h.spares (e := d.looked) ⟨rfl, rfl, rfl⟩).execute hlooked.mode
      hrest.1.1 hrest.1.2 hplain.1 hexecute
    obtain ⟨f, more, hall, hf, haccounts⟩ := ih hrest.2 hnew he hplain.2
    refine ⟨f, new ++ more, ?_, hf, ?_⟩
    · have hseen : d.cancellation.isSeen = false := by
        unfold Cancellation.isSeen
        rw [hd.running]
        rfl
      rw [executeAll_cons_apply hseen hexecute, hall]
    · unfold shownLetters
      rw [hexecuted, List.flatMap_cons, ← List.append_assoc, ← List.append_assoc]
      exact haccounts

/-- The canvas `d` is `c` without its outlines, and cut by them: the region in force is one within
what was in force that bears the name of the outlines. It was there before, or it is new and has the
outlines for its shape. -/
structure Canvas.CutByOutlines (c d : Canvas α) : Prop where
  rest : d = { c with
    context := { c.context with
      outlines := []
      graphics := { c.graphics with clip := d.graphics.clip } }
    clips := d.clips }
  region :
    let name := c.clips.regionId c.graphics.clip (.text c.context.outlines) false
    (∃ i r, c.clips.get? i = some r ∧ r.parent = c.graphics.clip ∧ r.id = name ∧
        d.graphics.clip = some i ∧ d.clips = c.clips) ∨
      ((∀ i r, c.clips.get? i = some r → r.parent = c.graphics.clip → r.id ≠ name) ∧
        d.graphics.clip = some c.clips.size ∧
        d.clips = { c.clips with
          regions := c.clips.regions.push
            { id := name, parent := c.graphics.clip, shape := .text c.context.outlines,
              evenOdd := false } })

theorem Canvas.cutByOutlines_clipToOutlines (c : Canvas α) : c.CutByOutlines c.clipToOutlines := by
  refine ⟨rfl, ?_⟩
  have hclip : c.clipToOutlines.graphics.clip =
    some (c.clips.insert c.graphics.clip (.text c.context.outlines) false).1 := rfl
  have hclips : c.clipToOutlines.clips =
    (c.clips.insert c.graphics.clip (.text c.context.outlines) false).2 := rfl
  dsimp only
  rw [hclip, hclips]
  rcases c.clips.insert_cases c.graphics.clip (.text c.context.outlines) false with
    ⟨i, r, hr, hparent, hid, he⟩ | ⟨hnew, he⟩
  · rw [he]
    exact .inl ⟨i, r, hr, hparent, hid, rfl, rfl⟩
  · rw [he]
    exact .inr ⟨hnew, rfl, rfl⟩

/-- **Text is conserved.** Take a text object that begins without waiting text and outlines, with
all text shown in fonts without glyph procedures and hidden text included, and with anything drawn
in between. Before the end of the object cuts the clip region, what has been drawn in it is made of
blocks. The blocks of paragraphs hold the letters that were shown, in their order, and each reads as
its visible letters and then as its invisible ones; the other blocks were drawn by operations when
no text was waiting. Together the elements of text read as all letters but those that only clip. The
end of the object then cuts the region in force by the outlines, if there are any, and these read as
the letters that clip. -/
theorem text_conserved {v : Converter α} {p : Page α} (hrunning : v.cancellation.onset = none)
    (hhidden : v.options.includeHiddenText = true) {outer : List (Context α)}
    (hc : v.Reaches p outer c) (hlayout : c.context.layout = .empty)
    (houtlines : c.context.outlines = []) (level : Nat) {start finish : Operation α}
    (hstart : start.executed? = some .beginText) (hfinish : finish.executed? = some .endText)
    {inner : ContentStream α} (hinner : ∀ op ∈ inner, op.executed? ≠ some .endText)
    (hplain : ∀ x ∈ executed ⟨p.setting v.options v.library,
        (p.setting v.options v.library).nested level⟩ (start :: inner) c,
      x.1.strings = [] ∨ x.2.graphics.currentFont.procedures = none) :
    let s := p.setting v.options v.library
    let env : Environment α := ⟨s, s.nested level⟩
    let shown := shownLetters env (start :: inner) c
    ∃ (blocks : List Block) (e : Canvas α),
      (∀ b ∈ blocks, b.Faithful env (start :: inner)) ∧
      blocks.flatMap Block.letters = shown ∧
      c.Adds (blocks.flatMap Block.elements) e ∧
      Node.charactersEach e.content = Node.charactersEach c.content ++
        Node.charactersEach (blocks.flatMap Block.elements) ∧
      e.context.layout = .empty ∧
      (Node.charactersEach (blocks.flatMap Block.textElements)).Perm
        ((shown.filter (·.mode != .clip)).map (·.char)) ∧
      Node.charactersEach e.context.outlines = TextPart.clip.read shown ∧
      ∃ f, executeAll env (start :: inner ++ [finish]) c = .ok () f ∧
        (e.context.outlines = [] → f = e) ∧ (e.context.outlines ≠ [] → e.CutByOutlines f) := by
  intro s env shown
  obtain ⟨_, hcomposed⟩ := (invariant_composed s).of_reaches (c := c)
    (v := v) ⟨hrunning, Canvas.keepsMode_of_none rfl⟩ hc
  have hobject : ∀ op ∈ start :: inner, op.executed? ≠ some .endText := by
    refine List.forall_mem_cons.2 ⟨?_, hinner⟩
    rw [hstart]
    decide
  obtain ⟨d, blocks, hrun, hd, haccounts⟩ := (Canvas.Accounts.start hlayout houtlines).executeAll
    (fun op hop => ⟨hop, hobject op hop⟩) hcomposed hplain
  -- The end of the object draws the rest of the text first.
  let left := d.looked.mapContext fun k => { k with inText := false }
  obtain ⟨hempty, new, he⟩ := (haccounts.spares (e := left) ⟨rfl, rfl, rfl⟩).flush
  have hletters := he.letters
  rw [hempty] at hletters
  have hletters : (([] ++ blocks) ++ new).flatMap Block.letters = shown :=
    (List.append_nil _).symm.trans hletters
  let e := left.flushText v.options
  refine ⟨([] ++ blocks) ++ new, e, he.faithful, hletters, he.drawn, he.drawn.charactersEach_content,
    hempty, ?_, ?_, if e.context.outlines.isEmpty then e else e.clipToOutlines, ?_,
    fun hnone => if_pos (List.isEmpty_iff.2 hnone), fun hsome => ?_⟩
  · rw [← hletters]
    exact Block.charactersEach_perm hhidden he.faithful
  · rw [← hletters]
    exact he.outlines
  · have hseen : d.cancellation.isSeen = false := by
      unfold Cancellation.isSeen
      rw [hd.running]
      rfl
    rw [executeAll_append, bind_apply, hrun]
    dsimp only
    rw [executeAll_cons_apply hseen (execute_endText hfinish _)]
    rfl
  · rw [if_neg fun h => hsome (List.isEmpty_iff.1 h)]
    exact e.cutByOutlines_clipToOutlines

end Runs

section Example

attribute [local instance] Scalar.rational

/-- A letter that is filled and clips, a rectangle, two letters that only clip
and an invisible one. -/
theorem text_conserved_around_rectangle :
    ∃ (v : Converter ℚ) (p : Page ℚ) (start finish : Operation ℚ) (inner : ContentStream ℚ)
      (blocks : List Block) (e f : Canvas ℚ),
      let s := p.setting v.options v.library
      let env : Environment ℚ := ⟨s, s.nested 0⟩
      v.cancellation.onset = none ∧ v.options.includeHiddenText = true ∧
      v.Reaches p [] (v.canvas p) ∧ (v.canvas p).context.layout = .empty ∧
      (v.canvas p).context.outlines = [] ∧ start.executed? = some .beginText ∧
      finish.executed? = some .endText ∧ (∀ op ∈ inner, op.executed? ≠ some .endText) ∧
      (∀ x ∈ executed env (start :: inner) (v.canvas p),
        x.1.strings = [] ∨ x.2.graphics.currentFont.procedures = none) ∧
      (v.canvas p).Adds (blocks.flatMap Block.elements) e ∧
      Node.charactersEach e.content = Node.charactersEach (blocks.flatMap Block.elements) ∧
      (Node.charactersEach (blocks.flatMap Block.textElements)).Perm ['a', 'd'] ∧
      Node.charactersEach e.context.outlines = ['a', 'b', 'c'] ∧
      executeAll env (start :: inner ++ [finish]) (v.canvas p) = .ok () f ∧ e.CutByOutlines f := by
  let v : Converter ℚ :=
    { options := .standard, library := #[{ fonts := [("F", .standIn)] }] }
  let p : Page ℚ := ⟨⟨0, 0, 10, 10⟩, 0, [], 0, []⟩
  let s := p.setting v.options v.library
  let env : Environment ℚ := ⟨s, s.nested 0⟩
  let start : Operation ℚ := ⟨"BT", []⟩
  let finish : Operation ℚ := ⟨"ET", []⟩
  let inner : ContentStream ℚ :=
    [⟨"Tf", [.name "F", .integer 10]⟩, ⟨"Tr", [.integer 4]⟩, ⟨"Tj", [.string [0x61]]⟩,
      ⟨"re", [.integer 0, .integer 0, .integer 5, .integer 5]⟩, ⟨"f", []⟩, ⟨"Tr", [.integer 7]⟩,
      ⟨"TJ", [.array [.string [0x62], .integer 100, .string [0x63]]]⟩, ⟨"Tr", [.integer 3]⟩,
      ⟨"Tj", [.string [0x64]]⟩]
  have hreaches : v.Reaches p [] (v.canvas p) := v.reaches_canvas rfl rfl
  have hstart : start.executed? = some .beginText := by decide +kernel
  have hfinish : finish.executed? = some .endText := by decide +kernel
  have hinner : ∀ op ∈ inner, op.executed? ≠ some .endText := by decide +kernel
  have hplain : ∀ x ∈ executed env (start :: inner) (v.canvas p),
      x.1.strings = [] ∨ x.2.graphics.currentFont.procedures = none := by decide +kernel
  have hshown : shownLetters env (start :: inner) (v.canvas p) =
      [⟨.fillClip, 'a'⟩, ⟨.clip, 'b'⟩, ⟨.clip, 'c'⟩, ⟨.invisible, 'd'⟩] := by decide +kernel
  obtain ⟨blocks, e, -, -, hadds, hcontent, -, htext, houtlines, f, hrun, -, hcut⟩ :=
    text_conserved rfl rfl hreaches rfl rfl 0 hstart hfinish hinner hplain
  rw [hshown] at htext houtlines
  have hoccurs : e.context.outlines ≠ [] := by
    intro hnone
    rw [hnone] at houtlines
    cases houtlines
  exact ⟨v, p, start, finish, inner, blocks, e, f, rfl, rfl, hreaches, rfl, rfl, hstart, hfinish,
    hinner, hplain, hadds, hcontent, htext, houtlines, hrun, hcut hoccurs⟩

end Example

end PageSvg
