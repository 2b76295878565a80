import PageSvg.Layout.Element

/-!
# The letters of text

A text that is shown is a sequence of letters, each with its render mode. Laying out text
keeps the sequence: a run goes on with the last paragraph or begins a new one, and its
letters come last. The elements of a paragraph in a part read as the letters whose modes
belong to the part, in their order.
-/

namespace PageSvg

variable {α : Type}

/-- A character that is shown, with the render mode. -/
structure Letter where
  mode : RenderMode
  char : Char
  deriving DecidableEq

/-- The letters of a text that is shown in a render mode. -/
def Letter.ofText (mode : RenderMode) (text : String) : List Letter := text.toList.map (⟨mode, ·⟩)

/-- What the letters of a part read. -/
def TextPart.read (part : TextPart) (letters : List Letter) : List Char :=
  (letters.filter fun l => part.includes l.mode).map (·.char)

theorem Letter.ofText_append (mode : RenderMode) (s t : String) :
    ofText mode (s ++ t) = ofText mode s ++ ofText mode t := by
  rw [ofText, String.toList_append, List.map_append]
  rfl

namespace TextPart

variable (part : TextPart)

theorem read_append (k l : List Letter) : part.read (k ++ l) = part.read k ++ part.read l := by
  rw [read, List.filter_append, List.map_append]
  rfl

theorem read_ofText (mode : RenderMode) (text : String) :
    part.read (Letter.ofText mode text) = if part.includes mode then text.toList else [] := by
  have hfilter : (Letter.ofText mode text).filter (fun l => part.includes l.mode) =
      if part.includes mode then Letter.ofText mode text else [] := by
    unfold Letter.ofText
    rw [List.filter_map]
    split
    · next h => exact congrArg _ (List.filter_eq_self.2 fun _ _ => h)
    · next h => exact congrArg _ (List.filter_eq_nil_iff.2 fun _ _ => h)
  rw [read, hfilter]
  split
  · rw [Letter.ofText, List.map_map]
    exact List.map_id _
  · rfl

end TextPart

/-- The letters of a span. -/
def Span.letters (s : Span α) : List Letter := Letter.ofText s.style.mode s.text

/-- The letters of a paragraph. Drawn glyphs are no letters. -/
def Paragraph.letters (p : Paragraph α) : List Letter := p.spans.flatMap Span.letters

/-- The letters of the paragraphs. -/
def TextLayout.letters (t : TextLayout α) : List (List Letter) :=
  t.recent.reverse.map Paragraph.letters

/-! ### Elements -/

mutual

/-- What an element reads, its parts included. -/
def Node.characters : Node → List Char
  | ⟨_, _, children, text⟩ => (text.getD "").toList ++ charactersEach children

/-- What elements read. -/
def Node.charactersEach : List Node → List Char
  | [] => []
  | n :: rest => n.characters ++ charactersEach rest

end

theorem Node.charactersEach_eq (nodes : List Node) :
    charactersEach nodes = nodes.flatMap characters := by
  induction nodes with
  | nil => rfl
  | cons n rest ih => rw [charactersEach, ih, List.flatMap_cons]

namespace Layout

variable [Scalar α]

theorem map_span_placeFrom (origin : α) (index : Nat) (spans : List (Span α)) :
    (placeFrom origin index spans).map (·.span) = spans := by
  induction spans generalizing origin index with
  | nil => rfl
  | cons s rest ih => rw [placeFrom, List.map_cons, ih]

section Elements

variable (o : Options α) (p : Paragraph α) (part : TextPart) (d : Definitions)

/-- The selected spans read as the letters of the part. -/
theorem flatMap_selected :
    (selected p part).flatMap (fun s => s.span.text.toList) = part.read p.letters := by
  have hspans (spans : List (Span α)) :
      (spans.filter fun s => part.includes s.style.mode).flatMap (fun s => s.text.toList) =
        part.read (spans.flatMap Span.letters) := by
    induction spans with
    | nil => rfl
    | cons s rest ih =>
      rw [List.flatMap_cons, TextPart.read_append, ← ih, Span.letters,
        part.read_ofText s.style.mode s.text, List.filter_cons]
      split
      · rfl
      · rfl
  have hplaced : (selected p part).map (·.span) =
      p.spans.filter fun s => part.includes s.style.mode := by
    have hmap := List.filter_map (f := fun s : PlacedSpan α => s.span)
      (p := fun s => part.includes s.style.mode) (l := placed p)
    rw [placed, map_span_placeFrom] at hmap
    exact hmap.symm
  rw [Paragraph.letters, ← hspans, ← hplaced, List.flatMap_map]

theorem characters_stretched (s : PlacedSpan α) :
    (stretched o p part s d).1.characters = s.span.text.toList := List.append_nil _

theorem characters_inner (last : Option Nat) (s : PlacedSpan α) :
    (inner o part last s d).1.characters = s.span.text.toList := List.append_nil _

theorem characters_inners (last : Option Nat) (spans : List (PlacedSpan α)) :
    Node.charactersEach (inners o part last spans d).1 =
      spans.flatMap fun s => s.span.text.toList := by
  induction spans generalizing last d with
  | nil => rfl
  | cons s rest ih =>
    rw [List.flatMap_cons, ← characters_inner o part d last s, ← ih (inner o part last s d).2]
    rfl

theorem characters_mapM_stretched (spans : List (PlacedSpan α)) :
    (spans.mapM (stretched o p part) d).1.flatMap Node.characters =
      spans.flatMap fun s => s.span.text.toList := by
  induction spans generalizing d with
  | nil => rfl
  | cons s rest ih =>
    rw [List.mapM_cons, List.flatMap_cons, ← characters_stretched o p part d s,
      ← ih (stretched o p part s d).2]
    rfl

theorem characters_spanNodes (spans : List (PlacedSpan α)) :
    (spanNodes o p part spans d).1.flatMap Node.characters =
      spans.flatMap fun s => s.span.text.toList := by
  cases spans with
  | nil => rfl
  | cons first rest =>
    rw [spanNodes]
    split
    · exact characters_mapM_stretched o p part d _
    · dsimp only
      split
      · next hrest =>
        rw [List.isEmpty_iff.1 hrest]
        exact List.append_assoc ..
      · rw [← characters_inners o part d none]
        exact List.append_nil _

/-- **The elements of a paragraph in a part read as its letters in that part.** -/
theorem characters_nodes (h : p.glyphs? = none) :
    ((nodes o p part).run d).1.flatMap Node.characters = part.read p.letters := by
  rw [← flatMap_selected, ← characters_spanNodes o p part d]
  unfold nodes
  rw [h]
  rfl

end Elements

end Layout

/-! ### Laying out -/

/-- All paragraphs are made of letters, and where there is none nothing goes on. -/
structure TextLayout.Lettered [Scalar α] (t : TextLayout α) : Prop where
  text : ∀ p ∈ t.recent, p.glyphs? = none
  fresh : t.recent = [] → t = .empty

namespace TextLayout

variable [Scalar α] {t : TextLayout α}

theorem lettered_empty : (empty : TextLayout α).Lettered :=
  ⟨fun _ hp => absurd hp List.not_mem_nil, fun _ => rfl⟩

theorem Lettered.eq_empty (h : t.Lettered) (hempty : t.isEmpty = true) : t = .empty :=
  h.fresh (List.isEmpty_iff.1 hempty)

theorem isSome_line_position (o : Options α) (t : TextLayout α) (m : Matrix α) :
    (t.position o m).line.isSome = true := by
  unfold position
  dsimp only
  split
  · next h =>
    simp only [Bool.and_eq_true, Option.any_eq_true] at h
    obtain ⟨⟨⟨line, hline, -⟩, -⟩, -⟩ := h
    exact Option.isSome_iff_exists.2 ⟨line, hline⟩
  · rfl

theorem isNone_line_position (o : Options α) (t : TextLayout α) (m : Matrix α) :
    (t.position o m).line.isNone = false := by
  simp [← Option.not_isSome, isSome_line_position]

/-- A run before the first position begins at that of the identity. -/
theorem addText_of_line_eq_none {o : Options α} {text : String} {width : α} {style : TextStyle α}
    (hline : t.line = none) :
    t.addText o text width style = (t.position o .identity).addText o text width style := by
  unfold addText
  rw [isNone_line_position, if_neg Bool.false_ne_true, hline]
  rfl

/-- A run without characters changes nothing in an open line. -/
theorem addText_empty {o : Options α} {width : α} {style : TextStyle α}
    (hline : t.line.isSome = true) : t.addText o "" width style = t := by
  have hopen : t.line.isNone = false := by rw [← Option.not_isSome, hline]; rfl
  unfold addText
  rw [hopen, if_neg Bool.false_ne_true]
  exact if_pos (String.isEmpty_iff.2 rfl)

/-- A run in an open line adds to the last paragraph. -/
theorem addText_of_isSome_line {o : Options α} {text : String} {width : α} {style : TextStyle α}
    (hline : t.line.isSome = true) (htext : text ≠ "") :
    t.addText o text width style = { t with
      recent := t.recent.modifyHead fun p =>
        { p with recent := addSpan p.recent text width (leadingSpace o t.pending style) style }
      cursor := t.cursor + width
      pending := 0 } := by
  have hopen : t.line.isNone = false := by rw [← Option.not_isSome, hline]; rfl
  have hsome : text.isEmpty = false := by simp [htext]
  unfold addText
  rw [hopen, if_neg Bool.false_ne_true, hsome, if_neg Bool.false_ne_true]

theorem Lettered.position (h : t.Lettered) (o : Options α) (m : Matrix α) :
    (t.position o m).Lettered := by
  unfold TextLayout.position
  dsimp only
  split
  · next hgoes =>
    refine ⟨h.text, fun hempty => ?_⟩
    rw [h.fresh hempty] at hgoes
    cases hgoes
  · exact ⟨List.forall_mem_cons.2 ⟨rfl, h.text⟩,
      fun hempty => absurd hempty (List.cons_ne_nil _ _)⟩

/-- A new position is the beginning of a paragraph at most. -/
theorem flatten_letters_position (o : Options α) (t : TextLayout α) (m : Matrix α) :
    (t.position o m).letters.flatten = t.letters.flatten := by
  unfold position
  dsimp only
  split
  · rfl
  · unfold letters
    rw [List.reverse_cons, List.map_append, List.flatten_append]
    exact List.append_nil _

omit [Scalar α] in
theorem TextStyle.mode_eq_of_beq [BEq α] {s s' : TextStyle α} (h : (s == s') = true) :
    s.mode = s'.mode := by
  have h : (s.family == s'.family && (s.bold == s'.bold && (s.italic == s'.italic &&
      (s.size == s'.size && (s.fill == s'.fill && (s.fillReference == s'.fillReference &&
      (s.stroke == s'.stroke && (s.letterSpacing == s'.letterSpacing &&
      (s.scaling == s'.scaling && s.mode == s'.mode))))))))) = true := h
  simp only [Bool.and_eq_true] at h
  exact eq_of_beq h.2.2.2.2.2.2.2.2.2

theorem letters_addSpan (spans : List (Span α)) (text : String) (width space : α)
    (style : TextStyle α) :
    (addSpan spans text width space style).reverse.flatMap Span.letters =
      spans.reverse.flatMap Span.letters ++ Letter.ofText style.mode text := by
  have hnew : (⟨text, width, space :: List.replicate (text.length - 1) 0, style⟩ :: spans :
      List (Span α)).reverse.flatMap Span.letters =
      spans.reverse.flatMap Span.letters ++ Letter.ofText style.mode text := by
    rw [List.reverse_cons, List.flatMap_append, List.flatMap_singleton]
    rfl
  unfold addSpan
  dsimp only
  split
  · next last rest =>
    split
    · next hstyle =>
      rw [List.reverse_cons, List.reverse_cons, List.flatMap_append, List.flatMap_append,
        List.flatMap_singleton, List.flatMap_singleton, List.append_assoc]
      congr 1
      unfold Span.letters
      rw [Letter.ofText_append, TextStyle.mode_eq_of_beq hstyle]
    · exact hnew
  · exact hnew

variable (h : t.Lettered) (hline : t.line.isSome = true) (o : Options α) (text : String) (width : α)
  (style : TextStyle α)

include h hline

/-- A run goes on with the last paragraph, which its letters end. -/
theorem letters_addText :
    (t.addText o text width style).Lettered ∧ (t.addText o text width style).line.isSome = true ∧
      (t.addText o text width style).letters.flatten =
        t.letters.flatten ++ Letter.ofText style.mode text := by
  by_cases htext : text = ""
  · rw [htext, addText_empty hline]
    exact ⟨h, hline, (List.append_nil _).symm⟩
  · rw [addText_of_isSome_line hline htext]
    obtain ⟨recent, line, cursor, pending⟩ := t
    rcases recent with _ | ⟨last, rest⟩
    · cases h.fresh rfl
      cases hline
    · refine ⟨⟨List.forall_mem_cons.2 (List.forall_mem_cons.1 h.text),
        fun hempty => absurd hempty (List.cons_ne_nil _ _)⟩, hline, ?_⟩
      have hlast (p : Paragraph α) (c d : α) : (letters ⟨p :: rest, line, c, d⟩).flatten =
          (rest.reverse.map Paragraph.letters).flatten ++ p.recent.reverse.flatMap Span.letters := by
        unfold letters
        rw [List.reverse_cons, List.map_append, List.flatten_append]
        exact congrArg _ (List.append_nil _)
      have hadded := letters_addSpan last.recent text width (leadingSpace o pending style) style
      rw [hlast, List.append_assoc, ← hadded]
      exact hlast _ _ _

end TextLayout

end PageSvg
