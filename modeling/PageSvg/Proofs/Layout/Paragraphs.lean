import Mathlib.Data.List.Chain
import Mathlib.Data.List.DropRight
import Mathlib.Tactic.Tauto
import PageSvg.Proofs.Layout.Letters
import PageSvg.Proofs.Number.Rational

/-!
# Paragraphs in step

The text shown so far consists of the paragraphs, the open line, the end of the last run and the gap
since it, and each call sets some of them. Whatever the calls are, they stay in step: the spans of a
paragraph are parted where the style changes, the open line is that of the last paragraph, what has
been drawn as glyphs is never added to, and no text is lost or doubled.
-/

namespace PageSvg

variable {α : Type}

/-- What text is laid out by, glyphs that are drawn and the removal of the text included. -/
inductive LayoutCall (α : Type)
  | position (m : Matrix α)
  | run (text : String) (width : α) (style : TextStyle α)
  | glyphs (nodes : List Node)
  | take

namespace LayoutCall

/-- Lays text out further. -/
def apply [Scalar α] (o : Options α) (t : TextLayout α) : LayoutCall α → TextLayout α
  | position m => t.position o m
  | run text width style => t.addText o text width style
  | glyphs nodes => t.addGlyphs nodes
  | take => .empty

/-- Does the text stay? -/
def keeps : LayoutCall α → Bool
  | take => false
  | _ => true

/-- The text that is added, if there is any. -/
def text? : LayoutCall α → Option String
  | run text _ _ => if text.isEmpty then none else some text
  | _ => none

end LayoutCall

/-- The text after calls. -/
def TextLayout.after [Scalar α] (o : Options α) (calls : List (LayoutCall α)) : TextLayout α :=
  calls.foldl (LayoutCall.apply o) .empty

/-! ### Spans -/

/-- Spans have text and one space for each character, and neighbours differ in their styles. -/
@[mk_iff]
structure Parted [BEq α] (spans : List (Span α)) : Prop where
  text : ∀ s ∈ spans, s.text ≠ ""
  spaces : ∀ s ∈ spans, s.spaces.length = s.text.length
  styles : spans.IsChain fun s s' => (s.style == s'.style) = false

section Spans

variable [Scalar α]

theorem parted_nil : Parted ([] : List (Span α)) := by simp [parted_iff]

/-- Spans that are stored last first. -/
theorem parted_reverse_cons {s : Span α} {spans : List (Span α)} :
    Parted (s :: spans).reverse ↔ Parted spans.reverse ∧ s.text ≠ "" ∧
      s.spaces.length = s.text.length ∧ ∀ last ∈ spans.head?, (last.style == s.style) = false := by
  simp only [parted_iff, List.mem_reverse, List.forall_mem_cons, List.isChain_reverse,
    List.isChain_cons]
  tauto

namespace TextLayout

variable {text : String} (width space : α) (style : TextStyle α) {spans : List (Span α)}

/-- A run goes on with the last span or is parted from it. -/
theorem parted_addSpan (h : Parted spans.reverse) (htext : text ≠ "") :
    Parted (addSpan spans text width space style).reverse := by
  have hlength : 0 < text.length :=
    Nat.pos_of_ne_zero fun hzero => htext (String.length_eq_zero_iff.1 hzero)
  have hspaces : (space :: List.replicate (text.length - 1) 0).length = text.length := by
    simp only [List.length_cons, List.length_replicate]
    omega
  cases spans with
  | nil =>
    rw [addSpan, parted_reverse_cons]
    exact ⟨h, htext, hspaces, by simp⟩
  | cons last rest =>
    rw [addSpan]
    split
    · -- The longer span stands beside the same neighbour, with the same style.
      rw [parted_reverse_cons] at h ⊢
      obtain ⟨hrest, hlast, hsame, hneighbour⟩ := h
      refine ⟨hrest, by simp [hlast], ?_, hneighbour⟩
      simp only [List.length_append, String.length_append, hsame, hspaces]
    · next hstyle =>
      rw [parted_reverse_cons]
      refine ⟨h, htext, hspaces, ?_⟩
      simpa using hstyle

/-- A run is the last of the text. -/
theorem join_addSpan (spans : List (Span α)) (text : String) :
    String.join ((addSpan spans text width space style).reverse.map (·.text)) =
      String.join (spans.reverse.map (·.text)) ++ text := by
  unfold addSpan
  split
  · split
    · simp [String.join_append, String.append_assoc]
    · simp [String.join_append, String.append_assoc]
  · simp

end TextLayout

end Spans

/-! ### Drawn glyphs -/

namespace TextLayout

/-- Drawn glyphs stay in their places, as they are. -/
def KeepsGlyphs (t u : TextLayout α) : Prop :=
  ∀ (i : ℕ) (p : Paragraph α),
    t.paragraphs[i]? = some p → p.glyphs?.isSome = true → u.paragraphs[i]? = some p

variable {t u v : TextLayout α}

theorem KeepsGlyphs.refl (t : TextLayout α) : t.KeepsGlyphs t := fun _ _ hp _ => hp

theorem KeepsGlyphs.trans (htu : t.KeepsGlyphs u) (huv : u.KeepsGlyphs v) : t.KeepsGlyphs v :=
  fun i p hp hglyphs => huv i p (htu i p hp hglyphs) hglyphs

/-- The last paragraphs change, and none of them was drawn. -/
theorem KeepsGlyphs.of_recent (old new : List (Paragraph α)) {rest : List (Paragraph α)}
    (ht : t.recent = old ++ rest) (hu : u.recent = new ++ rest)
    (hold : ∀ p ∈ old, p.glyphs? = none) : t.KeepsGlyphs u := by
  intro i p hp hglyphs
  unfold paragraphs at hp ⊢
  rw [ht, List.reverse_append] at hp
  rw [hu, List.reverse_append]
  by_cases hi : i < rest.reverse.length
  · rw [List.getElem?_append_left hi] at hp ⊢
    exact hp
  · rw [List.getElem?_append_right (by omega)] at hp
    have hmem := List.mem_reverse.1 (List.mem_of_getElem? hp)
    simp [hold p hmem] at hglyphs

variable [Scalar α] (o : Options α)

theorem keepsGlyphs_position (t : TextLayout α) (m : Matrix α) :
    t.KeepsGlyphs (t.position o m) := by
  unfold position
  dsimp only
  split
  · exact .of_recent [] [] rfl rfl (by simp)
  · exact .of_recent [] [_] rfl rfl (by simp)

theorem keepsGlyphs_addGlyphs (t : TextLayout α) (nodes : List Node) :
    t.KeepsGlyphs (t.addGlyphs nodes) := by
  unfold addGlyphs
  split
  · exact .refl t
  · exact .of_recent [] [_] rfl rfl (by simp)

end TextLayout

/-! ### The line and the text -/

/-- A line is that of the place of a matrix, and so is a paragraph of spans. -/
structure Line.Describes [Scalar α] (l : Line α) (p : Paragraph α) (m : Matrix α) : Prop where
  line : l = ⟨m.splitPlacement.scale, m.splitPlacement.y, m.splitPlacement.rest⟩
  paragraph : ∃ spans,
    p = ⟨m.splitPlacement.x, m.splitPlacement.y, m.splitPlacement.rest, spans, none⟩

namespace TextLayout

/-- The texts of the spans in order. -/
def texts (t : TextLayout α) : List String := t.paragraphs.flatMap fun p => p.spans.map (·.text)

theorem texts_eq {t : TextLayout α} {p : Paragraph α} {rest : List (Paragraph α)}
    (h : t.recent = p :: rest) :
    t.texts = rest.reverse.flatMap (fun p => p.spans.map (·.text)) ++ p.spans.map (·.text) := by
  simp [texts, paragraphs, h]

variable [Scalar α]

/-- A layout is in step with the calls since the text was last taken. -/
structure InStep (t : TextLayout α) (since : List (LayoutCall α)) : Prop where
  parted : ∀ p ∈ t.recent, Parted p.spans
  glyphs : ∀ p ∈ t.recent, p.glyphs?.isSome = true → p.recent = []
  texts : String.join t.texts = String.join (since.filterMap LayoutCall.text?)
  line : ∀ l, t.line = some l → ∃ p rest m, t.recent = p :: rest ∧ l.Describes p m ∧
    (m = .identity ∨ .position m ∈ since)

namespace InStep

variable {t : TextLayout α} {since : List (LayoutCall α)} (h : t.InStep since) (o : Options α)

theorem empty : (TextLayout.empty : TextLayout α).InStep [] :=
  ⟨by simp [TextLayout.empty], by simp [TextLayout.empty], rfl, by simp [TextLayout.empty]⟩

include h

/-- A call that adds no text may be counted in. -/
theorem append {call : LayoutCall α} (hcall : call.text? = none) : t.InStep (since ++ [call]) where
  parted := h.parted
  glyphs := h.glyphs
  texts := by simp [h.texts, hcall]
  line l hl := by
    obtain ⟨p, rest, m, hrecent, hdescribes, hm⟩ := h.line l hl
    exact ⟨p, rest, m, hrecent, hdescribes, hm.imp_right (List.mem_append_left _)⟩

theorem position {m : Matrix α} (hm : m = .identity ∨ .position m ∈ since) :
    (t.position o m).InStep since := by
  unfold TextLayout.position
  dsimp only
  split
  · exact ⟨h.parted, h.glyphs, h.texts, h.line⟩
  · refine ⟨List.forall_mem_cons.2 ⟨parted_nil, h.parted⟩,
      List.forall_mem_cons.2 ⟨fun _ => rfl, h.glyphs⟩, ?_, ?_⟩
    · rw [← h.texts]
      simp [TextLayout.texts, paragraphs, Paragraph.spans]
    · rintro l ⟨⟩
      exact ⟨_, _, m, rfl, ⟨rfl, [], rfl⟩, hm⟩

theorem addGlyphs (nodes : List Node) : (t.addGlyphs nodes).InStep since := by
  unfold TextLayout.addGlyphs
  split
  · exact h
  · refine ⟨List.forall_mem_cons.2 ⟨parted_nil, h.parted⟩,
      List.forall_mem_cons.2 ⟨fun _ => rfl, h.glyphs⟩, ?_, by simp⟩
    rw [← h.texts]
    simp [TextLayout.texts, paragraphs, Paragraph.spans]

/-- A run in an open line adds its text to the last paragraph. -/
theorem addText_of_open (hline : t.line.isSome = true) (text : String) (width : α)
    (style : TextStyle α) :
    (t.addText o text width style).InStep (since ++ [.run text width style]) := by
  by_cases htext : text = ""
  · rw [htext, addText_empty hline]
    exact h.append rfl
  obtain ⟨l, hl⟩ := Option.isSome_iff_exists.1 hline
  obtain ⟨p, rest, m, hrecent, ⟨rfl, spans, rfl⟩, hm⟩ := h.line l hl
  rw [addText_of_isSome_line hline htext]
  obtain ⟨recent, line, cursor, pending⟩ := t
  obtain rfl : recent = _ := hrecent
  obtain ⟨hlast, hrest⟩ := List.forall_mem_cons.1 h.parted
  refine ⟨List.forall_mem_cons.2 ⟨parted_addSpan _ _ _ hlast htext, hrest⟩,
    List.forall_mem_cons.2 ⟨fun hsome => (nomatch hsome), fun p hp =>
      h.glyphs p (List.mem_cons_of_mem _ hp)⟩, ?_, ?_⟩
  · have hsince : (since ++ [LayoutCall.run text width style]).filterMap LayoutCall.text? =
        since.filterMap LayoutCall.text? ++ [text] := by
      simp [LayoutCall.text?, htext]
    have hlonger := join_addSpan width (leadingSpace o pending style) style spans text
    rw [hsince, String.join_append, ← h.texts, texts_eq rfl, texts_eq rfl, String.join_append,
      String.join_append, String.append_assoc]
    exact congrArg (_ ++ ·) hlonger
  · rintro l' hl'
    obtain rfl : _ = l' := Option.some.inj (hl.symm.trans hl')
    exact ⟨_, rest, m, rfl, ⟨rfl, _, rfl⟩, hm.imp_right (List.mem_append_left _)⟩

theorem addText (text : String) (width : α) (style : TextStyle α) :
    (t.addText o text width style).InStep (since ++ [.run text width style]) := by
  cases hline : t.line with
  | none =>
    rw [addText_of_line_eq_none hline]
    exact (h.position o (.inl rfl)).addText_of_open o (isSome_line_position o t .identity) _ _ _
  | some l => exact h.addText_of_open o (by simp [hline]) text width style

/-- The paragraph of an open line is not one of drawn glyphs, so a run changes none of them. -/
theorem keepsGlyphs_addText_of_open (hline : t.line.isSome = true) (text : String) (width : α)
    (style : TextStyle α) : t.KeepsGlyphs (t.addText o text width style) := by
  by_cases htext : text = ""
  · rw [htext, addText_empty hline]
    exact .refl t
  obtain ⟨l, hl⟩ := Option.isSome_iff_exists.1 hline
  obtain ⟨p, rest, m, hrecent, ⟨-, spans, rfl⟩, -⟩ := h.line l hl
  rw [addText_of_isSome_line hline htext]
  exact .of_recent [_] [_] hrecent (congrArg (List.modifyHead _) hrecent)
    (List.forall_mem_singleton.2 rfl)

theorem keepsGlyphs_addText (text : String) (width : α) (style : TextStyle α) :
    t.KeepsGlyphs (t.addText o text width style) := by
  cases hline : t.line with
  | none =>
    -- A run that opens the line goes through a position.
    have hposition := h.position o (.inl rfl : Matrix.identity = .identity ∨ _)
    rw [addText_of_line_eq_none hline]
    exact (keepsGlyphs_position o t .identity).trans
      (hposition.keepsGlyphs_addText_of_open o (isSome_line_position o t .identity) text width style)
  | some l => exact h.keepsGlyphs_addText_of_open o (by simp [hline]) text width style

end InStep

/-- **The text is in step with the calls since it was last taken.** -/
theorem inStep_after (o : Options α) (calls : List (LayoutCall α)) :
    (after o calls).InStep (calls.rtakeWhile LayoutCall.keeps) := by
  -- From the right end, where the last call was made on a layout that is in step.
  induction calls using List.reverseRecOn with
  | nil => exact .empty
  | append_singleton calls call ih =>
    rw [after, List.foldl_append, List.rtakeWhile_concat]
    cases call with
    | position m => exact (ih.append rfl).position o (.inr (by simp))
    | run text width style => exact ih.addText o text width style
    | glyphs nodes => exact (ih.append rfl).addGlyphs nodes
    | take => exact .empty

/-- As long as the text is not taken, drawn glyphs stay. -/
theorem keepsGlyphs_after (o : Options α) (earlier : List (LayoutCall α))
    {later : List (LayoutCall α)} (h : LayoutCall.take ∉ later) :
    (after o earlier).KeepsGlyphs (after o (earlier ++ later)) := by
  induction later using List.reverseRecOn with
  | nil =>
    rw [List.append_nil]
    exact .refl _
  | append_singleton later call ih =>
    rw [List.mem_append, not_or] at h
    have hstep := inStep_after o (earlier ++ later)
    have hafter : after o (earlier ++ (later ++ [call])) =
        call.apply o (after o (earlier ++ later)) := by
      rw [← List.append_assoc]
      exact List.foldl_append
    rw [hafter]
    refine (ih h.1).trans ?_
    cases call with
    | position m => exact keepsGlyphs_position o _ m
    | run text width style => exact hstep.keepsGlyphs_addText o text width style
    | glyphs nodes => exact keepsGlyphs_addGlyphs _ nodes
    | take => exact absurd (List.mem_singleton.2 rfl) h.2

end TextLayout

/-- **Paragraphs stay in step.** After any calls all spans have text and a space for each character,
and neighbours differ in their styles; a paragraph of drawn glyphs has no spans and stays as it is
until the text is taken; the texts of the spans are together what has been added since the text was
last taken; and the open line is that of the last paragraph. -/
theorem paragraphs_in_step [Scalar α] (o : Options α) (calls : List (LayoutCall α)) :
    let t := TextLayout.after o calls
    let since := calls.rtakeWhile LayoutCall.keeps
    (∀ p ∈ t.paragraphs, Parted p.spans ∧ (p.glyphs?.isSome = true → p.spans = [])) ∧
      (∀ earlier later, earlier ++ later = calls → LayoutCall.take ∉ later →
        (TextLayout.after o earlier).KeepsGlyphs t) ∧
      String.join t.texts = String.join (since.filterMap LayoutCall.text?) ∧
      ∀ line, t.line = some line → ∃ p m, t.paragraphs.getLast? = some p ∧
        line.Describes p m ∧ (m = .identity ∨ .position m ∈ since) := by
  intro t since
  have h : t.InStep since := TextLayout.inStep_after o calls
  refine ⟨fun p hp => ?_, ?_, h.texts, ?_⟩
  · have hrecent := List.mem_reverse.1 hp
    exact ⟨h.parted p hrecent, fun hglyphs => congrArg List.reverse (h.glyphs p hrecent hglyphs)⟩
  · rintro earlier later rfl htake
    exact TextLayout.keepsGlyphs_after o earlier htake
  · intro line hline
    obtain ⟨p, rest, m, hrecent, hdescribes, hm⟩ := h.line line hline
    exact ⟨p, m, by simp [TextLayout.paragraphs, hrecent], hdescribes, hm⟩

section Example

attribute [local instance] Scalar.rational

/-- Text is taken, a run is followed by drawn glyphs, and these by another run. -/
theorem paragraphs_in_step_glyphs :
    let style : TextStyle ℚ := ⟨"Serif", false, false, 12, none, none, none, 0, 100, .fill⟩
    let earlier := [.run "a" 1 style, .take, .run "bc" 2 style, .glyphs [{ tag := "path" }]]
    let t := TextLayout.after .standard (earlier ++ [.run "d" 1 style])
    (∀ p ∈ t.paragraphs, Parted p.spans) ∧ (TextLayout.after .standard earlier).KeepsGlyphs t ∧
      String.join t.texts = "bcd" ∧
      ∃ line p m, t.line = some line ∧ t.paragraphs.getLast? = some p ∧ line.Describes p m := by
  intro style earlier t
  obtain ⟨hparted, hglyphs, htexts, hline⟩ :=
    paragraphs_in_step .standard (earlier ++ [.run "d" 1 style])
  have hopen : t.line.isSome = true := by rfl
  obtain ⟨line, hl⟩ := Option.isSome_iff_exists.1 hopen
  obtain ⟨p, m, hlast, hdescribes, -⟩ := hline line hl
  exact ⟨fun p hp => (hparted p hp).1, hglyphs earlier _ rfl (by simp), htexts,
    line, p, m, hl, hlast, hdescribes⟩

end Example

end PageSvg
