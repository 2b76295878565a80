import PageSvg.Proofs.Scene.MarkupReader
import PageSvg.Proofs.Scene.Rendering

/-!
# Trees are read back from their markup

Whatever characters the texts and attribute values of a tree hold, its markup is read as the tokens
of the tree (`tokens?_chars`), and these build the tree again (`foldlM_tokens`). Only the characters
that no document may hold are lost, and the difference between no text and an empty text beside
children.
-/

namespace PageSvg

namespace Markup

/-! ### Characters -/

theorem character?_textEntity (c : Char) (rest : List Char) :
    character? ((textEntity c).toList ++ rest) = some (c, rest) := by
  unfold textEntity
  split_ifs with hamp hlt hgt
  · rw [hamp]; rfl
  · rw [hlt]; rfl
  · rw [hgt]; rfl
  · rw [Char.toString_eq_singleton, String.toList_singleton]
    exact if_neg hamp

theorem character?_attrEntity (c : Char) (rest : List Char) :
    character? ((attrEntity c).toList ++ rest) = some (c, rest) := by
  unfold attrEntity
  split_ifs with hquote
  · rw [hquote]; rfl
  · exact character?_textEntity c rest

theorem decode?_of_character? {s rest : List Char} {c : Char}
    (h : character? s = some (c, rest)) : decode? s = (decode? rest).map (c :: ·) := by
  rw [decode?]
  split
  · next e =>
    cases h.symm.trans e
    rfl
  · next e => cases h.symm.trans e

/-- Characters are decoded from whatever entities stand for them. -/
theorem decode?_flatMap {entity : Char → String}
    (h : ∀ c rest, character? ((entity c).toList ++ rest) = some (c, rest)) (s : List Char) :
    decode? (s.flatMap fun c => (entity c).toList) = some s := by
  induction s with
  | nil =>
    rw [List.flatMap_nil, decode?]
    rfl
  | cons c rest ih => rw [List.flatMap_cons, decode?_of_character? (h c _), ih, Option.map_some]

theorem ne_lt_of_mem_textEntity {c d : Char} (h : d ∈ (textEntity c).toList) : d ≠ '<' := by
  unfold textEntity at h
  split_ifs at h with hamp hlt
  · rintro rfl
    exact absurd h (by decide)
  · rintro rfl
    exact absurd h (by decide)
  · rintro rfl
    exact absurd h (by decide)
  · rw [Char.toString_eq_singleton, String.toList_singleton, List.mem_singleton] at h
    rwa [h]

theorem ne_of_mem_attrEntity {c d : Char} (h : d ∈ (attrEntity c).toList) : d ≠ '<' ∧ d ≠ '"' := by
  unfold attrEntity at h
  split_ifs at h with hquote
  · constructor
    all_goals
      rintro rfl
      exact absurd h (by decide)
  · refine ⟨ne_lt_of_mem_textEntity h, ?_⟩
    rintro rfl
    unfold textEntity at h
    split_ifs at h
    · exact absurd h (by decide)
    · exact absurd h (by decide)
    · exact absurd h (by decide)
    · rw [Char.toString_eq_singleton, String.toList_singleton, List.mem_singleton] at h
      exact hquote h.symm

theorem toList_join_map {γ : Type} (f : γ → String) (l : List γ) :
    (String.join (l.map f)).toList = l.flatMap fun a => (f a).toList := by
  rw [String.toList_join, List.flatMap_map]

/-- The characters of a text that a document may hold. -/
def kept (s : String) : List Char := s.toList.filter (!isForbidden ·)

theorem toList_contentText (s : String) :
    (contentText s).toList = (kept s).flatMap fun c => (textEntity c).toList :=
  toList_join_map textEntity _

theorem toList_attrText (s : String) :
    (attrText s).toList = s.toList.flatMap fun c => (attrEntity c).toList :=
  toList_join_map attrEntity _

/-! ### Up to a mark -/

section Span

variable {s rest : List Char} {p : Char → Bool}

theorem takeWhile_append_mark {mark : Char} (h : ∀ d ∈ s, p d = true) (hmark : p mark = false) :
    (s ++ mark :: rest).takeWhile p = s := by
  rw [List.takeWhile_append_of_pos h, List.takeWhile_cons_of_neg (Bool.eq_false_iff.1 hmark),
    List.append_nil]

theorem dropWhile_append_mark {mark : Char} (h : ∀ d ∈ s, p d = true) (hmark : p mark = false) :
    (s ++ mark :: rest).dropWhile p = mark :: rest := by
  rw [List.dropWhile_append_of_pos h, List.dropWhile_cons_of_neg (Bool.eq_false_iff.1 hmark)]

end Span

theorem dropPrefix?_append (mark rest : List Char) :
    (mark ++ rest).dropPrefix? mark = some rest :=
  List.dropPrefix?_eq_some_iff.2 ⟨mark, rfl, BEq.rfl⟩

/-! ### Names -/

theorem isName_cases {s : String} (h : isName s = true) :
    ∃ c rest, s.toList = c :: rest ∧ isNameStart c = true ∧ ∀ d ∈ s.toList, isNameChar d = true := by
  unfold isName at h
  split at h
  · cases h
  · next c rest hs =>
    rw [Bool.and_eq_true, List.all_eq_true] at h
    refine ⟨c, rest, hs, h.1, fun d hd => ?_⟩
    rw [hs, List.mem_cons] at hd
    rcases hd with rfl | hd
    · simp [isNameChar, h.1]
    · exact h.2 d hd

/-- A name is read up to the first character that cannot go on with it. -/
theorem name?_append {s : String} (h : isName s = true) {mark : Char}
    (hmark : isNameChar mark = false) (rest : List Char) :
    name? (s.toList ++ mark :: rest) = some (s, mark :: rest) := by
  obtain ⟨_, _, _, _, hall⟩ := isName_cases h
  rw [name?, takeWhile_append_mark hall hmark, dropWhile_append_mark hall hmark]
  rw [String.ofList_toList, if_pos h]

/-! ### Attributes -/

theorem value?_attrText (value : String) (rest : List Char) :
    value? ((attrText value).toList ++ '"' :: rest) = some (value, rest) := by
  have hmem : ∀ d ∈ (attrText value).toList, d ≠ '<' ∧ d ≠ '"' := by
    intro d hd
    rw [toList_attrText] at hd
    obtain ⟨c, _, hd⟩ := List.mem_flatMap.1 hd
    exact ne_of_mem_attrEntity hd
  have hquote : ∀ d ∈ (attrText value).toList, (d != '"') = true := fun d hd =>
    bne_iff_ne.2 (hmem d hd).2
  have hopen : (attrText value).toList.contains '<' = false := by
    rw [Bool.eq_false_iff]
    intro h
    exact (hmem '<' (List.contains_iff_mem.1 h)).1 rfl
  rw [value?, dropWhile_append_mark hquote rfl]
  dsimp only
  rw [takeWhile_append_mark hquote rfl, hopen, toList_attrText,
    decode?_flatMap character?_attrEntity, if_neg Bool.false_ne_true, Option.map_some,
    String.ofList_toList]

/-- An attribute as it is written. -/
def attrWritten (attr : String × String) : List Char :=
  ' ' :: (attr.1.toList ++ (['=', '"'] ++ ((attrText attr.2).toList ++ ['"'])))

theorem toList_attrsText (attrs : List (String × String)) :
    (attrsText attrs).toList = attrs.flatMap attrWritten := by
  unfold attrsText
  rw [toList_join_map]
  refine List.flatMap_congr fun attr _ => ?_
  simp only [String.toList_append, List.append_assoc]
  rfl

theorem attribute?_attrWritten {attr : String × String} (h : isName attr.1 = true)
    (rest : List Char) : attribute? (attrWritten attr ++ rest) = some (attr, rest) := by
  obtain ⟨c, name, hs, hc, _⟩ := isName_cases h
  have hblank : isBlank c = false := by
    rw [Bool.eq_false_iff]
    intro hblank
    simp only [isBlank, Bool.or_eq_true, beq_iff_eq] at hblank
    rcases hblank with ((rfl | rfl) | rfl) | rfl
    all_goals exact absurd hc (by decide)
  have hstay (more : List Char) : (attr.1.toList ++ more).dropWhile isBlank =
      attr.1.toList ++ more := by
    rw [hs, List.cons_append, List.dropWhile_cons_of_neg (Bool.eq_false_iff.1 hblank)]
  rw [attrWritten, List.cons_append, attribute?, if_pos (show isBlank ' ' = true from rfl)]
  simp only [List.append_assoc]
  rw [hstay, show (['=', '"'] ++ ((attrText attr.2).toList ++ (['"'] ++ rest))) =
    '=' :: ('"' :: ((attrText attr.2).toList ++ '"' :: rest)) from rfl, name?_append h (by decide)]
  show (List.dropPrefix? (['=', '"'] ++ _) ['=', '"'] >>= _) = _
  rw [dropPrefix?_append]
  show (value? ((attrText attr.2).toList ++ '"' :: rest) >>= fun p => some ((attr.1, p.1), p.2)) = _
  rw [value?_attrText]
  rfl

theorem attributes_of_some {s rest : List Char} {attr : String × String}
    (h : attribute? s = some (attr, rest)) :
    attributes s = (attr :: (attributes rest).1, (attributes rest).2) := by
  rw [attributes]
  split
  · next e =>
    cases h.symm.trans e
    rfl
  · next e => cases h.symm.trans e

theorem attributes_of_none {s : List Char} (h : attribute? s = none) : attributes s = ([], s) := by
  rw [attributes]
  split
  · next e => cases h.symm.trans e
  · rfl

/-- Written attributes are read, up to something else. -/
theorem attributes_attrsText {attrs : List (String × String)}
    (h : ∀ attr ∈ attrs, isName attr.1 = true) {rest : List Char} (hrest : attribute? rest = none) :
    attributes ((attrsText attrs).toList ++ rest) = (attrs, rest) := by
  rw [toList_attrsText]
  induction attrs with
  | nil => exact attributes_of_none hrest
  | cons attr attrs ih =>
    obtain ⟨hattr, hattrs⟩ := List.forall_mem_cons.1 h
    rw [List.flatMap_cons, List.append_assoc,
      attributes_of_some (attribute?_attrWritten hattr _), ih hattrs]

/-! ### Tokens -/

section Token

variable {tag : String} {attrs : List (String × String)}

theorem startTag?_written (htag : isName tag = true) (hnames : ∀ attr ∈ attrs, isName attr.1 = true)
    (hnodup : (Keyed.keys attrs).Nodup) {mark : Char} (hmark : mark = '>' ∨ mark = '/')
    (rest : List Char) :
    startTag? (tag.toList ++ ((attrsText attrs).toList ++ mark :: rest)) =
      match mark :: rest with
      | '>' :: rest => some (.start tag attrs, rest)
      | '/' :: '>' :: rest => some (.whole tag attrs, rest)
      | _ => none := by
  have hnot : attribute? (mark :: rest) = none := by
    rcases hmark with rfl | rfl
    · rfl
    · rfl
  have hname : name? (tag.toList ++ ((attrsText attrs).toList ++ mark :: rest)) =
      some (tag, (attrsText attrs).toList ++ mark :: rest) := by
    cases attrs with
    | nil =>
      have hstop : isNameChar mark = false := by
        rcases hmark with rfl | rfl
        · decide
        · decide
      exact name?_append htag hstop rest
    | cons attr attrs =>
      rw [toList_attrsText, List.flatMap_cons]
      exact name?_append htag (by decide) _
  have hstay : (mark :: rest).dropWhile isBlank = mark :: rest := by
    rcases hmark with rfl | rfl
    · rfl
    · rfl
  rw [startTag?, hname]
  show (if _ then none else _) = _
  rw [attributes_attrsText hnames hnot, decide_eq_true hnodup, hstay]
  rfl

theorem token?_tag {c : Char} (hc : isNameStart c = true) (s : List Char) :
    token? ('<' :: c :: s) = startTag? (c :: s) := by
  unfold token?
  split
  · next e =>
    cases e
    exact absurd hc (by decide)
  · next e =>
    cases e
    exact absurd hc (by decide)
  · next e =>
    cases e
    rfl
  · next hopen => exact absurd rfl (hopen _)

theorem token?_start (htag : isName tag = true) (hnames : ∀ attr ∈ attrs, isName attr.1 = true)
    (hnodup : (Keyed.keys attrs).Nodup) (rest : List Char) :
    token? ('<' :: (tag.toList ++ ((attrsText attrs).toList ++ '>' :: rest))) =
      some (.start tag attrs, rest) := by
  obtain ⟨c, name, hs, hc, _⟩ := isName_cases htag
  have hstart := startTag?_written htag hnames hnodup (.inl rfl) rest
  rw [hs, List.cons_append] at hstart ⊢
  exact (token?_tag hc _).trans hstart

theorem token?_whole (htag : isName tag = true) (hnames : ∀ attr ∈ attrs, isName attr.1 = true)
    (hnodup : (Keyed.keys attrs).Nodup) (rest : List Char) :
    token? ('<' :: (tag.toList ++ ((attrsText attrs).toList ++ '/' :: '>' :: rest))) =
      some (.whole tag attrs, rest) := by
  obtain ⟨c, name, hs, hc, _⟩ := isName_cases htag
  have hstart := startTag?_written htag hnames hnodup (.inr rfl) ('>' :: rest)
  rw [hs, List.cons_append] at hstart ⊢
  exact (token?_tag hc _).trans hstart

theorem token?_stop (htag : isName tag = true) (rest : List Char) :
    token? ('<' :: '/' :: (tag.toList ++ '>' :: rest)) = some (.stop tag, rest) := by
  show endTag? _ = _
  rw [endTag?, name?_append htag (by decide)]
  show ((['>'] ++ rest).dropPrefix? ['>'] >>= _) = _
  rw [dropPrefix?_append]
  rfl

end Token

/-- Character content is read up to the next tag. -/
theorem token?_contentText {s : String} (hs : kept s ≠ []) (rest : List Char) :
    ∃ c more, (contentText s).toList ++ '<' :: rest = c :: more ∧
      token? (c :: more) = some (.text (kept s), '<' :: rest) := by
  have hmem : ∀ d ∈ (contentText s).toList, (d != '<') = true := by
    intro d hd
    rw [toList_contentText] at hd
    obtain ⟨c, _, hd⟩ := List.mem_flatMap.1 hd
    exact bne_iff_ne.2 (ne_lt_of_mem_textEntity hd)
  have hdecode : decode? (contentText s).toList = some (kept s) := by
    rw [toList_contentText]
    exact decode?_flatMap character?_textEntity _
  cases htext : (contentText s).toList with
  | nil =>
    -- Something is decoded from the text, so it is not empty.
    rw [htext, decode?] at hdecode
    exact absurd (Option.some.inj hdecode).symm hs
  | cons c more =>
    rw [htext] at hmem hdecode
    refine ⟨c, more ++ '<' :: rest, rfl, ?_⟩
    have hc : c ≠ '<' := bne_iff_ne.1 (hmem c List.mem_cons_self)
    unfold token?
    split
    · next e => exact absurd (List.cons.inj e).1 hc
    · next e => exact absurd (List.cons.inj e).1 hc
    · next e => exact absurd (List.cons.inj e).1 hc
    · rw [← List.cons_append, takeWhile_append_mark hmem rfl, dropWhile_append_mark hmem rfl,
        hdecode]
      rfl

theorem verbatim?_append {s : List Char} (hs : ¬[']', ']', '>'] <:+: s) (rest : List Char) :
    verbatim? (s ++ (']' :: ']' :: '>' :: rest)) = some (s, rest) := by
  induction s with
  | nil =>
    have hmark : List.dropPrefix? (']' :: ']' :: '>' :: rest) [']', ']', '>'] = some rest :=
      dropPrefix?_append [']', ']', '>'] rest
    rw [List.nil_append, verbatim?, hmark]
  | cons c s ih =>
    have hrest : ¬[']', ']', '>'] <:+: s := fun h => hs (h.trans (List.suffix_cons c s).isInfix)
    have hnot : List.dropPrefix? (c :: (s ++ (']' :: ']' :: '>' :: rest))) [']', ']', '>'] =
        none := by
      rw [Option.eq_none_iff_forall_ne_some]
      intro after hmark
      obtain ⟨mark, hsplit, hmark⟩ := List.dropPrefix?_eq_some_iff.1 hmark
      rw [eq_of_beq hmark] at hsplit
      -- The mark would begin in `s`, and it is too long to end in the mark behind.
      rcases s with _ | ⟨d, _ | ⟨e, s⟩⟩
      · cases hsplit
      · cases hsplit
      · cases hsplit
        exact hs ⟨[], s, rfl⟩
    rw [List.cons_append, verbatim?, hnot]
    dsimp only
    rw [ih hrest]
    rfl

theorem token?_section {s : String} (hs : ¬[']', ']', '>'] <:+: s.toList) (rest : List Char) :
    token? ('<' :: '!' :: (['[', 'C', 'D', 'A', 'T', 'A', '['] ++
        (s.toList ++ (']' :: ']' :: '>' :: rest)))) = some (.text s.toList, rest) := by
  show (List.dropPrefix? (['[', 'C', 'D', 'A', 'T', 'A', '['] ++ _) _ >>= _) = _
  rw [dropPrefix?_append]
  show (verbatim? _ >>= _) = _
  rw [verbatim?_append hs]
  rfl

theorem tokens?_of_token? {c : Char} {s rest : List Char} {t : Token}
    (h : token? (c :: s) = some (t, rest)) :
    tokens? (c :: s) = (tokens? rest).map (t :: ·) := by
  rw [tokens?]
  split
  · next e =>
    cases h.symm.trans e
    rfl
  · next e => cases h.symm.trans e

end Markup

namespace Node

open Markup

/-! ### The tokens of a tree -/

/-- The tokens of the text of an element. -/
def textTokens (tag : String) : Option String → List Token
  | none => []
  | some s =>
    if tag = "style" then [.text s.toList] else if kept s = [] then [] else [.text (kept s)]

mutual

/-- The tokens of a tree. -/
def tokens : Node → List Token
  | ⟨tag, attrs, children, text⟩ =>
    if children.isEmpty && text.isNone then [.whole tag attrs]
    else .start tag attrs :: (textTokens tag text ++ (tokensAll children ++ [.stop tag]))

/-- The tokens of several trees. -/
def tokensAll : List Node → List Token
  | [] => []
  | n :: rest => tokens n ++ tokensAll rest

end

/-- An element whose markup can be read: its tag and its attributes have names, none of them twice,
and a style sheet does not end its section. -/
structure Writable (n : Node) : Prop where
  tag : isName n.tag = true
  names : ∀ name ∈ n.names, isName name = true
  nodup : n.names.Nodup
  style : n.tag = "style" → ∀ s, n.text = some s → ¬[']', ']', '>'] <:+: s.toList

end Node

namespace Markup

open Node

/-- The characters of the markup of a tree. -/
def chars (depth : Nat) (n : Node) : List Char := (pieces false depth n).flatMap String.toList

/-- The characters of the markup of several trees. -/
def charsAll (depth : Nat) (nodes : List Node) : List Char :=
  (childPieces false false depth nodes).flatMap String.toList

theorem charsAll_cons (depth : Nat) (n : Node) (rest : List Node) :
    charsAll depth (n :: rest) = chars depth n ++ charsAll depth rest := by
  unfold charsAll chars
  rw [childPieces, if_neg Bool.false_ne_true, List.nil_append, List.flatMap_append]

theorem chars_whole (depth : Nat) (tag : String) (attrs : List (String × String)) :
    chars depth ⟨tag, attrs, [], none⟩ =
      '<' :: (tag.toList ++ ((attrsText attrs).toList ++ ['/', '>'])) := by
  unfold chars
  rw [pieces]
  simp

theorem chars_of_content (depth : Nat) (tag : String) (attrs : List (String × String))
    {children : List Node} {text : Option String}
    (h : (children.isEmpty && text.isNone) = false) :
    chars depth ⟨tag, attrs, children, text⟩ =
      '<' :: (tag.toList ++ ((attrsText attrs).toList ++ '>' :: ((bodyText tag text).toList ++
        (charsAll (depth + 1) children ++ '<' :: '/' :: (tag.toList ++ ['>']))))) := by
  have hindent : indents false tag text = false := rfl
  unfold chars
  rw [pieces, h, hindent]
  simp [charsAll]

theorem exists_chars_eq (depth : Nat) (n : Node) : ∃ rest, chars depth n = '<' :: rest := by
  obtain ⟨tag, attrs, children, text⟩ := n
  cases h : (children.isEmpty && text.isNone) with
  | false => exact ⟨_, chars_of_content depth tag attrs h⟩
  | true =>
    rw [Bool.and_eq_true, List.isEmpty_iff, Option.isNone_iff_eq_none] at h
    obtain ⟨rfl, rfl⟩ := h
    exact ⟨_, chars_whole depth tag attrs⟩

/-- What follows a text is a tag: that of a child, or the end tag. -/
theorem exists_charsAll_eq (depth : Nat) (nodes : List Node) (more : List Char) :
    ∃ rest, charsAll depth nodes ++ '<' :: more = '<' :: rest := by
  cases nodes with
  | nil => exact ⟨more, rfl⟩
  | cons n nodes =>
    obtain ⟨rest, hrest⟩ := exists_chars_eq depth n
    rw [charsAll_cons, hrest]
    exact ⟨_, rfl⟩

theorem tokens?_bodyText {tag : String} {text : Option String}
    (hstyle : tag = "style" → ∀ s, text = some s → ¬[']', ']', '>'] <:+: s.toList)
    (rest : List Char) :
    tokens? ((bodyText tag text).toList ++ '<' :: rest) =
      (tokens? ('<' :: rest)).map (textTokens tag text ++ ·) := by
  cases text with
  | none => exact Option.map_id'.symm
  | some s =>
    by_cases htag : tag = "style"
    · have hsection : (bodyText tag (some s)).toList ++ '<' :: rest =
          '<' :: '!' :: (['[', 'C', 'D', 'A', 'T', 'A', '['] ++
            (s.toList ++ (']' :: ']' :: '>' :: '<' :: rest))) := by
        simp [bodyText, htag]
      rw [hsection, tokens?_of_token? (token?_section (hstyle htag s rfl) _), textTokens,
        if_pos htag]
      rfl
    · rw [bodyText, if_neg htag, textTokens, if_neg htag]
      by_cases hs : kept s = []
      · have hempty : (contentText s).toList = [] := by
          rw [toList_contentText, hs]
          rfl
        rw [hempty, if_pos hs]
        exact Option.map_id'.symm
      · obtain ⟨c, more, hchars, htoken⟩ := token?_contentText hs rest
        rw [hchars, tokens?_of_token? htoken, if_neg hs]
        rfl

/-- **The markup of a tree is read as its tokens.** -/
theorem tokens?_chars {n : Node} (h : n.Every Node.Writable) (depth : Nat) (rest : List Char) :
    tokens? (chars depth n ++ rest) = (tokens? rest).map (n.tokens ++ ·) := by
  -- By induction on the tree, for all that may follow.
  induction h generalizing depth rest with
  | @mk n hn _ ih =>
    obtain ⟨tag, attrs, children, text⟩ := n
    have hnames : ∀ attr ∈ attrs, isName attr.1 = true := fun attr hattr =>
      hn.names attr.1 (List.mem_map_of_mem hattr)
    have hchildren (nodes : List Node) (hnodes : ∀ c ∈ nodes, c ∈ children) (more : List Char) :
        tokens? (charsAll (depth + 1) nodes ++ more) =
          (tokens? more).map (tokensAll nodes ++ ·) := by
      induction nodes with
      | nil => exact Option.map_id'.symm
      | cons c nodes ihnodes =>
        obtain ⟨hc, hnodes⟩ := List.forall_mem_cons.1 hnodes
        rw [charsAll_cons, List.append_assoc, ih c hc, ihnodes hnodes, Option.map_map, tokensAll]
        simp only [Function.comp_def, List.append_assoc]
    cases hwhole : (children.isEmpty && text.isNone) with
    | true =>
      have htokens : tokens ⟨tag, attrs, children, text⟩ = [.whole tag attrs] := by
        rw [tokens, if_pos hwhole]
      rw [Bool.and_eq_true, List.isEmpty_iff, Option.isNone_iff_eq_none] at hwhole
      obtain ⟨rfl, rfl⟩ := hwhole
      rw [chars_whole, htokens]
      simp only [List.cons_append, List.append_assoc, List.nil_append]
      rw [tokens?_of_token? (token?_whole hn.tag hnames hn.nodup rest)]
    | false =>
      have htokens : tokens ⟨tag, attrs, children, text⟩ =
          .start tag attrs :: (textTokens tag text ++ (tokensAll children ++ [.stop tag])) := by
        rw [tokens, hwhole, if_neg Bool.false_ne_true]
      rw [chars_of_content depth tag attrs hwhole, htokens]
      simp only [List.cons_append, List.append_assoc, List.nil_append]
      obtain ⟨more, hmore⟩ := exists_charsAll_eq (depth + 1) children
        ('/' :: (tag.toList ++ '>' :: rest))
      rw [tokens?_of_token? (token?_start hn.tag hnames hn.nodup _), hmore,
        tokens?_bodyText hn.style, ← hmore, hchildren children (fun _ hc => hc),
        tokens?_of_token? (token?_stop hn.tag rest)]
      simp only [Option.map_map, Function.comp_def]

end Markup

namespace Node

open Markup

/-! ### Building the tree -/

/-- The text of an element as it is read: without the characters that no document may hold, and none
where nothing stands beside children. -/
def textRead (tag : String) (alone : Bool) : Option String → Option String
  | none => none
  | some s =>
    let s := if tag = "style" then s else String.ofList (kept s)
    if s.isEmpty && !alone then none else some s

mutual

/-- A tree as it is read. -/
def readBack : Node → Node
  | ⟨tag, attrs, children, text⟩ =>
    ⟨tag, attrs, readBackAll children, textRead tag children.isEmpty text⟩

/-- Several trees as they are read. -/
def readBackAll : List Node → List Node
  | [] => []
  | n :: rest => readBack n :: readBackAll rest

end

theorem isEmpty_readBackAll (nodes : List Node) : (readBackAll nodes).isEmpty = nodes.isEmpty := by
  cases nodes with
  | nil => rfl
  | cons n rest => rfl

/-- The characters of a text as they are read. -/
def charsRead (tag : String) : Option String → List Char
  | none => []
  | some s => if tag = "style" then s.toList else kept s

theorem foldlM_textTokens (e : OpenElement) (outer : List OpenElement) (tag : String)
    (text : Option String) (more : List Token) :
    (textTokens tag text ++ more).foldlM Progress.step (.inside e outer) =
      more.foldlM Progress.step (.inside (e.write (charsRead tag text)) outer) := by
  have hnothing : e.write [] = e := by rw [OpenElement.write, List.append_nil]
  cases text with
  | none => rw [charsRead, hnothing]; rfl
  | some s =>
    rw [textTokens, charsRead]
    split_ifs with htag hs
    · rfl
    · rw [hs, hnothing]; rfl
    · rfl

/-- An element is closed with the text that is read. -/
theorem close_write {tag : String} {attrs : List (String × String)} {children : List Node}
    {text : Option String} (h : (children.isEmpty && text.isNone) = false) :
    (OpenElement.mk tag attrs (readBackAll children) (charsRead tag text)).close =
      readBack ⟨tag, attrs, children, text⟩ := by
  have htext : (if (charsRead tag text).isEmpty && !(readBackAll children).isEmpty then none
      else some (String.ofList (charsRead tag text))) = textRead tag children.isEmpty text := by
    rw [isEmpty_readBackAll]
    cases text with
    | none =>
      rw [Option.isNone_none, Bool.and_true] at h
      rw [h]
      rfl
    | some s =>
      rw [charsRead, textRead]
      split_ifs with htag
      all_goals simp_all
  rw [OpenElement.close, htext, readBack]

mutual

/-- The tokens of a tree add the tree as it is read. -/
theorem foldlM_tokens : ∀ (n : Node) (p : Progress) (more : List Token),
    (n.tokens ++ more).foldlM Progress.step p =
      p.add n.readBack >>= fun p => more.foldlM Progress.step p
  | ⟨tag, attrs, children, text⟩, p, more => by
    cases hwhole : (children.isEmpty && text.isNone) with
    | true =>
      rw [tokens, if_pos hwhole]
      rw [Bool.and_eq_true, List.isEmpty_iff, Option.isNone_iff_eq_none] at hwhole
      obtain ⟨rfl, rfl⟩ := hwhole
      rfl
    | false =>
      have hinside (outer : List OpenElement) :
          (textTokens tag text ++ (tokensAll children ++ .stop tag :: more)).foldlM Progress.step
              (.inside { tag, attrs } outer) =
            (Progress.outside outer).add (readBack ⟨tag, attrs, children, text⟩) >>=
              fun p => more.foldlM Progress.step p := by
        rw [foldlM_textTokens, foldlM_tokensAll children, ← close_write hwhole, List.foldlM_cons]
        show (if tag = tag then _ else none) >>= _ = _
        rw [if_pos rfl]
        rfl
      rw [tokens, hwhole, if_neg Bool.false_ne_true]
      simp only [List.cons_append, List.append_assoc, List.nil_append, List.foldlM_cons]
      cases p with
      | before => exact hinside []
      | inside e outer => exact hinside (e :: outer)
      | done root => rfl

theorem foldlM_tokensAll : ∀ (nodes : List Node) (e : OpenElement) (outer : List OpenElement)
    (more : List Token),
    (tokensAll nodes ++ more).foldlM Progress.step (.inside e outer) =
      more.foldlM Progress.step
        (.inside { e with children := e.children ++ readBackAll nodes } outer)
  | [], e, outer, more => by
    rw [readBackAll, List.append_nil]
    rfl
  | n :: rest, e, outer, more => by
    rw [tokensAll, List.append_assoc, foldlM_tokens n]
    show (tokensAll rest ++ more).foldlM Progress.step (.inside (e.push n.readBack) outer) = _
    rw [foldlM_tokensAll rest, readBackAll, OpenElement.push]
    simp only [List.append_assoc, List.singleton_append]

end

end Node

/-- **Markup determines the tree.** -/
theorem Markup.read_text {n : Node} (h : n.Every Node.Writable) (depth : Nat) :
    read? (text n false depth).toList = some n.readBack := by
  have htokens : tokens? (text n false depth).toList = some n.tokens := by
    have hchars := tokens?_chars h depth []
    rw [List.append_nil, tokens?, Option.map_some, List.append_nil] at hchars
    rw [text, String.toList_join]
    exact hchars
  have htree := n.foldlM_tokens .before []
  rw [List.append_nil] at htree
  rw [read?, htokens]
  show (n.tokens.foldlM Progress.step .before >>= fun p => p.root?) = _
  rw [htree]
  rfl

/-- Markup in an attribute, in a text and in a style sheet stays what it is. -/
theorem Markup.read_text_of_markup :
    let tree (title shown : String) (text : Option String) : Node :=
      ⟨"svg", [("title", title)],
        [⟨"style", [], [], some "</style>]]"⟩, ⟨"text", [], [], some shown⟩, ⟨"g", [], [], some ""⟩],
        text⟩
    let n := tree "\"/><b a=\"" "</text>]]>\x01&lt;" (some "\x02")
    n.Every Node.Writable ∧
      read? (text n).toList = some (tree "\"/><b a=\"" "</text>]]>&lt;" none) := by
  intro tree n
  have hleaf (tag s : String) (htag : isName tag = true)
      (hs : ¬[']', ']', '>'] <:+: s.toList ∨ tag ≠ "style") :
      Node.Every Node.Writable ⟨tag, [], [], some s⟩ := by
    refine .mk ⟨htag, fun _ hname => absurd hname List.not_mem_nil, List.nodup_nil, ?_⟩
      fun _ hc => absurd hc List.not_mem_nil
    rintro hstyle _ ⟨⟩
    exact hs.resolve_right fun h => h hstyle
  have hn : n.Every Node.Writable := by
    refine .mk ⟨by decide +kernel, ?_, List.nodup_singleton _, fun h => absurd h (by decide)⟩ ?_
    · exact List.forall_mem_singleton.2 (by decide +kernel)
    · exact List.forall_mem_cons.2 ⟨hleaf _ _ (by decide +kernel) (.inl (by decide +kernel)),
        List.forall_mem_cons.2 ⟨hleaf _ _ (by decide +kernel) (.inr (by decide)),
          List.forall_mem_singleton.2 (hleaf _ _ (by decide +kernel) (.inr (by decide)))⟩⟩
  refine ⟨hn, (read_text hn 0).trans ?_⟩
  rfl

end PageSvg
