import Mathlib.Data.List.GetD
import PageSvg.Proofs.Layout.ExactElement
import PageSvg.Proofs.Number.Written

/-!
# The marks of characters

The attributes of an element of text say where its characters stand: `x` places the first one, and
each of the decimals in `dx` moves one character from where it would stand otherwise; where there
are no more of them, characters are not moved. Elements are read back in this way. They say what the
exact elements say which they are written from, with every number rounded.
-/

namespace PageSvg

/-- What is said about the place of a character. -/
structure Mark (κ : Type) where
  /-- The place, unless the character follows the one before. -/
  x : Option κ
  dx : κ

namespace Mark

section Marks

variable {κ : Type} [Zero κ]

/-- The marks of the characters of a text, the first of which may be placed. -/
def row (x : Option κ) (offsets : List κ) (length : ℕ) : List (Mark κ) :=
  (List.range length).map fun i => ⟨if i = 0 then x else none, offsets.getD i 0⟩

/-- Marks of which the first one has a place, unless it has its own. -/
def startingAt (x : Option κ) : List (Mark κ) → List (Mark κ)
  | [] => []
  | first :: rest => ⟨first.x.or x, first.dx⟩ :: rest

theorem startingAt_row (x y : Option κ) (offsets : List κ) (length : ℕ) :
    startingAt x (row y offsets length) = row (y.or x) offsets length := by
  cases length with
  | zero => rfl
  | succ n =>
    unfold row
    rw [List.range_succ_eq_map, List.map_cons, List.map_cons, List.map_map, List.map_map]
    rfl

end Marks

end Mark

/-! ### Reading -/

namespace Node

/-- The place that an attribute says. -/
def place? : Option String → Option (Option ℚ)
  | none => some none
  | some text => (Decimal.read? text.toList).map some

/-- The offsets that an attribute says: decimals with a space between any two. -/
def offsets? : Option String → Option (List ℚ)
  | none => some []
  | some text => (text.toList.splitOn ' ').mapM Decimal.read?

/-- The marks of the characters in the text of an element, without its parts. -/
def ownMarks? (n : Node) : Option (List (Mark ℚ)) := do
  let x ← place? (n.get? "x")
  let dx ← offsets? (n.get? "dx")
  return Mark.row x dx (n.text.getD "").length

/-- The marks of the characters of a part. -/
def partMarks? (n : Node) : Option (List (Mark ℚ)) :=
  if n.tag == "tspan" && n.children.isEmpty then n.ownMarks? else none

/-- The marks of the characters of an element of text: the place of the element is that of the first
character, unless its part has its own. -/
def marks? (n : Node) : Option (List (Mark ℚ)) :=
  if n.tag == "text" then do
    let x ← place? (n.get? "x")
    let own ← n.ownMarks?
    let parts ← n.children.mapM partMarks?
    return Mark.startingAt x (own ++ parts.flatten)
  else none

end Node

/-! ### Exact marks -/

attribute [local instance] Scalar.real

attribute [local instance (high)] Zero.toOfNat0 One.toOfNat1 instOfNatAtLeastTwo
  DivInvMonoid.toDiv

/-- The mark as it is written. -/
noncomputable def Mark.written (o : Options ℝ) (m : Mark ℝ) : Mark ℚ :=
  ⟨m.x.map o.written, o.written m.dx⟩

namespace Layout

/-- The marks of the characters. -/
def Placing.marks (piece : Placing ℝ) : List (Mark ℝ) :=
  Mark.row piece.x piece.offsets piece.span.text.length

/-- The marks of the characters of an element. -/
def TextElement.marks (e : TextElement ℝ) : List (Mark ℝ) :=
  Mark.startingAt (some e.x) (e.pieces.flatMap Placing.marks)

end Layout

section Rounding

variable (o : Options ℝ)

theorem Mark.map_written_row {offsets : List ℝ} {read : List ℚ}
    (h : ∀ i, read.getD i 0 = o.written (offsets.getD i 0)) (x : Option ℝ) (length : ℕ) :
    (row x offsets length).map (written o) = row (x.map o.written) read length := by
  unfold row
  rw [List.map_map]
  refine List.map_congr_left fun i _ => ?_
  rw [Function.comp_apply, written, h i]
  split
  · rfl
  · rfl

theorem Mark.map_written_startingAt (x : Option ℝ) (marks : List (Mark ℝ)) :
    (startingAt x marks).map (written o) = startingAt (x.map o.written) (marks.map (written o)) := by
  cases marks with
  | nil => rfl
  | cons first rest =>
    rw [startingAt, List.map_cons, List.map_cons, startingAt, written, Option.map_or]
    rfl

/-! ### Numbers read back -/

theorem Node.place?_text (x : Option ℝ) :
    place? (x.map o.text) = some (x.map o.written) := by
  cases x with
  | none => rfl
  | some x =>
    rw [Option.map_some, place?, o.read?_text]
    rfl

/-- What is left out at the end is written as zero. -/
theorem Layout.offsets?_eq (spaces : List ℝ) :
    ∃ kept dropped, spaces = kept ++ dropped ∧ (∀ x ∈ dropped, o.text x = "0") ∧
      offsets? o spaces =
        if kept.isEmpty then none else some (String.intercalate " " (kept.map o.text)) := by
  let isZero (x : ℝ) : Bool := o.text x == "0"
  refine ⟨(spaces.reverse.dropWhile isZero).reverse, (spaces.reverse.takeWhile isZero).reverse,
    ?_, fun x hx => ?_, ?_⟩
  · rw [← List.reverse_append, List.takeWhile_append_dropWhile, List.reverse_reverse]
  · have hzero : isZero x = true := List.mem_takeWhile_imp (List.mem_reverse.1 hx)
    exact eq_of_beq hzero
  · unfold offsets?
    rw [← List.map_reverse, List.dropWhile_map, ← List.map_reverse]
    dsimp only
    rw [List.isEmpty_map]
    rfl

theorem Options.written_of_text {x : ℝ} (h : o.text x = "0") : o.written x = 0 := by
  have hread := o.read?_text x
  have hzero : Decimal.magnitude? ['0'] = some ((Nat.ofDigitChars 10 ['0'] 0 : ℕ) : ℚ) :=
    Decimal.magnitude?_digits (List.cons_ne_nil '0' []) (List.forall_mem_singleton.2 rfl)
  rw [h] at hread
  exact Option.some.inj (hread.symm.trans (hzero.trans (congrArg some Nat.cast_zero)))

theorem Decimal.mapM_read?_texts (kept : List ℝ) :
    ((kept.map o.text).map String.toList).mapM read? = some (kept.map o.written) := by
  induction kept with
  | nil => rfl
  | cons x rest ih =>
    rw [List.map_cons, List.map_cons, List.mapM_cons, o.read?_text, ih]
    rfl

/-- **The offsets of characters read as what they are rounded to**, and those left out as zero. -/
theorem Node.exists_offsets? (spaces : List ℝ) :
    ∃ read, Node.offsets? (Layout.offsets? o spaces) = some read ∧
      ∀ i, read.getD i 0 = o.written (spaces.getD i 0) := by
  obtain ⟨kept, dropped, rfl, hdropped, hoffsets⟩ := Layout.offsets?_eq o spaces
  refine ⟨kept.map o.written, ?_, fun i => ?_⟩
  · rw [hoffsets]
    split
    · next hempty => rw [List.isEmpty_iff.1 hempty, List.map_nil, offsets?]
    · next hsome =>
      have hspace : ∀ text ∈ (kept.map o.text).map String.toList, ' ' ∉ text := by
        intro text htext
        rw [List.map_map] at htext
        obtain ⟨x, _, rfl⟩ := List.mem_map.1 htext
        exact Decimal.space_not_mem (o.read?_text x)
      have hne : (kept.map o.text).map String.toList ≠ [] := by simpa using hsome
      rw [offsets?, String.toList_intercalate]
      show (List.splitOn ' ' ([' '].intercalate _)).mapM _ = _
      rw [List.splitOn_intercalate ' ' hspace hne, Decimal.mapM_read?_texts]
  · have hzero : o.written 0 = 0 := o.written_zero
    by_cases hi : i < kept.length
    · rw [List.getD_append _ _ _ _ hi, ← List.getD_map (f := o.written), hzero]
    · rw [List.getD_append_right _ _ _ _ (not_lt.1 hi),
        List.getD_eq_default _ _ (by simpa using hi)]
      by_cases hrest : i - kept.length < dropped.length
      · rw [List.getD_eq_getElem _ _ hrest]
        exact (o.written_of_text (hdropped _ (List.getElem_mem hrest))).symm
      · rw [List.getD_eq_default _ _ (not_lt.1 hrest), hzero]

/-! ### Elements read back -/

/-- An element with written attributes reads as its marks. -/
theorem Node.ownMarks?_of_attrs {n : Node} {piece : Layout.Placing ℝ} {x : Option ℝ}
    (hx : n.get? "x" = x.map o.text) (hdx : n.get? "dx" = Layout.offsets? o piece.offsets)
    (htext : n.text = some piece.span.text) :
    n.ownMarks? =
      some ((Mark.row x piece.offsets piece.span.text.length).map (Mark.written o)) := by
  obtain ⟨read, hread, hoffsets⟩ := exists_offsets? o piece.offsets
  rw [ownMarks?, hx, hdx, htext, place?_text, hread, Mark.map_written_row o hoffsets]
  rfl

/-- What is read off things that are written one after the other. -/
theorem mapM_fst_run {σ β γ δ : Type} {f : β → StateM σ γ} {read? : γ → Option δ}
    {value : β → δ} {items : List β} (h : ∀ b ∈ items, ∀ s, read? ((f b).run s).1 = some (value b))
    (s : σ) : ((items.mapM f).run s).1.mapM read? = some (items.map value) := by
  induction items generalizing s with
  | nil => rfl
  | cons b rest ih =>
    obtain ⟨hb, hrest⟩ := List.forall_mem_cons.1 h
    rw [List.mapM_cons]
    show (((f b).run s).1 :: ((rest.mapM f).run ((f b).run s).2).1).mapM read? = _
    rw [List.mapM_cons, hb, ih hrest]
    rfl

namespace Layout

variable (p : Paragraph ℝ) (part : TextPart) (d : Definitions)

theorem partMarks?_writePart (piece : Placing ℝ) :
    ((TextElement.writePart o part piece).run d).1.partMarks? =
      some (piece.marks.map (Mark.written o)) := by
  refine Node.ownMarks?_of_attrs o ?_ ?_ rfl
  · show Keyed.get? (_ ++ optional "x" _ ++ optional "dx" _) "x" = _
    cases piece.x <;> cases offsets? o piece.offsets <;> rfl
  · show Keyed.get? (_ ++ optional "x" _ ++ optional "dx" _) "dx" = _
    cases piece.x <;> cases offsets? o piece.offsets <;> rfl

/-- An element is placed by itself, and not by its only part. -/
def TextElement.Plain (e : TextElement ℝ) : Prop := ∀ piece, e.pieces = [piece] → piece.x = none

/-- An element reads as the marks of its text and of its parts. -/
theorem marks?_eq {n : Node} {x : ℝ} {own : List (Mark ℝ)} {parts : List (List (Mark ℝ))}
    (htag : n.tag = "text") (hx : n.get? "x" = some (o.text x))
    (hown : n.ownMarks? = some (own.map (Mark.written o)))
    (hparts : n.children.mapM Node.partMarks? = some (parts.map (List.map (Mark.written o)))) :
    n.marks? = some ((Mark.startingAt (some x) (own ++ parts.flatten)).map (Mark.written o)) := by
  have hplace : Node.place? (some (o.text x)) = some (some (o.written x)) :=
    Node.place?_text o (some x)
  rw [Node.marks?, htag, hx, hplace, hown, hparts, Mark.map_written_startingAt, List.map_append,
    List.map_flatten]
  rfl

/-- An element made of parts reads as their marks. -/
theorem marks?_of_parts {n : Node} {x : ℝ} (pieces : List (Placing ℝ)) (htag : n.tag = "text")
    (htext : n.text = none) (hx : n.get? "x" = some (o.text x)) (hdx : n.get? "dx" = none)
    (hchildren : n.children = ((pieces.mapM (TextElement.writePart o part)).run d).1) :
    n.marks? = some ((Mark.startingAt (some x) (pieces.flatMap Placing.marks)).map
      (Mark.written o)) := by
  have hown : n.ownMarks? = some (([] : List (Mark ℝ)).map (Mark.written o)) := by
    have hplace := Node.place?_text o (some x)
    rw [Option.map_some] at hplace
    rw [Node.ownMarks?, hx, hdx, htext, hplace]
    rfl
  have hparts := mapM_fst_run (fun piece (_ : piece ∈ pieces) d =>
    partMarks?_writePart o part d piece) d
  rw [← hchildren] at hparts
  have hmap : pieces.map (fun piece => piece.marks.map (Mark.written o)) =
      (pieces.map Placing.marks).map (List.map (Mark.written o)) := List.map_map.symm
  rw [marks?_eq o htag hx hown (hparts.trans (congrArg some hmap)), List.nil_append,
    List.flatMap_def]

/-- An element with a text of its own reads as the marks of it. -/
theorem marks?_of_text {n : Node} {x : ℝ} {piece : Placing ℝ} (hpiece : piece.x = none)
    (htag : n.tag = "text") (htext : n.text = some piece.span.text)
    (hx : n.get? "x" = some (o.text x)) (hdx : n.get? "dx" = offsets? o piece.offsets)
    (hchildren : n.children = []) :
    n.marks? = some ((Mark.startingAt (some x) ([piece].flatMap Placing.marks)).map
      (Mark.written o)) := by
  have hown := Node.ownMarks?_of_attrs o (x := some x) hx hdx htext
  have hparts : n.children.mapM Node.partMarks? =
      some (([] : List (List (Mark ℝ))).map (List.map (Mark.written o))) := by
    rw [hchildren]
    rfl
  rw [marks?_eq o htag hx hown hparts, List.flatMap_singleton, Placing.marks, hpiece,
    List.flatten_nil, List.append_nil, Mark.startingAt_row, Mark.startingAt_row]
  rfl

/-- **An element reads as its marks, rounded.** -/
theorem marks?_write {e : TextElement ℝ} (he : e.Plain) :
    ((e.write o p part).run d).1.marks? = some (e.marks.map (Mark.written o)) := by
  obtain ⟨x, pieces, stretched⟩ := e
  have hdx : Keyed.get? ([("x", o.text x), ("y", o.text p.y)] ++
      optional "transform" (transform? o p)) "dx" = none := by
    cases transform? o p <;> rfl
  rcases pieces with _ | ⟨piece, _ | ⟨second, rest⟩⟩
  · exact marks?_of_parts o part d [] rfl rfl rfl hdx rfl
  · have hpiece : piece.x = none := he piece rfl
    cases stretched with
    | true =>
      refine marks?_of_text o hpiece rfl rfl rfl ?_ rfl
      show Keyed.get? (_ ++ (_ ++ optional "transform" _) ++ optional "dx" _ ++ _) "dx" = _
      cases transform? o p <;> cases offsets? o piece.offsets <;> rfl
    | false =>
      refine marks?_of_text o hpiece rfl rfl rfl ?_ rfl
      show Keyed.get? (_ ++ optional "transform" _ ++ _ ++ optional "dx" _) "dx" = _
      cases transform? o p <;> cases offsets? o piece.offsets <;> rfl
  · exact marks?_of_parts o part d (piece :: second :: rest) rfl rfl rfl hdx rfl

theorem TextElement.plain_of_mem {spans : List (PlacedSpan ℝ)} {e : TextElement ℝ}
    (he : e ∈ ofSpans spans) : e.Plain := by
  intro piece hpieces
  cases spans with
  | nil => exact absurd he List.not_mem_nil
  | cons first rest =>
    rw [ofSpans] at he
    split at he
    · obtain ⟨s, -, rfl⟩ := List.mem_map.1 he
      obtain rfl : _ = piece := List.singleton_inj.1 hpieces
      rfl
    · obtain rfl := List.mem_singleton.1 he
      rw [← (List.cons.inj hpieces).1]

/-- **The elements of a paragraph read as the marks of its exact elements, rounded.** -/
theorem mapM_marks?_nodes (hglyphs : p.glyphs? = none) :
    ((nodes o p part).run d).1.mapM Node.marks? =
      some (((TextElement.ofSpans (selected p part)).map TextElement.marks).map
        (List.map (Mark.written o))) := by
  rw [TextElement.nodes_eq_mapM_write o p part hglyphs, List.map_map]
  exact mapM_fst_run (fun e he d =>
    marks?_write o p part d (TextElement.plain_of_mem he)) d

end Layout

end Rounding

end PageSvg
