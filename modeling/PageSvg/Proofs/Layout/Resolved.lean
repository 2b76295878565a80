import PageSvg.Proofs.Layout.Letters
import PageSvg.Proofs.Layout.Marks
import PageSvg.Proofs.Layout.Runs

/-!
# Where runs are drawn

The characters of an element are placed from left to right: each stands where it is placed or where
the one before it has ended, and is moved by its offset. With the marks that the written elements
read as, before they are rounded, each run of a paragraph begins where it was positioned, less the
gaps that were dropped as kerning up to it. This holds for the spans of every part, whether a span
is an element of its own, follows the one before, or is placed by itself after spans that are left
out.
-/

namespace PageSvg

attribute [local instance] Scalar.real

attribute [local instance (high)] Zero.toOfNat0 One.toOfNat1 instOfNatAtLeastTwo
  DivInvMonoid.toDiv

open Layout

/-- The start of a character, where the one before has ended. -/
def Mark.place (pen : ℝ) (m : Mark ℝ) : ℝ := m.x.getD pen + m.dx

/-- The starts of runs by the marks of their characters. A run advances by its width. -/
def starts (pen : ℝ) : List Run → List (Mark ℝ) → List ℝ
  | [], _ => []
  | r :: rest, marks =>
    (marks.take 1).foldl Mark.place pen ::
      starts ((marks.take r.text.length).foldl Mark.place pen + r.width) rest
        (marks.drop r.text.length)

/-! ### Runs one after the other -/

section Drawn

variable (o : Options ℝ)

/-- Runs with their starts, from a place on. -/
noncomputable def drawn (x : ℝ) : List Run → List (Run × ℝ)
  | [] => []
  | r :: rest => (r, x + r.kept o) :: drawn (x + r.kept o + r.width) rest

/-- The end of runs from a place on. -/
noncomputable def drawnEnd (x : ℝ) : List Run → ℝ
  | [] => x
  | r :: rest => drawnEnd (x + r.kept o + r.width) rest

theorem drawn_append (x : ℝ) (rs rest : List Run) :
    drawn o x (rs ++ rest) = drawn o x rs ++ drawn o (drawnEnd o x rs) rest := by
  induction rs generalizing x with
  | nil => rfl
  | cons r rs ih => exact congrArg _ (ih _)

theorem map_fst_drawn (x : ℝ) (rs : List Run) : (drawn o x rs).map (·.1) = rs := by
  induction rs generalizing x with
  | nil => rfl
  | cons r rs ih => exact congrArg _ (ih _)

theorem drawnEnd_eq (x : ℝ) (rs : List Run) :
    drawnEnd o x rs = x + ((rs.map (·.width)).sum + (rs.flatMap (·.spaces o)).sum) := by
  induction rs generalizing x with
  | nil => simp [drawnEnd]
  | cons r rs ih =>
    rw [drawnEnd, ih, List.map_cons, List.sum_cons, List.flatMap_cons, List.sum_append,
      Run.sum_spaces]
    ring

/-- Runs that follow each other are drawn where they begin, less what is dropped up to them. -/
theorem drawn_eq_mapIdx {x : ℝ} {rs : List Run} (h : RunsFrom x rs) (lost : ℝ) :
    drawn o (x - lost) rs =
      rs.mapIdx fun i r => (r, r.start - (lost + ((rs.take (i + 1)).map (·.dropped o)).sum)) := by
  induction rs generalizing x lost with
  | nil => rfl
  | cons r rest ih =>
    obtain ⟨hstart, hrest⟩ := h
    have hx : x - lost + r.kept o = r.start - (lost + r.dropped o) := by
      rw [hstart, Run.kept_eq]
      ring
    have hnext : x - lost + r.kept o + r.width = r.start + r.width - (lost + r.dropped o) := by
      rw [hx]
      ring
    rw [drawn, hnext, ih hrest, hx, List.mapIdx_cons]
    congr 1
    · rw [List.take_succ_cons, List.take_zero, List.map_singleton, List.sum_singleton]
    · congr 1
      funext i s
      rw [List.take_succ_cons, List.map_cons, List.sum_cons, add_assoc]

end Drawn

/-- Runs with their starts: where each begins, less what is dropped up to it. -/
noncomputable def settled (o : Options ℝ) (rs : List Run) : List (Run × ℝ) :=
  rs.mapIdx fun i r => (r, r.start - ((rs.take (i + 1)).map (·.dropped o)).sum)

theorem drawn_eq_settled (o : Options ℝ) {x : ℝ} {rs : List Run} (h : RunsFrom x rs) :
    drawn o x rs = settled o rs := by
  have hdrawn := drawn_eq_mapIdx o h 0
  simp only [sub_zero, zero_add] at hdrawn
  exact hdrawn

/-- Where nothing is dropped runs are drawn where they begin. -/
theorem settled_of_dropped_eq_zero {o : Options ℝ} {rs : List Run}
    (h : ∀ r ∈ rs, r.dropped o = 0) : settled o rs = rs.map fun r => (r, r.start) := by
  have hsum (i : ℕ) : ((rs.take i).map (·.dropped o)).sum = 0 :=
    List.sum_eq_zero fun d hd => by
      obtain ⟨r, hr, rfl⟩ := List.mem_map.1 hd
      exact h r (List.mem_of_mem_take hr)
  refine List.ext_getElem (by simp [settled]) fun i hi hi' => ?_
  simp only [settled, List.getElem_mapIdx, List.getElem_map, hsum, sub_zero]

/-! ### Placing one span -/

/-- The marks of characters that follow, each after its space. -/
def follow (spaces : List ℝ) : List (Mark ℝ) := spaces.map (⟨none, ·⟩)

theorem foldl_place_follow (pen : ℝ) (spaces : List ℝ) :
    (follow spaces).foldl Mark.place pen = pen + spaces.sum := by
  induction spaces generalizing pen with
  | nil => simp [follow]
  | cons space rest ih =>
    show (follow rest).foldl Mark.place (pen + space) = _
    rw [ih, List.sum_cons, add_assoc]

theorem marks_cons (piece : Placing ℝ) (htext : piece.span.text ≠ "") :
    piece.marks = ⟨piece.x, piece.offsets.getD 0 0⟩ ::
      (List.range (piece.span.text.length - 1)).map fun i =>
        ⟨none, piece.offsets.getD (i + 1) 0⟩ := by
  obtain ⟨n, hn⟩ := Nat.exists_eq_succ_of_ne_zero fun h0 => htext (String.length_eq_zero_iff.1 h0)
  rw [Placing.marks, Mark.row, hn, List.range_succ_eq_map, List.map_cons, List.map_map]
  rfl

theorem marks_eq (piece : Placing ℝ) {first : ℝ} {rest : List ℝ}
    (hoffsets : piece.offsets = first :: rest)
    (hlength : (first :: rest).length = piece.span.text.length) :
    piece.marks = ⟨piece.x, first⟩ :: follow rest := by
  have htext : piece.span.text ≠ "" := by
    intro hempty
    rw [hempty] at hlength
    cases hlength
  rw [marks_cons piece htext, hoffsets, ← hlength]
  congr 1
  refine List.ext_getElem (by simp [follow]) fun i hi hi' => ?_
  have hrest : i < rest.length := by simpa using hi
  simp [follow, hrest]

/-- Only the start of the first character matters of where the pen is. -/
theorem starts_of_place_eq {pen pen' : ℝ} {m m' : Mark ℝ} (h : m.place pen = m'.place pen')
    {rs : List Run} (htexts : ∀ r ∈ rs, r.text ≠ "") (marks : List (Mark ℝ)) :
    starts pen rs (m :: marks) = starts pen' rs (m' :: marks) := by
  cases rs with
  | nil => rfl
  | cons r rest =>
    obtain ⟨n, hn⟩ := Nat.exists_eq_succ_of_ne_zero
      fun h0 => htexts r List.mem_cons_self (String.length_eq_zero_iff.1 h0)
    unfold starts
    rw [hn]
    show m.place pen :: starts ((marks.take n).foldl Mark.place (m.place pen) + _) rest _ =
      m'.place pen' :: starts ((marks.take n).foldl Mark.place (m'.place pen') + _) rest _
    rw [h]
    rfl

/-- The runs of a span stand one after the other. -/
theorem starts_follow (o : Options ℝ) (x : ℝ) {rs : List Run} (htexts : ∀ r ∈ rs, r.text ≠ "")
    (rest : List Run) (marks : List (Mark ℝ)) :
    starts x (rs ++ rest) (follow (rs.flatMap (·.spaces o)) ++ marks) =
      (drawn o x rs).map (·.2) ++ starts (drawnEnd o x rs) rest marks := by
  induction rs generalizing x with
  | nil => rfl
  | cons r rs ih =>
    obtain ⟨htext, htexts⟩ := List.forall_mem_cons.1 htexts
    have hlength : (follow (r.spaces o)).length = r.text.length := by
      rw [follow, List.length_map, r.length_spaces o htext, String.length_toList]
    have hsplit : follow ((r :: rs).flatMap (·.spaces o)) ++ marks =
        follow (r.spaces o) ++ (follow (rs.flatMap (·.spaces o)) ++ marks) := by
      rw [List.flatMap_cons, follow, List.map_append, List.append_assoc]
      rfl
    have hend : (follow (r.spaces o)).foldl Mark.place x = x + r.kept o := by
      rw [foldl_place_follow, r.sum_spaces]
    rw [hsplit, List.cons_append, starts, List.take_left' hlength, List.drop_left' hlength, hend,
      ih _ htexts]
    rfl

namespace Span.MadeOf

variable {o : Options ℝ} {s : Span ℝ} {rs : List Run}

theorem length_spaces (h : s.MadeOf o rs) (htexts : ∀ r ∈ rs, r.text ≠ "") :
    s.spaces.length = s.text.length := by
  rw [h.spaces, ← String.length_toList, h.text, List.length_flatMap, List.length_flatMap]
  congr 1
  exact List.map_congr_left fun r hr => r.length_spaces o (htexts r hr)

theorem exists_spaces (h : s.MadeOf o rs) : ∃ first rest, s.spaces = first :: rest := by
  obtain ⟨r, rs, rfl⟩ := List.exists_cons_of_ne_nil h.nonempty
  exact ⟨r.kept o, _, h.spaces⟩

theorem text_ne_empty (h : s.MadeOf o rs) (htexts : ∀ r ∈ rs, r.text ≠ "") : s.text ≠ "" := by
  obtain ⟨first, rest, hspaces⟩ := h.exists_spaces
  intro hempty
  have hlength := h.length_spaces htexts
  rw [hspaces, hempty] at hlength
  cases hlength

theorem add_extent (h : s.MadeOf o rs) (x : ℝ) : x + s.extent = drawnEnd o x rs := by
  rw [drawnEnd_eq, Span.extent, h.width, h.spaces, Scalar.zero_real,
    ← List.sum_eq_foldl]

/-- A span that follows the one before is drawn from its end. -/
theorem starts_following (h : s.MadeOf o rs) (htexts : ∀ r ∈ rs, r.text ≠ "") (index : ℕ)
    (x place : ℝ) (rest : List Run) (marks : List (Mark ℝ)) :
    starts x (rs ++ rest) ((Placing.following ⟨index, place, s⟩).marks ++ marks) =
      (drawn o x rs).map (·.2) ++ starts (drawnEnd o x rs) rest marks := by
  obtain ⟨first, others, hspaces⟩ := h.exists_spaces
  have hmarks : (Placing.following ⟨index, place, s⟩).marks = follow (rs.flatMap (·.spaces o)) := by
    rw [← h.spaces, marks_eq _ hspaces (hspaces ▸ h.length_spaces htexts), hspaces]
    rfl
  rw [hmarks, starts_follow o x htexts]

/-- A span placed by itself is drawn as one that follows from there. -/
theorem starts_own (h : s.MadeOf o rs) (htexts : ∀ r ∈ rs, r.text ≠ "") (index : ℕ) (pen x : ℝ)
    {rest : List Run} (hrest : ∀ r ∈ rest, r.text ≠ "") (marks : List (Mark ℝ)) :
    starts pen (rs ++ rest)
        ((Placing.own ⟨index, x + s.spaces.headD 0, s⟩).marks ++ marks) =
      (drawn o x rs).map (·.2) ++ starts (drawnEnd o x rs) rest marks := by
  obtain ⟨first, others, hspaces⟩ := h.exists_spaces
  rw [← h.starts_following htexts index x 0]
  have hown : (Placing.own ⟨index, x + s.spaces.headD 0, s⟩).marks =
      ⟨some (x + first), 0⟩ :: follow others := by
    have hoffsets : (Placing.own ⟨index, x + s.spaces.headD 0, s⟩).offsets = 0 :: others := by
      show innerSpaces s.spaces = _
      rw [hspaces, innerSpaces, Scalar.zero_real]
    have hlength : (0 :: others).length = s.text.length := by
      rw [← h.length_spaces htexts, hspaces]
      rfl
    rw [marks_eq _ hoffsets hlength, Placing.own]
    dsimp only
    rw [hspaces, List.headD_cons]
  have hfollowing : (Placing.following ⟨index, 0, s⟩).marks = ⟨none, first⟩ :: follow others :=
    marks_eq _ hspaces (hspaces ▸ h.length_spaces htexts)
  rw [hown, hfollowing]
  refine starts_of_place_eq ?_ (fun r hr => ?_) (follow others ++ marks)
  · exact add_zero (x + first)
  · exact (List.mem_append.1 hr).elim (htexts r) (hrest r)

end Span.MadeOf

/-! ### Placing the spans of a part -/

/-- Placings of spans after the span with the number `last`, if any: only a span with the next
number may follow. -/
inductive Placings : Option ℕ → List (PlacedSpan ℝ) → List (Placing ℝ) → Prop
  | nil {last : Option ℕ} : Placings last [] []
  | own {last : Option ℕ} {s : PlacedSpan ℝ} {spans : List (PlacedSpan ℝ)}
      {pieces : List (Placing ℝ)} (h : Placings (some s.index) spans pieces) :
      Placings last (s :: spans) (.own s :: pieces)
  | following {last : ℕ} {s : PlacedSpan ℝ} {spans : List (PlacedSpan ℝ)}
      {pieces : List (Placing ℝ)} (hnext : s.index = last + 1)
      (h : Placings (some s.index) spans pieces) :
      Placings (some last) (s :: spans) (.following s :: pieces)

namespace Placings

theorem parts (last : ℕ) (spans : List (PlacedSpan ℝ)) :
    Placings (some last) spans (Placing.parts last spans) := by
  induction spans generalizing last with
  | nil => exact .nil
  | cons s rest ih =>
    rw [Placing.parts]
    split
    · exact .own (ih s.index)
    · next h => exact .following (by simpa using h) (ih s.index)

theorem map_own (last : Option ℕ) (spans : List (PlacedSpan ℝ)) :
    Placings last spans (spans.map .own) := by
  induction spans generalizing last with
  | nil => exact .nil
  | cons s rest ih => exact .own (ih _)

end Placings

section Part

variable (part : TextPart) {o : Options ℝ}

/-- Is a run in the part? -/
def Run.isIn (r : Run) : Bool := part.includes r.style.mode

namespace Span.MadeOf

variable {s : Span ℝ} {rs : List Run} (h : s.MadeOf o rs)

include h

theorem isIn {r : Run} (hr : r ∈ rs) : r.isIn part = part.includes s.style.mode :=
  congrArg part.includes (h.mode r hr)

/-- A part takes all runs of a span or none. -/
theorem filter_isIn :
    rs.filter (·.isIn part) = if part.includes s.style.mode then rs else [] := by
  split
  · next hin => exact List.filter_eq_self.2 fun r hr => (h.isIn part hr).trans hin
  · next hin => exact List.filter_eq_nil_iff.2 fun r hr => by rwa [h.isIn part hr]

theorem filter_drawn (x : ℝ) :
    (drawn o x rs).filter (·.1.isIn part) =
      if part.includes s.style.mode then drawn o x rs else [] := by
  have hmem {d : Run × ℝ} (hd : d ∈ drawn o x rs) : d.1 ∈ rs := by
    rw [← map_fst_drawn o x rs]
    exact List.mem_map_of_mem hd
  split
  · next hin => exact List.filter_eq_self.2 fun d hd => (h.isIn part (hmem hd)).trans hin
  · next hin => exact List.filter_eq_nil_iff.2 fun d hd => by rwa [h.isIn part (hmem hd)]

end Span.MadeOf

/-- **The selected spans are drawn as the runs they are made of.** The pen stands at the origin of
the next span when the last selected span is the one before it. -/
theorem starts_placings {spans : List (Span ℝ)} {groups : List (List Run)}
    (h : List.Forall₂ (Span.MadeOf o) spans groups) (htexts : ∀ r ∈ groups.flatten, r.text ≠ "")
    {origin pen : ℝ} {index : ℕ} {last : Option ℕ}
    (hlast : ∀ j ∈ last, j < index ∧ (j + 1 = index → pen = origin)) {pieces : List (Placing ℝ)}
    (hpieces : Placings last
      ((placeFrom origin index spans).filter fun s => part.includes s.span.style.mode) pieces) :
    starts pen (groups.flatten.filter (·.isIn part)) (pieces.flatMap Placing.marks) =
      ((drawn o origin groups.flatten).filter (·.1.isIn part)).map (·.2) := by
  induction h generalizing origin pen index last pieces with
  | nil => rfl
  | @cons s g spans groups hs _ ih =>
    obtain ⟨htexts, hothers⟩ : (∀ r ∈ g, r.text ≠ "") ∧ ∀ r ∈ groups.flatten, r.text ≠ "" :=
      List.forall_mem_append.1 htexts
    rw [List.flatten_cons, List.filter_append, drawn_append, List.filter_append, List.map_append,
      hs.filter_isIn, hs.filter_drawn]
    rw [placeFrom, hs.add_extent origin, Scalar.zero_real, List.filter_cons] at hpieces
    dsimp only at hpieces
    split_ifs at hpieces ⊢
    · have hselected : ∀ r ∈ groups.flatten.filter (·.isIn part), r.text ≠ "" :=
        fun r hr => hothers r (List.mem_of_mem_filter hr)
      -- What follows begins at the end of this span, which is the last one then.
      have hend : ∀ j ∈ some index, j < index + 1 ∧
          (j + 1 = index + 1 → drawnEnd o origin g = drawnEnd o origin g) := by
        intro j hj
        cases hj
        exact ⟨Nat.lt_succ_self index, fun _ => rfl⟩
      cases hpieces with
      | own h => rw [List.flatMap_cons, hs.starts_own htexts _ _ _ hselected, ih hothers hend h]
      | following hindex h =>
        obtain rfl := (hlast _ rfl).2 hindex.symm
        rw [List.flatMap_cons, hs.starts_following htexts, ih hothers hend h]
    · refine ih hothers (fun j hj => ⟨(hlast j hj).1.trans (Nat.lt_succ_self index), ?_⟩) hpieces
      intro hnext
      exact absurd (hlast j hj).1 (by omega)

/-- The selected spans hold the texts of the selected runs. -/
theorem flatMap_text_selected {spans : List (Span ℝ)} {groups : List (List Run)}
    (h : List.Forall₂ (Span.MadeOf o) spans groups) (origin : ℝ) (index : ℕ) :
    ((placeFrom origin index spans).filter fun s => part.includes s.span.style.mode).flatMap
        (·.span.text.toList) =
      (groups.flatten.filter (·.isIn part)).flatMap (·.text.toList) := by
  induction h generalizing origin index with
  | nil => rfl
  | @cons s g spans groups hs _ ih =>
    rw [List.flatten_cons, List.filter_append, List.flatMap_append, hs.filter_isIn, placeFrom,
      List.filter_cons]
    dsimp only
    split_ifs
    · rw [List.flatMap_cons, ih, hs.text]
    · exact ih _ _

end Part

/-! ### Elements -/

namespace Layout.TextElement

/-- The place of an element is that of its first part. -/
theorem marks_mk (s : PlacedSpan ℝ) (htext : s.span.text ≠ "") (rest : List (Placing ℝ))
    (stretched : Bool) :
    (⟨s.x, ⟨none, innerSpaces s.span.spaces, s.span⟩ :: rest, stretched⟩ : TextElement ℝ).marks =
      (Placing.own s).marks ++ rest.flatMap Placing.marks := by
  unfold marks
  rw [List.flatMap_cons, marks_cons _ htext, marks_cons _ htext]
  rfl

/-- Elements are made of placings of their spans. -/
theorem exists_placings {spans : List (PlacedSpan ℝ)} (htexts : ∀ s ∈ spans, s.span.text ≠ "") :
    ∃ pieces, Placings none spans pieces ∧
      (ofSpans spans).flatMap marks = pieces.flatMap Placing.marks := by
  cases spans with
  | nil => exact ⟨[], .nil, rfl⟩
  | cons first rest =>
    rw [ofSpans]
    split
    · refine ⟨_, .map_own none (first :: rest), ?_⟩
      rw [List.flatMap_map, List.flatMap_map]
      refine List.flatMap_congr fun s hs => ?_
      exact (marks_mk s (htexts s hs) [] true).trans (List.append_nil _)
    · refine ⟨_, .own (.parts first.index rest), ?_⟩
      rw [List.flatMap_singleton, marks_mk first (htexts first List.mem_cons_self)]
      rfl

end Layout.TextElement

/-- The spans of a paragraph have characters. -/
theorem ne_empty_of_mem {o : Options ℝ} {spans : List (Span ℝ)} {groups : List (List Run)}
    (h : List.Forall₂ (Span.MadeOf o) spans groups) (htexts : ∀ r ∈ groups.flatten, r.text ≠ "")
    {s : Span ℝ} (hs : s ∈ spans) : s.text ≠ "" := by
  induction h with
  | nil => exact absurd hs List.not_mem_nil
  | cons hmade _ ih =>
    obtain ⟨htexts, hothers⟩ := List.forall_mem_append.1 htexts
    rcases List.mem_cons.1 hs with rfl | hs
    · exact hmade.text_ne_empty htexts
    · exact ih hothers hs

namespace Paragraph.MadeOf

variable {o : Options ℝ} {p : Paragraph ℝ} {rs : List Run}

/-- The runs of a paragraph are drawn where they begin, less what is dropped up to them. -/
theorem starts_eq (h : p.MadeOf o rs) (part : TextPart) (d : Definitions) (pen : ℝ) :
    let marks := (TextElement.ofSpans (selected p part)).map TextElement.marks
    ((nodes o p part).run d).1.mapM Node.marks? = some (marks.map (List.map (Mark.written o))) ∧
      ((nodes o p part).run d).1.flatMap Node.characters =
        (rs.filter (·.isIn part)).flatMap (·.text.toList) ∧
      starts pen (rs.filter (·.isIn part)) marks.flatten =
        ((settled o rs).filter (·.1.isIn part)).map (·.2) := by
  obtain ⟨hglyphs, ⟨groups, hgroups, rfl⟩, hfollow, htexts⟩ := h
  have hmade : List.Forall₂ (Span.MadeOf o) p.spans groups.reverse :=
    List.forall₂_reverse_iff.2 hgroups
  have hspans : ∀ s ∈ selected p part, s.span.text ≠ "" := by
    intro s hs
    have hmem : s.span ∈ p.spans := by
      rw [← map_span_placeFrom p.x 0 p.spans]
      exact List.mem_map_of_mem (List.mem_of_mem_filter hs)
    exact ne_empty_of_mem hmade htexts hmem
  obtain ⟨pieces, hpieces, hmarks⟩ := TextElement.exists_placings hspans
  refine ⟨mapM_marks?_nodes o p part d hglyphs, ?_, ?_⟩
  · rw [characters_nodes o p part d hglyphs, ← flatMap_selected]
    exact flatMap_text_selected part hmade p.x 0
  · rw [← List.flatMap_def, hmarks, ← drawn_eq_settled o hfollow]
    exact starts_placings part hmade htexts (fun j hj => by cases hj) hpieces

end Paragraph.MadeOf

/-- **A run is drawn where it was positioned, except for dropped kerning.** Every run belongs to a
paragraph. The elements that are written for a part of the paragraph read as the texts of its runs
in the part, and as marks which are, before they are rounded, such that each run starts where it
begins less what is dropped up to it, resolved from left to right; without thresholds it starts
exactly where it begins. -/
theorem runs_drawn_where_positioned (o : Options ℝ) (calls : List TextCall) :
    let t := calls.foldl (TextCall.apply o) .empty
    (∀ r ∈ (history o calls).runs, ∃ p, t.paragraphs[r.paragraph]? = some p) ∧
      ∀ (k : ℕ) (p : Paragraph ℝ), t.paragraphs[k]? = some p →
        ∀ (part : TextPart) (d : Definitions) (pen : ℝ),
        let runs := (history o calls).of k
        let written := ((nodes o p part).run d).1
        let marks := (TextElement.ofSpans (selected p part)).map TextElement.marks
        written.mapM Node.marks? = some (marks.map (List.map (Mark.written o))) ∧
          written.flatMap Node.characters = (runs.filter (·.isIn part)).flatMap (·.text.toList) ∧
          starts pen (runs.filter (·.isIn part)) marks.flatten =
            ((settled o runs).filter (·.1.isIn part)).map (·.2) ∧
          (o.mergeSpaceEm = 0 → o.minSpacePx = 0 →
            starts pen (runs.filter (·.isIn part)) marks.flatten =
              (runs.filter (·.isIn part)).map (·.start)) := by
  intro t
  have hlog := accounts_history o calls
  have hlayout : (history o calls).layout = t := layout_history o calls
  refine ⟨fun r hr => ?_, fun k p hp part d pen => ?_⟩
  · have hlength : r.paragraph < t.paragraphs.length := by
      rw [← hlayout, TextLayout.paragraphs, List.length_reverse]
      exact hlog.paragraph r hr
    exact ⟨_, List.getElem?_eq_getElem hlength⟩
  · obtain ⟨hread, htext, hstarts⟩ := (hlog.made k p (by rwa [hlayout])).starts_eq part d pen
    refine ⟨hread, htext, hstarts, fun hem hpx => ?_⟩
    rw [hstarts, settled_of_dropped_eq_zero fun r _ => r.dropped_eq_zero o hem hpx]
    rw [List.filter_map, List.map_map]
    rfl

/-- Two runs on a line, with a gap between them. -/
noncomputable def gapped (style style' : TextStyle ℝ) (width gap further : ℝ) : List TextCall :=
  [.position .identity, .run "ab" width style, .position (.shift (width + gap) 0),
    .run "c" further style']

/-- Both runs are in the first paragraph if the gap is small. -/
theorem of_gapped {o : Options ℝ} {gap : ℝ} (hmerge : |gap| < o.textMergeDistance)
    (style style' : TextStyle ℝ) (width further : ℝ) :
    (history o (gapped style style' width gap further)).of 0 =
      [⟨0, "ab", width, style, 0, 0⟩, ⟨0, "c", further, style', width + gap, gap⟩] := by
  let line : Line ℝ := ⟨1, 0, .identity⟩
  have hfirst : History.after o {} (.position .identity) =
      ⟨⟨[{ x := 0, y := 0, transform := .identity }], some line, 0, 0⟩, 0, []⟩ := by
    unfold History.after TextCall.apply
    dsimp only
    rw [TextLayout.position_empty, Matrix.splitPlacement_identity]
  have hnext (spans : List (Span ℝ)) (runs : List Run) :
      let p : Paragraph ℝ := { x := 0, y := 0, transform := .identity, recent := spans }
      History.after o ⟨⟨[p], some line, width, 0⟩, width, runs⟩
          (.position (.shift (width + gap) 0)) =
        ⟨⟨[p], some line, width + gap, gap⟩, width + gap, runs⟩ := by
    intro p
    let t : TextLayout ℝ := ⟨[p], some line, width, 0⟩
    have hcontinues : t.Continues line := ⟨line.continues_self, rfl⟩
    have hgap : width + gap - width = gap := add_sub_cancel_left width gap
    have hposition : t.position o (.shift (width + gap) 0) =
        { t with pending := 0 + (width + gap - width), cursor := width + gap } :=
      hcontinues.position_of_near (Matrix.splitPlacement_shift_zero (width + gap)) (by rwa [hgap])
    rw [hgap, zero_add] at hposition
    unfold History.after TextCall.apply
    dsimp only
    rw [hposition, Matrix.splitPlacement_shift_zero]
  have hruns : (history o (gapped style style' width gap further)).runs =
      [⟨0, "ab", width, style, 0, 0⟩, ⟨0, "c", further, style', width + gap, gap⟩] := by
    simp only [history, gapped, List.foldl_cons, List.foldl_nil]
    rw [hfirst, History.after_run_eq o (by decide)]
    dsimp only
    rw [zero_add, hnext, History.after_run_eq o (by decide)]
    rfl
  rw [History.of, hruns]
  rfl

/-- A small gap is dropped, or kept where there are no thresholds. -/
theorem runs_drawn_where_positioned_gapped :
    let upright : TextStyle ℝ := ⟨"serif", false, false, 1, none, none, none, 0, 100, .fill⟩
    let calls := gapped upright { upright with bold := true } 2 (1 / 20) 1
    let coarse : Options ℝ := .standard
    let fine : Options ℝ := { coarse with mergeSpaceEm := 0, minSpacePx := 0 }
    let drawn (o : Options ℝ) (places : List ℝ) :=
      ∃ (p : Paragraph ℝ) (marks : List (List (Mark ℝ))),
        (calls.foldl (TextCall.apply o) .empty).paragraphs[0]? = some p ∧
        ((nodes o p .visible).run {}).1.mapM Node.marks? =
          some (marks.map (List.map (Mark.written o))) ∧
        starts 0 (((history o calls).of 0).filter (·.isIn .visible)) marks.flatten = places
    drawn coarse [0, 2] ∧ drawn fine [0, 2 + 1 / 20] := by
  intro upright calls coarse fine drawn
  have hmerge : |(1 / 20 : ℝ)| < coarse.textMergeDistance := by
    show |(1 / 20 : ℝ)| < ((20 : ℤ) : ℝ)
    norm_num
  let r : Run := ⟨0, "ab", 2, upright, 0, 0⟩
  let r' : Run := ⟨0, "c", 1, { upright with bold := true }, 2 + 1 / 20, 1 / 20⟩
  have hof (o : Options ℝ) (h : |1 / 20| < o.textMergeDistance) :
      (history o calls).of 0 = [r, r'] := of_gapped h ..
  have hparagraph (o : Options ℝ) (h : |1 / 20| < o.textMergeDistance) :
      ∃ p, (calls.foldl (TextCall.apply o) .empty).paragraphs[0]? = some p := by
    have hr : r ∈ (history o calls).of 0 := hof o h ▸ List.mem_cons_self
    exact (runs_drawn_where_positioned o calls).1 r (List.mem_of_mem_filter hr)
  constructor
  · obtain ⟨p, hp⟩ := hparagraph coarse hmerge
    have hdropped : r'.dropped coarse = 1 / 20 := by
      refine if_pos ?_
      show |(1 / 20 : ℝ)| < max (0.02 * 1) 0.1
      norm_num
    have hsettled : settled coarse [r, r'] = [(r, 0), (r', 2)] := by
      have hkept : r.dropped coarse = 0 := ite_self _
      have hfirst : (0 : ℝ) - (0 + 0) = 0 := by norm_num
      have hsecond : (2 + 1 / 20 : ℝ) - (0 + (1 / 20 + 0)) = 2 := by norm_num
      show [(r, 0 - (r.dropped coarse + 0)),
        (r', 2 + 1 / 20 - (r.dropped coarse + (r'.dropped coarse + 0)))] = _
      rw [hkept, hdropped, hfirst, hsecond]
    obtain ⟨hread, -, hstarts, -⟩ :=
      (runs_drawn_where_positioned coarse calls).2 0 p hp .visible {} 0
    refine ⟨p, _, hp, hread, ?_⟩
    rw [hstarts, hof coarse hmerge, hsettled]
    rfl
  · obtain ⟨p, hp⟩ := hparagraph fine hmerge
    obtain ⟨hread, -, -, hexact⟩ :=
      (runs_drawn_where_positioned fine calls).2 0 p hp .visible {} 0
    refine ⟨p, _, hp, hread, ?_⟩
    rw [hexact rfl rfl, hof fine hmerge]
    rfl

end PageSvg
