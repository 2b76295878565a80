import Mathlib.Data.List.Forall2
import PageSvg.Proofs.Layout.Joining

/-!
# Runs of text

Text is laid out by moving to positions and adding runs. Beside the layout a log is kept of the runs
that have characters: where each was positioned, the gap since the run before, and the number of its
paragraph. The paragraphs are made of the runs of the log: the runs of a paragraph follow each other
from its place, each after its gap, and its spans hold their texts, their widths and what is left of
the gaps as space before the first character.
-/

namespace PageSvg

attribute [local instance] Scalar.real

attribute [local instance (high)] Zero.toOfNat0 One.toOfNat1 instOfNatAtLeastTwo
  DivInvMonoid.toDiv

/-- What text is laid out by. -/
inductive TextCall
  | position (m : Matrix ℝ)
  | run (text : String) (width : ℝ) (style : TextStyle ℝ)

/-- Lays text out further. -/
noncomputable def TextCall.apply (o : Options ℝ) (t : TextLayout ℝ) : TextCall → TextLayout ℝ
  | position m => t.position o m
  | run text width style => t.addText o text width style

/-- A run of text that has characters. -/
structure Run where
  /-- The number of its paragraph. -/
  paragraph : ℕ
  text : String
  width : ℝ
  style : TextStyle ℝ
  /-- Where it was positioned, or where the run before it ended. -/
  start : ℝ
  /-- The distance that has come together since the run before it. -/
  gap : ℝ

namespace Run

variable (o : Options ℝ) (r : Run)

/-- What is dropped of the gap: all of it if it is only kerning, and nothing otherwise. -/
noncomputable def dropped : ℝ :=
  if |r.gap| < max (o.mergeSpaceEm * r.style.size) o.minSpacePx then r.gap else 0

/-- What is kept of the gap. -/
noncomputable def kept : ℝ := TextLayout.leadingSpace o r.gap r.style

/-- The extra spaces before the characters. -/
noncomputable def spaces : List ℝ := r.kept o :: List.replicate (r.text.length - 1) 0

theorem kept_eq : r.kept o = r.gap - r.dropped o := by
  unfold kept dropped TextLayout.leadingSpace
  rw [Scalar.abs_real, Scalar.max_real, Scalar.zero_real]
  dsimp only
  split_ifs
  · rw [sub_self]
  · rw [sub_zero]

/-- Without thresholds nothing is dropped. -/
theorem dropped_eq_zero (hem : o.mergeSpaceEm = 0) (hpx : o.minSpacePx = 0) : r.dropped o = 0 := by
  unfold dropped
  rw [hem, hpx, zero_mul, max_self]
  exact if_neg (abs_nonneg r.gap).not_gt

theorem sum_spaces : (r.spaces o).sum = r.kept o := by
  rw [spaces, List.sum_cons, List.sum_replicate, smul_zero, add_zero]

theorem length_spaces (h : r.text ≠ "") : (r.spaces o).length = r.text.toList.length := by
  have hpos : r.text.length ≠ 0 := fun h0 => h (String.length_eq_zero_iff.1 h0)
  rw [spaces, List.length_cons, List.length_replicate, String.length_toList]
  omega

end Run

/-- Runs follow each other from a place: each begins where the one before ended, after its gap. -/
def RunsFrom (x : ℝ) : List Run → Prop
  | [] => True
  | r :: rest => r.start = x + r.gap ∧ RunsFrom (r.start + r.width) rest

/-- Where the last of some runs from a place ends. -/
noncomputable def runsEnd (x : ℝ) : List Run → ℝ
  | [] => x
  | r :: rest => runsEnd (r.start + r.width) rest

theorem runsFrom_append_singleton {x : ℝ} {rs : List Run} {r : Run} (h : RunsFrom x rs)
    (hr : r.start = runsEnd x rs + r.gap) : RunsFrom x (rs ++ [r]) := by
  induction rs generalizing x with
  | nil => exact ⟨hr, trivial⟩
  | cons s rest ih => exact ⟨h.1, ih h.2 hr⟩

theorem runsEnd_append_singleton (x : ℝ) (rs : List Run) (r : Run) :
    runsEnd x (rs ++ [r]) = r.start + r.width := by
  induction rs generalizing x with
  | nil => rfl
  | cons s rest ih => exact ih _

/-! ### Spans and paragraphs -/

/-- A span is made of runs. -/
structure Span.MadeOf (o : Options ℝ) (s : Span ℝ) (rs : List Run) : Prop where
  nonempty : rs ≠ []
  text : s.text.toList = rs.flatMap (·.text.toList)
  width : s.width = (rs.map (·.width)).sum
  spaces : s.spaces = rs.flatMap (·.spaces o)
  mode : ∀ r ∈ rs, r.style.mode = s.style.mode

/-- A paragraph is made of runs: its spans are made of groups of them, and they follow each other
from its place. -/
structure Paragraph.MadeOf (o : Options ℝ) (p : Paragraph ℝ) (rs : List Run) : Prop where
  glyphs : p.glyphs? = none
  spans : ∃ groups, List.Forall₂ (Span.MadeOf o) p.recent groups ∧ groups.reverse.flatten = rs
  follow : RunsFrom p.x rs
  texts : ∀ r ∈ rs, r.text ≠ ""

/-- A run joins the last span of a paragraph or becomes a span of its own. -/
theorem exists_madeOf_addSpan {o : Options ℝ} {spans : List (Span ℝ)} {groups : List (List Run)}
    (h : List.Forall₂ (Span.MadeOf o) spans groups) (r : Run) :
    ∃ groups', List.Forall₂ (Span.MadeOf o)
        (TextLayout.addSpan spans r.text r.width (r.kept o) r.style) groups' ∧
      groups'.reverse.flatten = groups.reverse.flatten ++ [r] := by
  by_cases hnew : ∀ last ∈ spans.head?, ¬(last.style == r.style) = true
  · rw [TextLayout.addSpan_of_new hnew]
    refine ⟨[r] :: groups, .cons ⟨List.cons_ne_nil _ _, ?_, ?_, ?_, ?_⟩ h, ?_⟩
    · exact (List.flatMap_singleton ..).symm
    · exact (List.sum_singleton).symm
    · exact (List.flatMap_singleton ..).symm
    · exact List.forall_mem_singleton.2 rfl
    · rw [List.reverse_cons, List.flatten_append, List.flatten_singleton]
  · push Not at hnew
    obtain ⟨last, hlast, hstyle⟩ := hnew
    obtain ⟨rest, rfl⟩ := List.head?_eq_some_iff.1 hlast
    obtain ⟨g, gs, hg, hgs, rfl⟩ := List.forall₂_cons_left_iff.1 h
    rw [TextLayout.addSpan_of_beq hstyle]
    refine ⟨(g ++ [r]) :: gs, .cons ⟨?_, ?_, ?_, ?_, ?_⟩ hgs, ?_⟩
    · exact List.append_ne_nil_of_left_ne_nil hg.nonempty _
    · show (last.text ++ r.text).toList = _
      rw [String.toList_append, hg.text, List.flatMap_append, List.flatMap_singleton]
    · show last.width + r.width = _
      rw [hg.width, List.map_append, List.sum_append]
      exact congrArg _ List.sum_singleton.symm
    · show last.spaces ++ r.spaces o = _
      rw [hg.spaces, List.flatMap_append, List.flatMap_singleton]
    · intro s hs
      rcases List.mem_append.1 hs with hs | hs
      · exact hg.mode s hs
      · rw [List.mem_singleton.1 hs]
        exact (TextLayout.TextStyle.mode_eq_of_beq hstyle).symm
    · rw [List.reverse_cons, List.reverse_cons, List.flatten_append, List.flatten_append,
        List.flatten_singleton, List.flatten_singleton, List.append_assoc]

/-! ### The log -/

/-- A layout with the log of its runs. -/
structure History where
  layout : TextLayout ℝ := .empty
  /-- The last position, or the end of the last run after it. -/
  here : ℝ := 0
  runs : List Run := []

namespace History

variable (o : Options ℝ) (h : History)

/-- The runs of a paragraph. -/
def of (k : ℕ) : List Run := h.runs.filter (·.paragraph = k)

/-- What a call adds. -/
noncomputable def after (call : TextCall) : History :=
  let layout := call.apply o h.layout
  match call with
  | .position m => { h with layout, here := m.splitPlacement.x }
  | .run text width style =>
    if text = "" then { h with layout }
    else
      { layout
        here := h.here + width
        runs := h.runs ++
          [⟨layout.recent.length - 1, text, width, style, h.here, h.layout.pending⟩] }

end History

/-- The layout of some calls with the log of its runs. -/
noncomputable def history (o : Options ℝ) (calls : List TextCall) : History :=
  calls.foldl (History.after o) {}

theorem history_concat (o : Options ℝ) (calls : List TextCall) (call : TextCall) :
    history o (calls ++ [call]) = (history o calls).after o call := by
  unfold history
  rw [List.foldl_append]
  rfl

/-- The log does not change how text is laid out. -/
theorem layout_history (o : Options ℝ) (calls : List TextCall) :
    (history o calls).layout = calls.foldl (TextCall.apply o) .empty := by
  induction calls using List.reverseRecOn with
  | nil => rfl
  | append_singleton calls call ih =>
    rw [history_concat, List.foldl_append, ← ih]
    cases call with
    | position m => rfl
    | run text width style =>
      unfold History.after
      dsimp only
      split_ifs <;> rfl

/-! ### What the log says -/

namespace History

/-- The paragraphs are made of the runs of the log. -/
structure Accounts (o : Options ℝ) (h : History) : Prop where
  cursor : h.layout.cursor = h.here
  /-- Where no line is open, nothing has been laid out. -/
  fresh : h.layout.line = none → h.layout = .empty ∧ h.here = 0
  opened : h.layout.recent = [] → h.layout.line = none
  paragraph : ∀ r ∈ h.runs, r.paragraph < h.layout.recent.length
  made : ∀ (k : ℕ) p, h.layout.paragraphs[k]? = some p → p.MadeOf o (h.of k)
  /-- What has come together since the last run is the way from its end. -/
  gap : ∀ p rest, h.layout.recent = p :: rest →
    h.here = runsEnd p.x (h.of rest.length) + h.layout.pending

variable {o : Options ℝ} {h : History}

theorem accounts_empty (o : Options ℝ) : Accounts o {} where
  cursor := Scalar.zero_real
  fresh _ := ⟨rfl, rfl⟩
  opened _ := rfl
  paragraph _ hr := absurd hr List.not_mem_nil
  made k p hp := by cases hp
  gap p rest hrecent := by cases hrecent

/-- A paragraph that has not begun has no runs. -/
theorem Accounts.of_length (ha : h.Accounts o) : h.of h.layout.recent.length = [] := by
  refine List.filter_eq_nil_iff.2 fun r hr heq => ?_
  exact absurd (of_decide_eq_true heq) (ha.paragraph r hr).ne

/-- A new paragraph is the last one. -/
theorem getElem?_paragraphs_cons {recent : List (Paragraph ℝ)} {p q : Paragraph ℝ} {k : ℕ}
    (h : (q :: recent).reverse[k]? = some p) :
    recent.reverse[k]? = some p ∧ k < recent.length ∨ k = recent.length ∧ p = q := by
  rw [List.reverse_cons] at h
  rcases lt_trichotomy k recent.length with hk | hk | hk
  · rw [List.getElem?_append_left (by rwa [List.length_reverse])] at h
    exact .inl ⟨h, hk⟩
  · rw [hk, ← List.length_reverse, List.getElem?_concat_length] at h
    exact .inr ⟨hk, (Option.some.inj h).symm⟩
  · rw [List.getElem?_eq_none (by simpa using hk)] at h
    cases h

theorem accounts_position (ha : h.Accounts o) (m : Matrix ℝ) :
    (h.after o (.position m)).Accounts o := by
  unfold after TextCall.apply TextLayout.position
  dsimp only
  split
  · next hgoes =>
    simp only [Bool.and_eq_true, Option.any_eq_true] at hgoes
    obtain ⟨⟨⟨line, hline, -⟩, -⟩, -⟩ := hgoes
    refine ⟨rfl, fun hnone => ?_, ha.opened, ha.paragraph, ha.made, fun p rest hrecent => ?_⟩
    · exact absurd (hline.symm.trans hnone) (Option.some_ne_none line)
    · have hgap := ha.gap p rest hrecent
      have hcursor := ha.cursor
      show m.splitPlacement.x = runsEnd p.x (h.of rest.length) +
        (h.layout.pending + (m.splitPlacement.x - h.layout.cursor))
      linarith only [hgap, hcursor]
  · refine ⟨rfl, fun hnone => absurd hnone (Option.some_ne_none _),
      fun hempty => absurd hempty (List.cons_ne_nil _ _),
      fun r hr => Nat.lt_succ_of_lt (ha.paragraph r hr), fun k p hp => ?_, fun p rest hrecent => ?_⟩
    · rcases getElem?_paragraphs_cons hp with ⟨hold, -⟩ | ⟨rfl, rfl⟩
      · exact ha.made k p hold
      · show Paragraph.MadeOf o _ (h.of h.layout.recent.length)
        rw [ha.of_length]
        exact ⟨rfl, ⟨[], .nil, rfl⟩, trivial, fun _ hr => absurd hr List.not_mem_nil⟩
    · obtain ⟨rfl, rfl⟩ := List.cons.inj hrecent
      show m.splitPlacement.x = runsEnd m.splitPlacement.x (h.of h.layout.recent.length) + _
      rw [ha.of_length, Scalar.zero_real]
      exact (add_zero _).symm

/-- The runs of a paragraph after one more. -/
theorem of_append (h : History) (r : Run) (k : ℕ) :
    { h with runs := h.runs ++ [r] }.of k = h.of k ++ if r.paragraph = k then [r] else [] := by
  unfold of
  rw [List.filter_append, List.filter_singleton]
  by_cases hk : r.paragraph = k
  · rw [if_pos hk, decide_eq_true hk]
    rfl
  · rw [if_neg hk, decide_eq_false hk]
    rfl

/-- What a run adds to a line. -/
theorem after_run_eq (o : Options ℝ) {p : Paragraph ℝ} {rest : List (Paragraph ℝ)} {line : Line ℝ}
    {cursor pending here : ℝ} {runs : List Run} {text : String} (htext : text ≠ "") (width : ℝ)
    (style : TextStyle ℝ) :
    History.after o ⟨⟨p :: rest, some line, cursor, pending⟩, here, runs⟩ (.run text width style) =
      let r : Run := ⟨rest.length, text, width, style, here, pending⟩
      let p' := { p with recent := TextLayout.addSpan p.recent text width (r.kept o) style }
      ⟨⟨p' :: rest, some line, cursor + width, 0⟩, here + width, runs ++ [r]⟩ := by
  unfold after TextCall.apply
  dsimp only
  rw [if_neg htext, TextLayout.addText_eq rfl htext]
  rfl

theorem accounts_run (ha : h.Accounts o) (hline : h.layout.line.isSome = true) (text : String)
    (width : ℝ) (style : TextStyle ℝ) : (h.after o (.run text width style)).Accounts o := by
  by_cases htext : text = ""
  · have hsame : h.after o (.run text width style) = h := by
      unfold after TextCall.apply
      dsimp only
      rw [if_pos htext, htext, TextLayout.addText_empty hline]
    rwa [hsame]
  obtain ⟨⟨recent, line, cursor, pending⟩, here, runs⟩ := h
  obtain ⟨line, rfl⟩ := Option.isSome_iff_exists.1 hline
  rcases recent with _ | ⟨last, rest⟩
  · cases ha.opened rfl
  have hlast : (last :: rest).reverse[rest.length]? = some last := by
    rw [List.reverse_cons, ← List.length_reverse, List.getElem?_concat_length]
  obtain ⟨hglyphs, ⟨groups, hgroups, hruns⟩, hfollow, htexts⟩ := ha.made _ _ hlast
  rw [after_run_eq o htext]
  let r : Run := ⟨rest.length, text, width, style, here, pending⟩
  let h : History := ⟨⟨last :: rest, some line, cursor, pending⟩, here, runs⟩
  have hof (k : ℕ) : { h with runs := runs ++ [r] }.of k =
      h.of k ++ if rest.length = k then [r] else [] := of_append h r k
  have hall : { h with runs := runs ++ [r] }.of rest.length = h.of rest.length ++ [r] := by
    rw [hof, if_pos rfl]
  have hgap : here = runsEnd last.x (h.of rest.length) + pending := ha.gap _ _ rfl
  refine ⟨congrArg (· + width) ha.cursor, fun hnone => ?_, fun hempty => ?_, fun s hs => ?_,
    fun k p hp => ?_, fun p tail hrecent => ?_⟩
  · cases hnone
  · cases hempty
  · rcases List.mem_append.1 hs with hs | hs
    · exact ha.paragraph s hs
    · rw [List.mem_singleton.1 hs]
      exact Nat.lt_succ_self rest.length
  · show p.MadeOf o ({ h with runs := runs ++ [r] }.of k)
    rcases getElem?_paragraphs_cons hp with ⟨hold, hk⟩ | ⟨rfl, rfl⟩
    · rw [hof, if_neg hk.ne', List.append_nil]
      refine ha.made k p ?_
      unfold TextLayout.paragraphs
      rw [List.reverse_cons, List.getElem?_append_left (by rwa [List.length_reverse])]
      exact hold
    · rw [hall]
      obtain ⟨groups', hgroups', hruns'⟩ := exists_madeOf_addSpan hgroups r
      refine ⟨hglyphs, ⟨groups', hgroups', hruns'.trans (by rw [hruns])⟩,
        runsFrom_append_singleton hfollow hgap, fun s hs => ?_⟩
      rcases List.mem_append.1 hs with hs | hs
      · exact htexts s hs
      · rwa [List.mem_singleton.1 hs]
  · obtain ⟨rfl, rfl⟩ := List.cons.inj hrecent
    show here + width = runsEnd last.x ({ h with runs := runs ++ [r] }.of rest.length) + 0
    rw [hall, runsEnd_append_singleton, add_zero]

/-- Where nothing has been laid out a run begins at the position of the identity. -/
theorem after_run_of_fresh (ha : h.Accounts o) (hline : h.layout.line = none) (text : String)
    (width : ℝ) (style : TextStyle ℝ) :
    h.after o (.run text width style) =
      (h.after o (.position .identity)).after o (.run text width style) := by
  obtain ⟨t, here, runs⟩ := h
  obtain ⟨rfl, rfl⟩ := ha.fresh hline
  have hpending : (TextLayout.empty.position o .identity).pending = TextLayout.empty.pending := rfl
  unfold after TextCall.apply
  dsimp only
  rw [TextLayout.addText_of_line_eq_none hline, Matrix.splitPlacement_identity, hpending]

end History

/-- **The log accounts for the layout**, whatever the calls. -/
theorem accounts_history (o : Options ℝ) (calls : List TextCall) :
    (history o calls).Accounts o := by
  induction calls using List.reverseRecOn with
  | nil => exact History.accounts_empty o
  | append_singleton calls call ih =>
    rw [history_concat]
    cases call with
    | position m => exact History.accounts_position ih m
    | run text width style =>
      cases hline : (history o calls).layout.line with
      | none =>
        rw [History.after_run_of_fresh ih hline]
        exact History.accounts_run (History.accounts_position ih _)
          (TextLayout.isSome_line_position o _ _) text width style
      | some line => exact History.accounts_run ih (by rw [hline]; rfl) text width style

end PageSvg
