import PageSvg.Content.Scanner
import PageSvg.Proofs.Content.Lexeme

/-!
# Scanning to the end

Each call of a scanner moves it over a gap and the span of one token or fault (`next_of_lexeme`),
or, if only blanks and comments are left, to the end (`next_of_trailing`). So repeated calls come to
an end, and what they report tiles the bytes (`tiles_reports`).
-/

namespace PageSvg.Content.Scanner

variable {α : Type}

/-- A token with the position at which it begins, or a fault. -/
abbrev Report (α : Type) := Except (Fault α) (Nat × Token α)

/-- What a span that begins at `start` is reported as, where `rest` are the bytes behind it. -/
inductive Reports [Scalar α] (start : Nat) (span rest : List UInt8) : Report α → Prop
  | token {t : Token α} (h : Lexeme span rest (.ok t)) : Reports start span rest (.ok (start, t))
  | unterminated (h : Lexeme (α := α) span rest (.error .unterminated)) (hrest : rest = []) :
      Reports start span rest (.error .unterminated)
  /-- The span ends with the closing bracket behind the bad digit, or with the content. -/
  | badDigit {digits tail : List UInt8} {b : UInt8} (hspan : span = 0x3C :: (digits ++ b :: tail))
      (hdigits : ∀ d ∈ digits, IsHexByte d) (hb : ¬IsHexByte b) (hclose : b ≠ 0x3E)
      (htail : UpToClose tail rest) :
      Reports start span rest (.error (.badHexDigit (start + 1 + digits.length) b))

/-- The bytes from a position on are gaps and spans in turn, each span reported together with the
position behind it, and blanks and comments at the end. -/
inductive Tiles [Scalar α] : Nat → List UInt8 → List (Report α × Nat) → Prop
  | done {position : Nat} {bytes : List UInt8} (h : Trailing bytes) : Tiles position bytes []
  | next {position : Nat} {gap span rest : List UInt8} {r : Report α}
      {reports : List (Report α × Nat)} (hgap : Gap gap) (hne : span ≠ [])
      (hr : Reports (position + gap.length) span rest r)
      (h : Tiles (position + gap.length + span.length) rest reports) :
      Tiles position (gap ++ (span ++ rest)) ((r, position + gap.length + span.length) :: reports)

section Calls

variable [Scalar α] {s : Scanner} {gap span rest : List UInt8}

/-- Bytes at the end of what is left begin so far behind the position. -/
theorem positionOf_of_remaining {front : List UInt8} (h : s.remaining = front ++ rest)
    (hposition : s.position ≤ s.content.length) :
    s.positionOf rest = s.position + front.length := by
  have hlength := congrArg List.length h
  rw [remaining, List.length_drop, List.length_append] at hlength
  unfold positionOf
  omega

theorem remaining_of_front {front : List UInt8} (h : s.remaining = front ++ rest) :
    ({ s with position := s.position + front.length } : Scanner).remaining = rest := by
  show s.content.drop (s.position + front.length) = rest
  rw [← List.drop_drop]
  show s.remaining.drop front.length = rest
  rw [h, List.drop_left]

/-- At a gap and a lexeme, a call reports the lexeme and moves behind it. -/
theorem next_of_lexeme {result : Except Defect (Token α)}
    (hposition : s.position ≤ s.content.length) (hbytes : s.remaining = gap ++ (span ++ rest))
    (hgap : Gap gap) (hspan : Lexeme span rest result) :
    ∃ r : Report α, Reports (s.position + gap.length) span rest r ∧
      s.next = (some r, { s with position := s.position + gap.length + span.length }) := by
  have hnext : next? s.remaining = some ⟨result, rest⟩ :=
    next?_eq_some_iff.2 ⟨gap, span, hbytes, hgap, hspan⟩
  have hstart : s.positionOf (skipBlanks s.remaining) = s.position + gap.length := by
    obtain ⟨b, more, rfl, hb⟩ := hspan.starts
    rw [hbytes, skipBlanks_gap _ hgap, List.cons_append, skipBlanks_start _ hb]
    exact positionOf_of_remaining hbytes hposition
  have hend : s.positionOf rest = s.position + gap.length + span.length := by
    rw [← List.append_assoc] at hbytes
    rw [positionOf_of_remaining hbytes hposition, List.length_append, Nat.add_assoc]
  unfold next
  rw [hnext, hstart]
  simp only [hend]
  rcases result with defect | t
  · cases hspan with
    | openLiteral h => exact ⟨_, .unterminated (.openLiteral h) rfl, rfl⟩
    | openHex h htext => exact ⟨_, .unterminated (.openHex h htext) rfl, rfl⟩
    | @badHex digits _ _ _ hdigits hb hclose _ htail =>
      refine ⟨_, ?_, rfl⟩
      rw [show s.position + gap.length + (digits.length + 1) =
        s.position + gap.length + 1 + digits.length by omega]
      exact .badDigit rfl hdigits hb hclose htail
  · exact ⟨_, .token hspan, rfl⟩

/-- Where only blanks and comments are left, a call moves to the end. -/
theorem next_of_trailing (h : Trailing s.remaining) :
    s.next (α := α) = (none, { s with position := s.content.length }) := by
  unfold next
  rw [next?_eq_none_iff.2 h, h.skipBlanks]
  rfl

/-- Each report leaves fewer bytes. -/
theorem next_shortens {s' : Scanner} {r : Report α} (h : s.next = (some r, s')) :
    s'.remaining.length < s.remaining.length := by
  unfold next at h
  cases hnext : next? (α := α) s.remaining with
  | none =>
    rw [hnext] at h
    cases h
  | some reading =>
    have hshorter := next?_length hnext
    have hposition : s' = { s with position := s.positionOf reading.rest } := by
      rw [hnext] at h
      obtain ⟨result, rest⟩ := reading
      rcases result with (_ | _) | _ <;> exact (Prod.ext_iff.1 h).2.symm
    rw [remaining, List.length_drop] at hshorter
    rw [hposition, remaining, remaining, List.length_drop, List.length_drop, positionOf]
    show s.content.length - (s.content.length - reading.rest.length) < _
    omega

/-- What repeated calls report, each report with the position behind it. -/
def reports (s : Scanner) : List (Report α × Nat) :=
  match _h : s.next (α := α) with
  | (none, _) => []
  | (some r, s') => (r, s'.position) :: reports s'
termination_by s.remaining.length
decreasing_by exact next_shortens _h

theorem reports_none {s' : Scanner} (h : s.next (α := α) = (none, s')) :
    s.reports (α := α) = [] := by
  rw [reports]
  split
  · rfl
  · next e => cases h.symm.trans e

theorem reports_some {s' : Scanner} {r : Report α} (h : s.next = (some r, s')) :
    s.reports = (r, s'.position) :: s'.reports := by
  rw [reports]
  split
  · next e => cases h.symm.trans e
  · next e =>
    cases h.symm.trans e
    rfl

/-- At most one report for each byte. -/
theorem reports_length (s : Scanner) : (s.reports (α := α)).length ≤ s.remaining.length := by
  fun_induction reports (α := α) s with
  | case1 => simp
  | case2 s r s' h ih =>
    have hshorter := next_shortens h
    rw [List.length_cons]
    omega

/-- Either the call finds nothing more and moves to the end, or it moves over a gap and a span. -/
theorem next_cases (s : Scanner) (hposition : s.position ≤ s.content.length) :
    (Trailing s.remaining ∧ s.next (α := α) = (none, { s with position := s.content.length })) ∨
    ∃ gap span rest, ∃ r : Report α, s.remaining = gap ++ (span ++ rest) ∧ Gap gap ∧ span ≠ [] ∧
      Reports (s.position + gap.length) span rest r ∧
      s.next = (some r, { s with position := s.position + gap.length + span.length }) := by
  cases h : next? (α := α) s.remaining with
  | none =>
    have htrailing := next?_eq_none_iff.1 h
    exact .inl ⟨htrailing, next_of_trailing htrailing⟩
  | some reading =>
    obtain ⟨gap, span, hbytes, hgap, hspan⟩ := next?_eq_some_iff.1 h
    obtain ⟨r, hr, hnext⟩ := next_of_lexeme hposition hbytes hgap hspan
    obtain ⟨b, more, hstart, _⟩ := hspan.starts
    exact .inr ⟨gap, span, _, r, hbytes, hgap, hstart ▸ List.cons_ne_nil b more, hr, hnext⟩

theorem tiles_reports (s : Scanner) (hposition : s.position ≤ s.content.length) :
    Tiles s.position s.remaining (s.reports (α := α)) := by
  -- By induction on the bytes that are left, of which each report takes some.
  induction hlen : s.remaining.length using Nat.strong_induction_on generalizing s with
  | _ n ih =>
    rcases next_cases (α := α) s hposition with
      ⟨htrailing, hnext⟩ | ⟨gap, span, rest, r, hbytes, hgap, hne, hr, hnext⟩
    · rw [reports_none hnext]
      exact .done htrailing
    · have hfront : s.remaining = (gap ++ span) ++ rest := by rw [hbytes, List.append_assoc]
      have hmoved := remaining_of_front hfront
      rw [List.length_append, ← Nat.add_assoc] at hmoved
      have hshorter := next_shortens hnext
      have hlength := congrArg List.length hbytes
      rw [reports_some hnext, hbytes]
      refine .next hgap hne hr ?_
      have hmore := ih _ (hlen ▸ hshorter) _ ?_ rfl
      · rwa [hmoved] at hmore
      · rw [remaining, List.length_drop, List.length_append, List.length_append] at hlength
        show s.position + gap.length + span.length ≤ s.content.length
        omega

/-- **Scanning takes every byte once and comes to an end**, from any position that can be set. -/
theorem scanning_takes_every_byte (content : List UInt8) (position : Nat) :
    let s := (ofBytes content).seek position
    ((s.next (α := α)).1 = none ↔ Trailing s.remaining) ∧
    ((s.next (α := α)).1 = none → (s.next (α := α)).2.position = content.length) ∧
    (∀ r : Report α, s.next.1 = some r → ∃ gap span rest,
      s.remaining = gap ++ (span ++ rest) ∧ Gap gap ∧ span ≠ [] ∧
      Reports (s.position + gap.length) span rest r ∧
      (s.next (α := α)).2.position = s.position + gap.length + span.length ∧
      s.position < (s.next (α := α)).2.position ∧
      (s.next (α := α)).2.position ≤ content.length) ∧
    Tiles s.position s.remaining (s.reports (α := α)) ∧
    (s.reports (α := α)).length ≤ s.remaining.length := by
  intro s
  have hposition : s.position ≤ s.content.length := Nat.min_le_right _ _
  have hrun := And.intro (tiles_reports (α := α) s hposition) (reports_length (α := α) s)
  rcases next_cases (α := α) s hposition with
    ⟨htrailing, hnext⟩ | ⟨gap, span, rest, r, hbytes, hgap, hne, hr, hnext⟩
  · rw [hnext]
    exact ⟨⟨fun _ => htrailing, fun _ => rfl⟩, fun _ => rfl, fun _ h => (nomatch h), hrun⟩
  · have hopen : ¬Trailing s.remaining := by
      intro htrailing
      rw [next_of_trailing htrailing] at hnext
      cases hnext
    have hlength := congrArg List.length hbytes
    rw [remaining, List.length_drop, List.length_append, List.length_append] at hlength
    have hspan := List.length_pos_iff.2 hne
    have hmoves : s.position < s.position + gap.length + span.length := by omega
    have hinside : s.position + gap.length + span.length ≤ s.content.length := by omega
    rw [hnext]
    refine ⟨⟨fun h => (nomatch h), fun h => absurd h hopen⟩, fun h => (nomatch h), ?_, hrun⟩
    intro r' h
    cases h
    exact ⟨gap, span, rest, hbytes, hgap, hne, hr, rfl, hmoves, hinside⟩

end Calls

end PageSvg.Content.Scanner
