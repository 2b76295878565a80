import Mathlib.Data.List.Induction
import PageSvg.Geometry.PathData

/-!
# Pens along a path

The current point of a path under construction and the pen with which path data is written are kept
apart: one is found by going through the path in its own coordinates, the other goes along in units
of the last decimal place while the commands are written. Where a path begins with a move both agree
after each of its prefixes, whatever mixture of moves, lines, curves and closes follows.
-/

namespace PageSvg

variable {κ μ : Type}

namespace Path

/-! ### Anchored paths -/

/-- The path begins with a move, or is empty. -/
def Anchored (path : Path κ) : Prop := ∀ segment ∈ path.head?, ∃ p, segment = .move p

theorem anchored_nil : Anchored ([] : Path κ) := by simp [Anchored]

theorem anchored_move (p : κ × κ) (rest : Path κ) : Anchored (.move p :: rest) := by
  rintro _ ⟨⟩
  exact ⟨p, rfl⟩

namespace Anchored

variable {path : Path κ} (h : path.Anchored)

include h

theorem eq_nil_or_move : path = [] ∨ ∃ p rest, path = .move p :: rest := by
  cases path with
  | nil => exact .inl rfl
  | cons segment rest =>
    obtain ⟨p, rfl⟩ := h segment rfl
    exact .inr ⟨p, rest, rfl⟩

/-- What follows matters only where there is nothing yet. -/
theorem append {more : Path κ} (hmore : path = [] → more.Anchored) : (path ++ more).Anchored := by
  obtain rfl | ⟨p, rest, rfl⟩ := h.eq_nil_or_move
  · exact hmore rfl
  · exact anchored_move p _

theorem of_append {before after : Path κ} (hpath : before ++ after = path) : before.Anchored := by
  cases before with
  | nil => exact anchored_nil
  | cons segment rest =>
    rintro _ ⟨⟩
    exact h segment (by simp [← hpath])

theorem map (f : κ × κ → μ × μ) : Anchored (List.map (Segment.map f) path) := by
  obtain rfl | ⟨p, rest, rfl⟩ := h.eq_nil_or_move
  · exact anchored_nil
  · exact anchored_move (f p) _

end Anchored

section Extended

variable {path : Path κ} (h : path.Anchored)

include h

/-- A line goes on from what there is, or begins a path as a move. -/
theorem Anchored.line (p : κ × κ) :
    Anchored (path ++ if path.isEmpty then [.move p] else [.line p]) := by
  refine h.append fun hnil => ?_
  rw [hnil]
  exact anchored_move p _

/-- A curve goes on from what there is, or begins a path after a move. -/
theorem Anchored.curve (p q r : κ × κ) :
    Anchored (path ++ if path.isEmpty then [.move p, .curve p q r] else [.curve p q r]) := by
  refine h.append fun hnil => ?_
  rw [hnil]
  exact anchored_move p _

/-- A curve from the current point cannot begin a path. -/
theorem Anchored.curveFromCurrent (q r : κ × κ) :
    Anchored (match currentPoint? path with
      | some p => path ++ [.curve p q r]
      | none => path) := by
  cases hcurrent : currentPoint? path with
  | none => exact h
  | some p =>
    refine h.append fun hnil => ?_
    rw [hnil] at hcurrent
    cases hcurrent

/-- A close cannot begin a path. -/
theorem Anchored.close : Anchored (if path.isEmpty then path else path ++ [.close]) := by
  split
  · exact h
  · next hsome => exact h.append fun hnil => absurd (List.isEmpty_iff.2 hnil) hsome

end Extended

theorem anchored_rectangle {α : Type} [Scalar α] (x y width height : α) :
    Anchored (rectangle x y width height) := anchored_move _ _

/-! ### The current point -/

/-- The pen under a map of its points. -/
def Pen.map (f : κ × κ → μ × μ) (pen : Pen κ) : Pen μ := ⟨pen.start.map f, pen.current.map f⟩

theorem Pen.follow_map (f : κ × κ → μ × μ) (pen : Pen κ) (segment : Segment κ) :
    (pen.map f).follow (segment.map f) = (pen.follow segment).map f := by
  cases segment <;> rfl

theorem foldl_follow_map (f : κ × κ → μ × μ) (pen : Pen κ) (path : Path κ) :
    (List.map (Segment.map f) path).foldl Pen.follow (pen.map f) =
      (path.foldl Pen.follow pen).map f := by
  induction path generalizing pen with
  | nil => rfl
  | cons segment rest ih => simp only [List.map_cons, List.foldl_cons, Pen.follow_map, ih]

/-- The current point moves along with the path. -/
theorem currentPoint?_map (f : κ × κ → μ × μ) (path : Path κ) :
    currentPoint? (List.map (Segment.map f) path) = (currentPoint? path).map f :=
  congrArg Pen.current (foldl_follow_map f {} path)

theorem isSome_foldl_follow (pen : Pen κ) (hstart : pen.start.isSome = true)
    (hcurrent : pen.current.isSome = true) (path : Path κ) :
    (path.foldl Pen.follow pen).current.isSome = true := by
  induction path generalizing pen with
  | nil => exact hcurrent
  | cons segment rest ih =>
    cases segment with
    | move p => exact ih _ rfl rfl
    | line p => exact ih _ hstart rfl
    | curve p q r => exact ih _ hstart rfl
    | close => exact ih _ hstart hstart

/-- There is a current point as soon as there is a segment. -/
theorem Anchored.currentPoint?_eq_none_iff {path : Path κ} (h : path.Anchored) :
    currentPoint? path = none ↔ path = [] := by
  obtain rfl | ⟨p, rest, rfl⟩ := h.eq_nil_or_move
  · exact iff_of_true rfl rfl
  · have hsome := isSome_foldl_follow ⟨some p, some p⟩ rfl rfl rest
    refine iff_of_false (fun hnone => ?_) (List.cons_ne_nil _ _)
    exact Option.isSome_iff_ne_none.1 hsome hnone

end Path

namespace PathData

/-! ### The pen of the writer -/

/-- The pen after a segment has been written. -/
def follow : Option Pen → Segment Int64 → Option Pen
  | _, .move p | none, .line p => some ⟨p, p⟩
  | none, .curve p _ r => some ⟨r, p⟩
  | some pen, .line p | some pen, .curve _ _ p => some { pen with current := p }
  | none, .close => none
  | some pen, .close => some { pen with current := pen.start }

/-- The pen after a path has been written. -/
def penAfter (pen : Option Pen) (path : Path Int64) : Option Pen := path.foldl follow pen

/-- What follows is written with the pen that is left. -/
theorem pieces_append (places : Nat) (pen : Option Pen) (before after : Path Int64) :
    pieces places pen (before ++ after) =
      pieces places pen before ++ pieces places (penAfter pen before) after := by
  induction before generalizing pen with
  | nil => rw [List.nil_append, pieces, List.nil_append]; rfl
  | cons segment rest ih =>
    cases pen <;> cases segment <;>
      simp only [List.cons_append, pieces, ih, penAfter, List.foldl_cons, follow, move]

/-- Where the writer has been and is, as a pen along the path. -/
def along (pen : Option Pen) : Path.Pen Int64 := ⟨pen.map (·.start), pen.map (·.current)⟩

/-- After a first point the writer goes along with the path. -/
theorem along_penAfter (pen : Pen) (path : Path Int64) :
    along (penAfter (some pen) path) = path.foldl Path.Pen.follow (along (some pen)) := by
  induction path generalizing pen with
  | nil => rfl
  | cons segment rest ih => cases segment <;> exact ih _

theorem current_penAfter {path : Path Int64} (h : path.Anchored) :
    (penAfter none path).map (·.current) = Path.currentPoint? path := by
  obtain rfl | ⟨p, rest, rfl⟩ := h.eq_nil_or_move
  · rfl
  · exact congrArg Path.Pen.current (along_penAfter ⟨p, p⟩ rest)

/-- The writer of a path follows it: after each prefix its pen is at the current point in units of
the last decimal place, and what is left is written from there. -/
def Follows {α : Type} [Scalar α] (path : Path α) : Prop :=
  ∀ places before after, before ++ after = path →
    let pen := penAfter none (inUnits places before)
    pieces places none (inUnits places path) =
        pieces places none (inUnits places before) ++ pieces places pen (inUnits places after) ∧
      pen.map (·.current) =
        (Path.currentPoint? before).map fun p => (units places p.1, units places p.2)

/-- **The writer follows an anchored path.** -/
theorem follows_of_anchored {α : Type} [Scalar α] {path : Path α} (h : path.Anchored) :
    Follows path := by
  rintro places before after rfl
  refine ⟨?_, ?_⟩
  · rw [← pieces_append, inUnits, inUnits, inUnits, List.map_append]
  · rw [← Path.currentPoint?_map]
    exact current_penAfter ((h.of_append rfl).map _)

end PathData

end PageSvg
