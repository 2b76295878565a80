import PageSvg.Proofs.Geometry.PathReading
import PageSvg.Proofs.Number.Rational

/-!
# Exactness of path data

The text of a path reads as the segments of the path, each coordinate at its own whole number of
units of the last decimal place. The offsets of relative commands are differences of such whole
numbers, and the pen of the reader is where the pen of the writer was, so the error of a coordinate
is its own rounding, wherever on the path it stands.
-/

namespace PageSvg

/-- A path as it is written: it begins with a move, to the end of a line or to the first control
point of a curve, and closes before any point are absent. -/
def Path.started {κ : Type} : Path κ → Path κ
  | [] => []
  | .move p :: rest => .move p :: rest
  | .line p :: rest => .move p :: rest
  | .curve p q r :: rest => .move p :: .curve p q r :: rest
  | .close :: rest => started rest

theorem Path.started_map {κ μ : Type} (f : κ × κ → μ × μ) (path : Path κ) :
    started (path.map (Segment.map f)) = (started path).map (Segment.map f) := by
  induction path with
  | nil => rfl
  | cons segment rest ih =>
    cases segment with
    | close => exact ih
    | move p => rfl
    | line p => rfl
    | curve p q r => rfl

namespace PathData

/-! ### Offsets -/

/-- A number of units so small that differences do not leave the sixty-four bits. -/
def Fits (n : Int64) : Prop := |n.toInt| < 2 ^ 62

instance (n : Int64) : Decidable (Fits n) := inferInstanceAs (Decidable (_ < _))

/-- Both coordinates are small. -/
def FitsPoint (p : Int64 × Int64) : Prop := Fits p.1 ∧ Fits p.2

theorem toInt_sub_of_fits {a b : Int64} (ha : Fits a) (hb : Fits b) :
    (a - b).toInt = a.toInt - b.toInt := by
  have hleft := abs_lt.1 ha
  have hright := abs_lt.1 hb
  rw [Int64.toInt_sub]
  apply Int.bmod_eq_of_le <;> omega

/-- A number of units is a count from another one and the offset to it. -/
theorem value_add_offset (places : Nat) {a b : Int64} (ha : Fits a) (hb : Fits b) :
    value places b + value places (a - b) = value places a := by
  rw [value, value, value, toInt_sub_of_fits ha hb, ← add_div, Int.cast_sub, add_sub_cancel]

/-- A point in units, at its value. -/
def valued (places : Nat) (p : Int64 × Int64) : ℚ × ℚ := (value places p.1, value places p.2)

/-! ### Single commands -/

/-- The pen of a reader where the pen of the writer is. -/
def readerPen (places : Nat) (pen : Option Pen) : Path.Pen ℚ :=
  ⟨pen.map fun pen => valued places pen.start, pen.map fun pen => valued places pen.current⟩

/-- The text is a command that reads as the segment. -/
def Spells (places : Nat) (pen : Option Pen) (text : String) (segment : Segment Int64) : Prop :=
  ∃ letter numbers, letter.isAlpha = true ∧ text = render places (letter, numbers) ∧
    segment? (readerPen places pen) letter (numbers.map (value places)) =
      some (segment.map (valued places))

section Commands

variable {places : Nat}

/-- Both forms of a command read alike, so it does not matter which one is shorter. -/
theorem spells_command {pen : Option Pen} {letter relative : Char} {numbers : List Int64}
    {offsets : Option (List Int64)} {segment : Segment Int64} (hletter : letter.isAlpha = true)
    (hrelative : relative.isAlpha = true)
    (habsolute : segment? (readerPen places pen) letter (numbers.map (value places)) =
      some (segment.map (valued places)))
    (hoffset : ∀ ns ∈ offsets, segment? (readerPen places pen) relative (ns.map (value places)) =
      some (segment.map (valued places))) :
    Spells places pen (command places letter relative numbers offsets) segment := by
  unfold command
  cases offsets with
  | none => exact ⟨letter, numbers, hletter, rfl, habsolute⟩
  | some ns =>
    show Spells places pen (ite _ _ _) segment
    split
    · exact ⟨relative, ns, hrelative, rfl, hoffset ns rfl⟩
    · exact ⟨letter, numbers, hletter, rfl, habsolute⟩

theorem spells_move {pen : Option Pen} (hpen : ∀ start ∈ pen, FitsPoint start.current)
    {p : Int64 × Int64} (hp : FitsPoint p) :
    Spells places pen (move places pen p).1 (.move p) := by
  refine spells_command rfl rfl rfl fun ns hns => ?_
  cases pen with
  | none => cases hns
  | some pen =>
    cases hns
    have hcurrent := hpen pen rfl
    have hx := value_add_offset places hp.1 hcurrent.1
    have hy := value_add_offset places hp.2 hcurrent.2
    simp [segment?, readerPen, valued, hx, hy, Segment.map]

variable {pen : Pen} (hpen : FitsPoint pen.current)

include hpen

theorem spells_line {p : Int64 × Int64} (hp : FitsPoint p) :
    Spells places (some pen) (line places pen p) (.line p) := by
  have hx := value_add_offset places hp.1 hpen.1
  have hy := value_add_offset places hp.2 hpen.2
  unfold line
  dsimp only
  split
  · next hlevel =>
    refine spells_command rfl rfl ?_ fun ns hns => ?_
    · simp [segment?, drawn?, readerPen, valued, Segment.map, hlevel.1]
    · cases hns
      simp [segment?, drawn?, readerPen, valued, Segment.map, hlevel.1, hx]
  · split
    · next hupright =>
      refine spells_command rfl rfl ?_ fun ns hns => ?_
      · simp [segment?, drawn?, readerPen, valued, Segment.map, hupright.1]
      · cases hns
        simp [segment?, drawn?, readerPen, valued, Segment.map, hupright.1, hy]
    · refine spells_command rfl rfl ?_ fun ns hns => ?_
      · simp [segment?, drawn?, readerPen, valued, Segment.map, coordinates]
      · cases hns
        simp [segment?, drawn?, readerPen, valued, Segment.map, hx, hy]

theorem spells_curve {p q r : Int64 × Int64} (hp : FitsPoint p) (hq : FitsPoint q)
    (hr : FitsPoint r) :
    Spells places (some pen) (curve places pen p q r) (.curve p q r) := by
  have hoffset {s : Int64 × Int64} (hs : FitsPoint s) :
      value places pen.current.1 + value places (s.1 - pen.current.1) = value places s.1 ∧
        value places pen.current.2 + value places (s.2 - pen.current.2) = value places s.2 :=
    ⟨value_add_offset places hs.1 hpen.1, value_add_offset places hs.2 hpen.2⟩
  refine spells_command rfl rfl ?_ fun ns hns => ?_
  · simp [segment?, drawn?, readerPen, valued, Segment.map, coordinates]
  · cases hns
    simp [segment?, drawn?, readerPen, valued, Segment.map, hoffset hp, hoffset hq, hoffset hr]

omit hpen in
theorem spells_close : Spells places (some pen) "Z" .close := ⟨'Z', [], rfl, rfl, rfl⟩

end Commands

/-! ### Whole paths -/

/-- The texts are commands that read as the segments, one after the other. -/
def SpellsPath (places : Nat) (pen : Option Pen) (texts : List String) (path : Path Int64) : Prop :=
  ∃ commands : List (Char × List Int64), (∀ c ∈ commands, c.1.isAlpha = true) ∧
    texts = commands.map (render places) ∧
    segments? (readerPen places pen) (commands.map fun c => (c.1, c.2.map (value places))) =
      some (path.map (Segment.map (valued places)))

section Paths

variable {places : Nat}

theorem spellsPath_nil {pen : Option Pen} : SpellsPath places pen [] [] :=
  ⟨[], fun _ h => (List.not_mem_nil h).elim, rfl, rfl⟩

/-- The pens of the writer and of the reader agree again after a command. -/
theorem spellsPath_cons {pen next : Option Pen} {text : String} {texts : List String}
    {segment : Segment Int64} {rest : Path Int64} (hfirst : Spells places pen text segment)
    (hnext : (readerPen places pen).follow (segment.map (valued places)) = readerPen places next)
    (hrest : SpellsPath places next texts rest) :
    SpellsPath places pen (text :: texts) (segment :: rest) := by
  obtain ⟨letter, numbers, hletter, rfl, hsegment⟩ := hfirst
  obtain ⟨commands, hletters, rfl, hsegments⟩ := hrest
  refine ⟨(letter, numbers) :: commands, List.forall_mem_cons.2 ⟨hletter, hletters⟩, rfl, ?_⟩
  simp only [List.map_cons, segments?, hsegment, Option.bind_some, hnext, hsegments,
    Option.map_some]

/-- After a first point. -/
theorem spellsPath_pieces {path : Path Int64} (hpath : ∀ p ∈ path.points, FitsPoint p) {pen : Pen}
    (hstart : FitsPoint pen.start) (hcurrent : FitsPoint pen.current) :
    SpellsPath places (some pen) (pieces places (some pen) path) path := by
  induction path generalizing pen with
  | nil => exact spellsPath_nil
  | cons segment rest ih =>
    have hpoint : ∀ p ∈ segment.points, FitsPoint p := fun p hp =>
      hpath p (List.mem_append_left _ hp)
    have hrest : ∀ p ∈ Path.points rest, FitsPoint p := fun p hp =>
      hpath p (List.mem_append_right _ hp)
    cases segment with
    | move p =>
      have hp := hpoint p (by simp [Segment.points])
      refine spellsPath_cons (spells_move ?_ hp) rfl (ih hrest hp hp)
      rintro start ⟨⟩
      exact hcurrent
    | line p =>
      have hp := hpoint p (by simp [Segment.points])
      exact spellsPath_cons (spells_line hcurrent hp) rfl (ih hrest hstart hp)
    | curve p q r =>
      have hp := hpoint p (by simp [Segment.points])
      have hq := hpoint q (by simp [Segment.points])
      have hr := hpoint r (by simp [Segment.points])
      exact spellsPath_cons (spells_curve hcurrent hp hq hr) rfl (ih hrest hstart hr)
    | close => exact spellsPath_cons spells_close rfl (ih hrest hstart hstart)

/-- Before any point there is nothing to count from, so a first move is absolute. -/
theorem spellsPath_started {path : Path Int64} (hpath : ∀ p ∈ path.points, FitsPoint p) :
    SpellsPath places none (pieces places none path) path.started := by
  induction path with
  | nil => exact spellsPath_nil
  | cons segment rest ih =>
    have hpoint : ∀ p ∈ segment.points, FitsPoint p := fun p hp =>
      hpath p (List.mem_append_left _ hp)
    have hrest : ∀ p ∈ Path.points rest, FitsPoint p := fun p hp =>
      hpath p (List.mem_append_right _ hp)
    have hmove {p : Int64 × Int64} {texts : List String} {path : Path Int64} (hp : FitsPoint p)
        (hrest : SpellsPath places (some ⟨p, p⟩) texts path) :
        SpellsPath places none ((move places none p).1 :: texts) (.move p :: path) := by
      have hfirst : Spells places none (move places none p).1 (.move p) :=
        spells_move (fun _ h => by cases h) hp
      have hnext : (readerPen places none).follow ((Segment.move p).map (valued places)) =
          readerPen places (some ⟨p, p⟩) := rfl
      exact spellsPath_cons hfirst hnext hrest
    cases segment with
    | move p =>
      have hp := hpoint p (by simp [Segment.points])
      exact hmove hp (spellsPath_pieces hrest hp hp)
    | line p =>
      have hp := hpoint p (by simp [Segment.points])
      exact hmove hp (spellsPath_pieces hrest hp hp)
    | curve p q r =>
      -- After the move the curve is written as it is after any first point.
      have hp := hpoint p (by simp [Segment.points])
      exact hmove hp (spellsPath_pieces hpath hp hp)
    | close => exact ih hrest

theorem read?_of_spellsPath {texts : List String} {path : Path Int64}
    (h : SpellsPath places none texts path) :
    read? (String.join texts).toList = some (path.map (Segment.map (valued places))) := by
  obtain ⟨commands, hletters, rfl, hsegments⟩ := h
  rw [read?, commands?_render places hletters, Option.bind_some]
  exact hsegments

end Paths

section Written

variable {α : Type} [Scalar α] (places : Nat) {path : Path α}

/-- A path as it reads: every coordinate rounded to the last decimal place by itself. -/
def reading (path : Path α) : Path ℚ :=
  path.started.map (Segment.map fun p =>
    ((units places p.1).toInt / 10 ^ places, (units places p.2).toInt / 10 ^ places))

theorem started_inUnits (path : Path α) :
    (inUnits places path).started.map (Segment.map (valued places)) = reading places path := by
  rw [inUnits, Path.started_map, List.map_map, reading]
  congr 1
  funext segment
  cases segment <;> rfl

theorem fitsPoint_inUnits
    (h : ∀ p ∈ path.points, Fits (units places p.1) ∧ Fits (units places p.2)) :
    ∀ p ∈ (inUnits places path).points, FitsPoint p := by
  intro p hp
  obtain ⟨segment, hsegment, hp⟩ := List.mem_flatMap.1 hp
  obtain ⟨source, hsource, rfl⟩ := List.mem_map.1 hsegment
  have hpoint : ∃ q ∈ source.points, (units places q.1, units places q.2) = p := by
    cases source <;> simp [Segment.map, Segment.points] at hp ⊢ <;> grind
  obtain ⟨q, hq, rfl⟩ := hpoint
  exact h q (List.mem_flatMap.2 ⟨source, hsource, hq⟩)

end Written

/-- The text of a path reads as its segments, with every coordinate rounded to the last decimal
place by itself. -/
theorem text_exact {α : Type} [Scalar α] (places : Nat) {path : Path α}
    (h : ∀ p ∈ path.points, Fits (units places p.1) ∧ Fits (units places p.2)) :
    read? (text places path).toList =
      some (path.started.map (Segment.map fun p =>
        (((units places p.1).toInt / 10 ^ places : ℚ),
          ((units places p.2).toInt / 10 ^ places : ℚ)))) := by
  have hspells : SpellsPath places none _ _ := spellsPath_started (fitsPoint_inUnits places h)
  rw [text, read?_of_spellsPath hspells, started_inUnits, reading]

section Thirds

attribute [local instance] Scalar.rational

/-- Steps of a third, which would drift if each of them were rounded. -/
def thirds : Path ℚ :=
  [.close, .curve (0, 0) (1 / 3, 1 / 3) (2 / 3, 1 / 3), .line (1, 1 / 3), .line (4 / 3, 2 / 3),
    .close, .line (-1 / 3, 0)]

theorem text_exact_thirds :
    read? (text 2 thirds).toList =
      some [.move (0, 0), .curve (0, 0) (33 / 100, 33 / 100) (67 / 100, 33 / 100),
        .line (1, 33 / 100), .line (133 / 100, 67 / 100), .close, .line (-33 / 100, 0)] := by
  have hfits : ∀ p ∈ thirds.points, Fits (units 2 p.1) ∧ Fits (units 2 p.2) := by decide +kernel
  rw [text_exact 2 hfits]
  decide +kernel

end Thirds

end PathData

end PageSvg
