import PageSvg.Proofs.Number.Decimal

/-!
# Reading path data

A reader of path data cuts the text into commands at their letters and into numbers at spaces and
minus signs, and follows the pen: a relative command counts from the current point, and a close
takes the pen back to the start of the subpath. Written commands are cut and read as they were
written.
-/

namespace PageSvg

namespace PathData

/-! ### The reader -/

/-- Cuts a text before the marked characters: what stands before the first one, and each of them
with what follows it. -/
def cut (marked : Char → Bool) : List Char → List Char × List (Char × List Char)
  | [] => ([], [])
  | c :: rest =>
    let (front, pieces) := cut marked rest
    if marked c then ([], (c, front) :: pieces) else (c :: front, pieces)

/-- The characters that set numbers apart. -/
def isSeparator (c : Char) : Bool := c == ' ' || c == '-'

/-- The numbers of a command as they are written; a minus sign belongs to the number behind it. -/
def words (text : List Char) : List (List Char) :=
  let (front, pieces) := cut isSeparator text
  (front :: pieces.map fun piece => if piece.1 = '-' then '-' :: piece.2 else piece.2).filter
    (!·.isEmpty)

/-- The numbers of a command. -/
def numbers? (text : List Char) : Option (List ℚ) := (words text).mapM Decimal.read?

/-- The letters of the commands, each with its numbers. -/
def commands? (text : List Char) : Option (List (Char × List ℚ)) :=
  let (front, pieces) := cut Char.isAlpha text
  if front.isEmpty then pieces.mapM fun piece => (numbers? piece.2).map (piece.1, ·) else none

/-- What a command draws from the current point `(u, v)`. -/
def drawn? (u v : ℚ) (letter : Char) (numbers : List ℚ) : Option (Segment ℚ) :=
  match letter, numbers with
  | 'L', [x, y] => some (.line (x, y))
  | 'l', [x, y] => some (.line (u + x, v + y))
  | 'H', [x] => some (.line (x, v))
  | 'h', [x] => some (.line (u + x, v))
  | 'V', [y] => some (.line (u, y))
  | 'v', [y] => some (.line (u, v + y))
  | 'C', [a, b, c, d, x, y] => some (.curve (a, b) (c, d) (x, y))
  | 'c', [a, b, c, d, x, y] =>
    some (.curve (u + a, v + b) (u + c, v + d) (u + x, v + y))
  | 'Z', [] | 'z', [] => some .close
  | _, _ => none

/-- The segment of a command. Only a move may come before any point, and counts then from the
origin. -/
def segment? (pen : Path.Pen ℚ) (letter : Char) (numbers : List ℚ) : Option (Segment ℚ) :=
  match letter, numbers with
  | 'M', [x, y] => some (.move (x, y))
  | 'm', [x, y] =>
    let (u, v) := pen.current.getD (0, 0)
    some (.move (u + x, v + y))
  | letter, numbers => pen.current.bind fun p => drawn? p.1 p.2 letter numbers

/-- The segments of commands, along which the pen is followed. -/
def segments? (pen : Path.Pen ℚ) : List (Char × List ℚ) → Option (Path ℚ)
  | [] => some []
  | (letter, numbers) :: rest =>
    (segment? pen letter numbers).bind fun segment =>
      (segments? (pen.follow segment) rest).map (segment :: ·)

/-- Reads path data. -/
def read? (text : List Char) : Option (Path ℚ) := (commands? text).bind (segments? {})

/-! ### Cutting -/

section Cut

variable {marked : Char → Bool}

theorem cut_append {body : List Char} (h : ∀ c ∈ body, marked c = false) (rest : List Char) :
    cut marked (body ++ rest) = (body ++ (cut marked rest).1, (cut marked rest).2) := by
  induction body with
  | nil => rfl
  | cons c body ih =>
    have hc := h c List.mem_cons_self
    have hbody := ih fun d hd => h d (List.mem_cons_of_mem c hd)
    simp [cut, hc, hbody]

theorem cut_cons {c : Char} (hc : marked c = true) (rest : List Char) :
    cut marked (c :: rest) = ([], (c, (cut marked rest).1) :: (cut marked rest).2) := by
  simp [cut, hc]

end Cut

/-! ### Numbers -/

/-- The number of a count of units of the last decimal place. -/
def value (places : Nat) (n : Int64) : ℚ := n.toInt / 10 ^ places

/-- The body of a written number has no separator. -/
theorem isSeparator_body {places digits : Nat} :
    ∀ c ∈ Numeral.trimmedBody places digits, isSeparator c = false := by
  intro c hc
  rcases Numeral.mem_trimmedBody hc with hdigit | rfl
  · rw [isSeparator, Bool.or_eq_false_iff, beq_eq_false_iff_ne, beq_eq_false_iff_ne]
    constructor <;> rintro rfl <;> cases hdigit
  · rfl

/-- A number behind the ones before it: with a space in front unless it has a minus sign. -/
def spaced (places : Nat) (n : Int64) : String :=
  (if n < 0 then "" else " ") ++ unitsText places n

theorem joined_cons (places : Nat) (n : Int64) (rest : List Int64) :
    joined places (n :: rest) = unitsText places n ++ String.join (rest.map (spaced places)) :=
  rfl

/-- A written number as it comes out of the cuts. -/
def pieceOf (places : Nat) (n : Int64) : Char × List Char :=
  (if n < 0 then '-' else ' ', Numeral.trimmedBody places n.toInt.natAbs)

theorem toList_spaced (places : Nat) (n : Int64) :
    (spaced places n).toList = (pieceOf places n).1 :: (pieceOf places n).2 := by
  rw [spaced, String.toList_append, toList_unitsText]
  by_cases hneg : n < 0 <;> simp [pieceOf, hneg]

theorem cut_spaced (places : Nat) (ns : List Int64) :
    cut isSeparator (String.join (ns.map (spaced places))).toList =
      ([], ns.map (pieceOf places)) := by
  induction ns with
  | nil => rfl
  | cons n rest ih =>
    have hmark : isSeparator (pieceOf places n).1 = true := by
      by_cases hneg : n < 0 <;> simp [pieceOf, hneg, isSeparator]
    have hbody : ∀ c ∈ (pieceOf places n).2, isSeparator c = false := isSeparator_body
    rw [List.map_cons, String.join_cons, String.toList_append, toList_spaced, List.cons_append,
      cut_cons hmark, cut_append hbody, ih, List.append_nil, List.map_cons]

/-- A piece, with its minus sign, is the text of its number. -/
theorem word_pieceOf (places : Nat) (n : Int64) :
    (if (pieceOf places n).1 = '-' then '-' :: (pieceOf places n).2 else (pieceOf places n).2) =
      (unitsText places n).toList := by
  rw [toList_unitsText]
  by_cases hneg : n < 0 <;> simp [pieceOf, hneg]

theorem unitsText_ne_nil (places : Nat) (n : Int64) : (unitsText places n).toList ≠ [] := by
  rw [toList_unitsText]
  intro hnil
  exact Numeral.trimmedBody_ne_nil places n.toInt.natAbs (List.append_eq_nil_iff.1 hnil).2

theorem words_joined (places : Nat) (ns : List Int64) :
    words (joined places ns).toList = ns.map fun n => (unitsText places n).toList := by
  have hrest (rest : List Int64) :
      ((rest.map (pieceOf places)).map fun piece =>
        if piece.1 = '-' then '-' :: piece.2 else piece.2) =
        rest.map fun n => (unitsText places n).toList := by
    rw [List.map_map]
    exact List.map_congr_left fun n _ => word_pieceOf places n
  have hfull (rest : List Int64) :
      (rest.map fun n => (unitsText places n).toList).filter (!·.isEmpty) =
        rest.map fun n => (unitsText places n).toList := by
    rw [List.filter_eq_self]
    intro word hword
    obtain ⟨n, -, rfl⟩ := List.mem_map.1 hword
    simpa using unitsText_ne_nil places n
  cases ns with
  | nil => rfl
  | cons n rest =>
    -- A leading minus sign is cut off as well, so the first number stands before or behind a cut.
    have hbody := Numeral.trimmedBody_ne_nil places n.toInt.natAbs
    rw [joined_cons, String.toList_append]
    by_cases hneg : n < 0
    · have hcut : cut isSeparator ((unitsText places n).toList ++
          (String.join (rest.map (spaced places))).toList) =
          ([], (n :: rest).map (pieceOf places)) := by
        rw [toList_unitsText, if_pos hneg, List.append_assoc, List.singleton_append,
          cut_cons (by rfl), cut_append isSeparator_body, cut_spaced, List.append_nil]
        simp [pieceOf, hneg]
      simp only [words, hcut, hrest]
      exact hfull (n :: rest)
    · have hcut : cut isSeparator ((unitsText places n).toList ++
          (String.join (rest.map (spaced places))).toList) =
          ((unitsText places n).toList, rest.map (pieceOf places)) := by
        rw [toList_unitsText, if_neg hneg, List.nil_append, cut_append isSeparator_body,
          cut_spaced, List.append_nil]
      simp only [words, hcut, hrest]
      exact hfull (n :: rest)

theorem numbers?_joined (places : Nat) (ns : List Int64) :
    numbers? (joined places ns).toList = some (ns.map (value places)) := by
  rw [numbers?, words_joined]
  induction ns with
  | nil => rfl
  | cons n rest ih =>
    rw [List.map_cons, List.mapM_cons, read?_unitsText, ih]
    rfl

/-! ### Commands -/

/-- The text of a command. -/
def render (places : Nat) (c : Char × List Int64) : String := c.1.toString ++ joined places c.2

theorem not_isAlpha_of_isDigit {c : Char} (h : c.isDigit = true) : c.isAlpha = false := by
  have hdigit : c.val ≤ '9'.val := of_decide_eq_true (Bool.and_eq_true_iff.1 h).2
  rw [Bool.eq_false_iff]
  intro halpha
  rcases Bool.or_eq_true_iff.1 halpha with hupper | hlower
  · have hletter : 'A'.val ≤ c.val := (of_decide_eq_true hupper).1
    exact absurd (UInt32.le_trans hletter hdigit) (by decide)
  · have hletter : 'a'.val ≤ c.val := of_decide_eq_true (Bool.and_eq_true_iff.1 hlower).1
    exact absurd (UInt32.le_trans hletter hdigit) (by decide)

theorem not_isAlpha_unitsText {places : Nat} {n : Int64} :
    ∀ c ∈ (unitsText places n).toList, c.isAlpha = false := by
  intro c hc
  rw [toList_unitsText, List.mem_append] at hc
  rcases hc with hc | hc
  · split at hc
    · rw [List.mem_singleton.1 hc]
      rfl
    · cases hc
  · rcases Numeral.mem_trimmedBody hc with hdigit | rfl
    · exact not_isAlpha_of_isDigit hdigit
    · rfl

theorem not_isAlpha_joined {places : Nat} {ns : List Int64} :
    ∀ c ∈ (joined places ns).toList, c.isAlpha = false := by
  have hspaced (rest : List Int64) :
      ∀ c ∈ (String.join (rest.map (spaced places))).toList, c.isAlpha = false := by
    induction rest with
    | nil => simp
    | cons n rest ih =>
      intro c hc
      rw [List.map_cons, String.join_cons, String.toList_append, List.mem_append, spaced,
        String.toList_append, List.mem_append] at hc
      rcases hc with (hc | hc) | hc
      · split at hc
        · cases hc
        · rw [List.mem_singleton.1 hc]
          rfl
      · exact not_isAlpha_unitsText c hc
      · exact ih c hc
  intro c hc
  cases ns with
  | nil => cases hc
  | cons n rest =>
    rw [joined_cons, String.toList_append, List.mem_append] at hc
    rcases hc with hc | hc
    · exact not_isAlpha_unitsText c hc
    · exact hspaced rest c hc

theorem cut_render (places : Nat) {commands : List (Char × List Int64)}
    (h : ∀ c ∈ commands, c.1.isAlpha = true) :
    cut Char.isAlpha (String.join (commands.map (render places))).toList =
      ([], commands.map fun c => (c.1, (joined places c.2).toList)) := by
  induction commands with
  | nil => rfl
  | cons c rest ih =>
    have hletter := h c List.mem_cons_self
    have hrest := ih fun d hd => h d (List.mem_cons_of_mem c hd)
    have htext : (render places c).toList = c.1 :: (joined places c.2).toList := by
      rw [render, String.toList_append, Char.toString_eq_singleton, String.toList_singleton,
        List.singleton_append]
    rw [List.map_cons, String.join_cons, String.toList_append, htext, List.cons_append,
      cut_cons hletter, cut_append not_isAlpha_joined, hrest, List.append_nil, List.map_cons]

/-- Commands are read as they were written. -/
theorem commands?_render (places : Nat) {commands : List (Char × List Int64)}
    (h : ∀ c ∈ commands, c.1.isAlpha = true) :
    commands? (String.join (commands.map (render places))).toList =
      some (commands.map fun c => (c.1, c.2.map (value places))) := by
  simp only [commands?, cut_render places h, List.isEmpty_nil, if_true]
  clear h
  induction commands with
  | nil => rfl
  | cons c rest ih =>
    rw [List.map_cons, List.mapM_cons, numbers?_joined, ih]
    rfl

end PathData

end PageSvg
