import PageSvg.Number.Scalar
import PageSvg.Text.Utf8
import PageSvg.Content.Byte

/-!
# Tokens of a content stream

`next?` reads the first token of some bytes and returns it with the bytes after it. A string that
cannot be read is reported and passed over, so that reading can go on behind it; a word that
starts like a number but is none is a keyword. `inlineData` reads the raw bytes of an inline
image, which are no tokens.
-/

namespace PageSvg.Content

variable {α : Type}

/-- The smallest units of a content stream. -/
inductive Token (α : Type)
  | integer (value : Int64)
  | real (value : α)
  | bool (value : Bool)
  | null
  /-- A name without its slash, with its escapes resolved. -/
  | name (text : String)
  /-- A literal or hexadecimal string. -/
  | string (bytes : List UInt8)
  | arrayOpen
  | arrayClose
  | dictionaryOpen
  | dictionaryClose
  /-- An operator, or any other bare word. -/
  | keyword (text : String)

/-- Why a string cannot be read. -/
inductive Defect
  /-- A byte that is no hexadecimal digit, at its distance from the start of the token. -/
  | badDigit (offset : Nat) (byte : UInt8)
  | unterminated
  deriving DecidableEq, Repr

/-- A token or a defect, and the bytes that follow it. -/
structure Reading (α : Type) where
  result : Except Defect (Token α)
  rest : List UInt8

/-- Skips blanks and comments; the flag says that a comment is open. -/
def skipBlanksFrom : Bool → List UInt8 → List UInt8
  | _, [] => []
  | true, b :: rest => if isLineEnd b then skipBlanksFrom false rest else skipBlanksFrom true rest
  | false, b :: rest =>
    if b = 0x25 then skipBlanksFrom true rest
    else if isBlank b then skipBlanksFrom false rest
    else b :: rest

/-- The bytes from the first one that belongs to a token. -/
def skipBlanks (bytes : List UInt8) : List UInt8 := skipBlanksFrom false bytes

/-- Resolves the escapes of a name: a number sign and two hexadecimal digits are one byte. -/
def unescapeName : List UInt8 → List UInt8
  | 0x23 :: h :: l :: rest =>
    match hexDigit? h, hexDigit? l with
    | some high, some low => (high <<< 4 ||| low) :: unescapeName rest
    | _, _ => 0x23 :: unescapeName (h :: l :: rest)
  | b :: rest => b :: unescapeName rest
  | [] => []

/-- The token of a bare word: a literal or a keyword. -/
def wordToken (bytes : List UInt8) : Token α :=
  if bytes = word "true" then .bool true
  else if bytes = word "false" then .bool false
  else if bytes = word "null" then .null
  else .keyword (Utf8.decode bytes)

/-- Reads a bare word; a delimiter that opens no token is a word of its own. -/
def readWord (bytes : List UInt8) : Reading α :=
  match bytes.takeWhile isRegular, bytes.dropWhile isRegular with
  | [], [] => ⟨.ok (wordToken []), []⟩
  | [], b :: rest => ⟨.ok (wordToken [b]), rest⟩
  | text, rest => ⟨.ok (wordToken text), rest⟩

/-- The parts of a number: its sign, the digits before the point, and those after it if there is a
point. -/
structure NumberText where
  negative : Bool
  whole : List UInt8
  places : Option (List UInt8)

/-- Takes a sign off the front of the bytes. -/
def takeSign : List UInt8 → Bool × List UInt8
  | 0x2D :: rest => (true, rest)
  | 0x2B :: rest => (false, rest)
  | rest => (false, rest)

/-- Takes digits, and a point with the digits behind it, off the front of the bytes. -/
def takeDigits (bytes : List UInt8) : List UInt8 × Option (List UInt8) × List UInt8 :=
  match bytes.dropWhile isDigit with
  | 0x2E :: rest =>
    (bytes.takeWhile isDigit, some (rest.takeWhile isDigit), rest.dropWhile isDigit)
  | rest => (bytes.takeWhile isDigit, none, rest)

/-- Takes a number off the front of the bytes. -/
def takeNumber (bytes : List UInt8) : NumberText × List UInt8 :=
  let (negative, unsigned) := takeSign bytes
  let (whole, places, rest) := takeDigits unsigned
  (⟨negative, whole, places⟩, rest)

/-- How many digits a number has. -/
def NumberText.digitCount (n : NumberText) : Nat := n.whole.length + (n.places.getD []).length

/-- A number with a sign. -/
def signed [Neg α] (negative : Bool) (x : α) : α := if negative then -x else x

/-- The token of a number: whole numbers outside sixty-four bits are reals. -/
def NumberText.token [Scalar α] (n : NumberText) : Token α :=
  match n.places with
  | some places =>
    .real (signed n.negative
      (OfScientific.ofScientific (decimal (n.whole ++ places)) true places.length))
  | none =>
    let value : Int := if n.negative then -(decimal n.whole : Int) else decimal n.whole
    if Int64.minValue.toInt ≤ value ∧ value ≤ Int64.maxValue.toInt then .integer (.ofInt value)
    else .real (signed n.negative (OfScientific.ofScientific (decimal n.whole) false 0))

/-- Reads a number, or a bare word when the bytes are not one number up to the next blank or
delimiter. -/
def readNumber [Scalar α] (bytes : List UInt8) : Reading α :=
  let (number, rest) := takeNumber bytes
  if number.digitCount = 0 then readWord bytes
  else if rest.head?.any isRegular then readWord bytes
  else ⟨.ok number.token, rest⟩

/-- The byte that an escape stands for, if any, and the bytes after the escape; `bytes` begin
behind the backslash. -/
def readEscape : List UInt8 → Option UInt8 × List UInt8
  | [] => (none, [])
  | 0x0D :: 0x0A :: rest => (none, rest)
  | b :: rest =>
    if isLineEnd b then (none, rest)
    else if b = 0x6E then (some 0x0A, rest)
    else if b = 0x72 then (some 0x0D, rest)
    else if b = 0x74 then (some 0x09, rest)
    else if b = 0x62 then (some 0x08, rest)
    else if b = 0x66 then (some 0x0C, rest)
    else
      match octalDigit? b with
      | none => (some b, rest)
      | some d => let (value, rest) := octal 2 d rest; (some value, rest)
where
  /-- Up to so many more octal digits. -/
  octal : Nat → UInt8 → List UInt8 → UInt8 × List UInt8
    | more + 1, value, b :: rest =>
      match octalDigit? b with
      | some d => octal more (value * 8 + d) rest
      | none => (value, b :: rest)
    | _, value, rest => (value, rest)

theorem readEscape_octal_length (more : Nat) (value : UInt8) (bytes : List UInt8) :
    (readEscape.octal more value bytes).2.length ≤ bytes.length := by
  induction more generalizing value bytes with
  | zero => simp [readEscape.octal]
  | succ more ih =>
    cases bytes with
    | nil => simp [readEscape.octal]
    | cons b rest =>
      simp only [readEscape.octal]
      split
      · exact Nat.le_succ_of_le (ih _ _)
      · simp

theorem readEscape_length (bytes : List UInt8) :
    (readEscape bytes).2.length ≤ bytes.length := by
  fun_cases readEscape bytes
  case case10 rest _ _ _ _ _ _ _ d _ _ _ h =>
    have := readEscape_octal_length 2 d rest
    rw [h] at this
    simpa using Nat.le_succ_of_le this
  case case2 => simp; omega
  all_goals simp

/-- The bytes of a literal string and the bytes after its closing parenthesis; `bytes` begin
inside `depth` open parentheses. -/
def readLiteral (depth : Nat) (bytes : List UInt8) : Option (List UInt8 × List UInt8) :=
  match bytes with
  | [] => none
  | b :: rest =>
    if b = 0x29 then
      if depth ≤ 1 then some ([], rest)
      else (readLiteral (depth - 1) rest).map fun (s, r) => (b :: s, r)
    else if b = 0x28 then (readLiteral (depth + 1) rest).map fun (s, r) => (b :: s, r)
    else if b = 0x5C then
      (readLiteral depth (readEscape rest).2).map fun (s, r) =>
        ((readEscape rest).1.toList ++ s, r)
    else (readLiteral depth rest).map fun (s, r) => (b :: s, r)
termination_by bytes.length
decreasing_by
  all_goals have := readEscape_length rest
  all_goals simp only [List.length_cons]
  all_goals omega

/-- The result of reading hexadecimal digits. -/
inductive HexReading
  | closed (nibbles : List UInt8) (rest : List UInt8)
  | bad (offset : Nat) (byte : UInt8) (rest : List UInt8)
  | unterminated

/-- Reads hexadecimal digits up to the closing bracket; blanks between them are ignored. -/
def readHex (offset : Nat) : List UInt8 → HexReading
  | [] => .unterminated
  | b :: rest =>
    if b = 0x3E then .closed [] rest
    else if isBlank b then readHex (offset + 1) rest
    else
      match hexDigit? b with
      | none => .bad offset b ((rest.dropWhile (· != 0x3E)).drop 1)
      | some d =>
        match readHex (offset + 1) rest with
        | .closed nibbles rest => .closed (d :: nibbles) rest
        | other => other

/-- Two digits to a byte; a last digit alone is followed by a zero. -/
def joinNibbles : List UInt8 → List UInt8
  | high :: low :: rest => (high <<< 4 ||| low) :: joinNibbles rest
  | [high] => [high <<< 4]
  | [] => []

/-- Reads a string in angle brackets; `bytes` begin behind the opening one. -/
def readHexString (bytes : List UInt8) : Reading α :=
  match readHex 1 bytes with
  | .closed nibbles rest => ⟨.ok (.string (joinNibbles nibbles)), rest⟩
  | .bad offset byte rest => ⟨.error (.badDigit offset byte), rest⟩
  | .unterminated => ⟨.error .unterminated, []⟩

/-- Reads a string in parentheses; `bytes` begin behind the opening one. -/
def readLiteralString (bytes : List UInt8) : Reading α :=
  match readLiteral 1 bytes with
  | some (text, rest) => ⟨.ok (.string text), rest⟩
  | none => ⟨.error .unterminated, []⟩

/-- Reads a name; `bytes` begin behind the slash. -/
def readName (bytes : List UInt8) : Reading α :=
  ⟨.ok (.name (Utf8.decode (unescapeName (bytes.takeWhile isRegular)))),
    bytes.dropWhile isRegular⟩

/-- Reads the token that starts with the first byte. -/
def readToken [Scalar α] (b : UInt8) (rest : List UInt8) : Reading α :=
  if b = 0x2F then readName rest
  else if b = 0x28 then readLiteralString rest
  else if b = 0x3C then
    match rest with
    | 0x3C :: rest => ⟨.ok .dictionaryOpen, rest⟩
    | rest => readHexString rest
  else if b = 0x3E ∧ rest.head? = some 0x3E then ⟨.ok .dictionaryClose, rest.drop 1⟩
  else if b = 0x5B then ⟨.ok .arrayOpen, rest⟩
  else if b = 0x5D then ⟨.ok .arrayClose, rest⟩
  else if b = 0x2B ∨ b = 0x2D ∨ b = 0x2E ∨ isDigit b then readNumber (b :: rest)
  else readWord (b :: rest)

/-- The first token of the bytes; nothing when only blanks and comments remain. -/
def next? [Scalar α] (bytes : List UInt8) : Option (Reading α) :=
  match skipBlanks bytes with
  | [] => none
  | b :: rest => some (readToken b rest)

theorem skipBlanksFrom_length (comment : Bool) (bytes : List UInt8) :
    (skipBlanksFrom comment bytes).length ≤ bytes.length := by
  fun_induction skipBlanksFrom comment bytes <;> simp <;> omega

theorem dropWhile_length (p : UInt8 → Bool) (bytes : List UInt8) :
    (bytes.dropWhile p).length ≤ bytes.length :=
  (List.dropWhile_sublist p).length_le

theorem readWord_length (b : UInt8) (rest : List UInt8) :
    (readWord (α := α) (b :: rest)).rest.length < (b :: rest).length := by
  by_cases h : isRegular b = true
  · have := dropWhile_length isRegular rest
    simp only [readWord, List.takeWhile_cons_of_pos h, List.dropWhile_cons_of_pos h]
    simpa using Nat.lt_succ_of_le this
  · simp [readWord, h]

theorem takeSign_length (bytes : List UInt8) : (takeSign bytes).2.length ≤ bytes.length := by
  fun_cases takeSign bytes <;> simp

theorem takeDigits_length (bytes : List UInt8) :
    (takeDigits bytes).1.length + ((takeDigits bytes).2.1.getD []).length +
      (takeDigits bytes).2.2.length ≤ bytes.length := by
  have split (bytes : List UInt8) :
      (bytes.takeWhile isDigit).length + (bytes.dropWhile isDigit).length = bytes.length := by
    rw [← List.length_append, List.takeWhile_append_dropWhile]
  have h := split bytes
  fun_cases takeDigits bytes
  case case1 rest e =>
    have := split rest
    simp only [e, List.length_cons, Option.getD_some] at h ⊢
    omega
  case case2 => simpa using Nat.le_of_eq h

theorem takeNumber_length (bytes : List UInt8) :
    (takeNumber bytes).1.digitCount + (takeNumber bytes).2.length ≤ bytes.length :=
  Nat.le_trans (takeDigits_length (takeSign bytes).2) (takeSign_length bytes)

theorem readNumber_length [Scalar α] (b : UInt8) (rest : List UInt8) :
    (readNumber (α := α) (b :: rest)).rest.length < (b :: rest).length := by
  have h := takeNumber_length (b :: rest)
  fun_cases readNumber (α := α) (b :: rest)
  case case3 number rest' e hcount _ => simp_all; omega
  all_goals exact readWord_length b rest

theorem readLiteral_length (depth : Nat) (bytes : List UInt8) {r : List UInt8 × List UInt8}
    (h : readLiteral depth bytes = some r) : r.2.length < bytes.length := by
  fun_induction readLiteral depth bytes generalizing r
  case case1 => simp at h
  case case2 => simp at h; subst h; simp
  case case5 rest _ _ ih =>
    obtain ⟨q, hq, rfl⟩ := Option.map_eq_some_iff.1 h
    have := readEscape_length rest
    have := ih hq
    simp only [List.length_cons]
    omega
  all_goals
    next ih =>
      obtain ⟨q, hq, rfl⟩ := Option.map_eq_some_iff.1 h
      have := ih hq
      exact Nat.lt_succ_of_lt this

/-- The bytes after a hexadecimal string. -/
def HexReading.rest : HexReading → List UInt8
  | .closed _ rest => rest
  | .bad _ _ rest => rest
  | .unterminated => []

theorem readHex_length (offset : Nat) (bytes : List UInt8) :
    (readHex offset bytes).rest.length ≤ bytes.length := by
  fun_induction readHex offset bytes
  case case4 b rest _ _ _ =>
    have := dropWhile_length (· != 0x3E) rest
    simp only [HexReading.rest, List.length_drop, List.length_cons]
    omega
  case case5 e ih => simp only [e, HexReading.rest, List.length_cons] at ih ⊢; omega
  all_goals simp_all [HexReading.rest]
  all_goals omega

theorem readToken_length [Scalar α] (b : UInt8) (rest : List UInt8) :
    (readToken (α := α) b rest).rest.length < (b :: rest).length := by
  have word := readWord_length (α := α) b rest
  have number := readNumber_length (α := α) b rest
  unfold readToken
  split
  · exact Nat.lt_succ_of_le (dropWhile_length _ _)
  split
  · unfold readLiteralString
    split
    · next h => exact Nat.lt_succ_of_lt (readLiteral_length _ _ h)
    · simp
  split
  · split
    · simp only [List.length_cons]; omega
    · have h := readHex_length 1 rest
      unfold readHexString
      split
      · next e =>
        rw [e] at h
        exact Nat.lt_succ_of_le h
      · next e =>
        rw [e] at h
        exact Nat.lt_succ_of_le h
      · simp
  split
  · simp only [List.length_drop, List.length_cons]; omega
  repeat' split
  all_goals first | assumption | simp

/-- Every token takes at least one byte. -/
theorem next?_length [Scalar α] {bytes : List UInt8} {r : Reading α} (h : next? bytes = some r) :
    r.rest.length < bytes.length := by
  have blanks := skipBlanksFrom_length false bytes
  unfold next? skipBlanks at h
  split at h
  · simp at h
  · next b rest e =>
    rw [e] at blanks
    obtain rfl := Option.some.inj h
    exact Nat.lt_of_lt_of_le (readToken_length b rest) blanks

/-- Do the bytes begin with an `EI` between a blank, the byte before them, and a blank or the
end? -/
def endsInline (last : Option UInt8) : List UInt8 → Bool
  | 0x45 :: 0x49 :: after => last.any isBlank && after.head?.all isBlank
  | _ => false

/-- Splits the bytes at the first `EI` between blanks; `last` is the byte before `bytes`. The blank
before `EI` belongs to neither part. -/
def splitInlineEnd (last : Option UInt8) : List UInt8 → List UInt8 × List UInt8
  | [] => (last.toList, [])
  | b :: rest =>
    if endsInline last (b :: rest) then ([], rest.drop 1)
    else
      let (data, remaining) := splitInlineEnd (some b) rest
      (last.toList ++ data, remaining)

/-- The data of an inline image and the bytes after its `EI`; `bytes` begin behind the keyword
`ID`, which one blank separates from the data. -/
def inlineData (bytes : List UInt8) : List UInt8 × List UInt8 :=
  match bytes with
  | b :: rest => if isBlank b then splitInlineEnd none rest else splitInlineEnd none bytes
  | [] => ([], [])

end PageSvg.Content
