import PageSvg.Scene.Markup
import PageSvg.Proofs.Keyed

/-!
# A reader of markup

Markup is read as tags, character content and sections. Names are those of the standard, attribute
values stand in double quotes, entities stand for the characters that markup is made of, and a
section is taken as it is. The tokens then build the tree, one open element inside the other: an end
tag closes the element that it names, and white space has a meaning only between attributes.
-/

namespace PageSvg.Markup

/-! ### Names -/

/-- The ranges of characters beyond ASCII that a name may begin with. -/
def nameStartRanges : List (Nat × Nat) :=
  [(0xC0, 0xD6), (0xD8, 0xF6), (0xF8, 0x2FF), (0x370, 0x37D), (0x37F, 0x1FFF), (0x200C, 0x200D),
    (0x2070, 0x218F), (0x2C00, 0x2FEF), (0x3001, 0xD7FF), (0xF900, 0xFDCF), (0xFDF0, 0xFFFD),
    (0x10000, 0xEFFFF)]

/-- The ranges of characters beyond ASCII that a name may go on with besides. -/
def nameRanges : List (Nat × Nat) := [(0xB7, 0xB7), (0x300, 0x36F), (0x203F, 0x2040)]

/-- Is the character in one of the ranges? -/
def inRanges (ranges : List (Nat × Nat)) (c : Char) : Bool :=
  ranges.any fun (low, high) => low ≤ c.toNat && c.toNat ≤ high

/-- May a name begin with the character? -/
def isNameStart (c : Char) : Bool := c.isAlpha || c == ':' || c == '_' || inRanges nameStartRanges c

/-- May a name go on with the character? -/
def isNameChar (c : Char) : Bool :=
  isNameStart c || c.isDigit || c == '-' || c == '.' || inRanges nameRanges c

/-- Is the text a name? -/
def isName (s : String) : Bool :=
  match s.toList with
  | [] => false
  | c :: rest => isNameStart c && rest.all isNameChar

/-- The name at the front. -/
def name? (s : List Char) : Option (String × List Char) :=
  let name := String.ofList (s.takeWhile isNameChar)
  if isName name then some (name, s.dropWhile isNameChar) else none

/-! ### Character content -/

/-- The character of an entity, after the ampersand. -/
def entity? : List Char → Option (Char × List Char)
  | 'a' :: 'm' :: 'p' :: ';' :: rest => some ('&', rest)
  | 'l' :: 't' :: ';' :: rest => some ('<', rest)
  | 'g' :: 't' :: ';' :: rest => some ('>', rest)
  | 'q' :: 'u' :: 'o' :: 't' :: ';' :: rest => some ('"', rest)
  | _ => none

/-- The character at the front, which may be written as an entity. -/
def character? : List Char → Option (Char × List Char)
  | [] => none
  | c :: rest => if c = '&' then entity? rest else some (c, rest)

theorem entity?_length {s rest : List Char} {c : Char} (h : entity? s = some (c, rest)) :
    rest.length < s.length := by
  unfold entity? at h
  split at h <;> cases h <;> simp only [List.length_cons] <;> omega

theorem character?_length {s rest : List Char} {c : Char} (h : character? s = some (c, rest)) :
    rest.length < s.length := by
  cases s with
  | nil => cases h
  | cons d s =>
    rw [character?] at h
    split_ifs at h
    · exact Nat.lt_succ_of_lt (entity?_length h)
    · cases h
      exact Nat.lt_succ_self _

/-- Characters with their entities decoded. -/
def decode? (s : List Char) : Option (List Char) :=
  match _h : character? s with
  | some (c, rest) => (decode? rest).map (c :: ·)
  | none => if s.isEmpty then some [] else none
termination_by s.length
decreasing_by exact character?_length _h

/-- The text of a section up to its end. -/
def verbatim? : List Char → Option (List Char × List Char)
  | [] => none
  | c :: rest =>
    match List.dropPrefix? (c :: rest) [']', ']', '>'] with
    | some rest => some ([], rest)
    | none => (verbatim? rest).map fun (text, rest) => (c :: text, rest)

/-! ### Tags -/

/-- White space. -/
def isBlank (c : Char) : Bool := c == ' ' || c == '\t' || c == '\n' || c == '\r'

/-- The value of an attribute, after the opening quote. -/
def value? (s : List Char) : Option (String × List Char) :=
  match s.dropWhile (· != '"') with
  | [] => none
  | _ :: rest =>
    let text := s.takeWhile (· != '"')
    if text.contains '<' then none else (decode? text).map fun value => (String.ofList value, rest)

/-- An attribute after white space. -/
def attribute? (s : List Char) : Option ((String × String) × List Char) :=
  match s with
  | [] => none
  | c :: rest =>
    if isBlank c then do
      let (name, rest) ← name? (rest.dropWhile isBlank)
      let rest ← rest.dropPrefix? ['=', '"']
      let (value, rest) ← value? rest
      return ((name, value), rest)
    else none

theorem name?_length {s rest : List Char} {name : String} (h : name? s = some (name, rest)) :
    rest.length ≤ s.length := by
  unfold name? at h
  dsimp only at h
  split_ifs at h
  cases h
  exact (List.dropWhile_suffix _).length_le

theorem value?_length {s rest : List Char} {value : String} (h : value? s = some (value, rest)) :
    rest.length < s.length := by
  unfold value? at h
  split at h
  · cases h
  · next c rest' hdrop =>
    dsimp only at h
    split_ifs at h
    obtain ⟨_, _, hpair⟩ := Option.map_eq_some_iff.1 h
    cases hpair
    have hsuffix := (List.dropWhile_suffix (l := s) (· != '"')).length_le
    rw [hdrop, List.length_cons] at hsuffix
    exact hsuffix

theorem attribute?_length {s rest : List Char} {attr : String × String}
    (h : attribute? s = some (attr, rest)) : rest.length < s.length := by
  cases s with
  | nil => cases h
  | cons c s =>
    simp only [attribute?] at h
    split_ifs at h
    obtain ⟨⟨name, s₁⟩, hname, h⟩ := Option.bind_eq_some_iff.1 h
    obtain ⟨s₂, hmark, h⟩ := Option.bind_eq_some_iff.1 h
    obtain ⟨⟨value, s₃⟩, hvalue, h⟩ := Option.bind_eq_some_iff.1 h
    cases h
    have hblank := (List.dropWhile_suffix (l := s) isBlank).length_le
    have hname := name?_length hname
    obtain ⟨before, rfl, _⟩ := List.dropPrefix?_eq_some_iff.1 hmark
    have hvalue := value?_length hvalue
    rw [List.length_append] at hname
    show s₃.length < s.length + 1
    omega

/-- The attributes at the front. -/
def attributes (s : List Char) : List (String × String) × List Char :=
  match _h : attribute? s with
  | some (attr, rest) => (attr :: (attributes rest).1, (attributes rest).2)
  | none => ([], s)
termination_by s.length
decreasing_by all_goals exact attribute?_length _h

/-! ### Tokens -/

/-- What markup is made of. -/
inductive Token
  | start (tag : String) (attrs : List (String × String))
  /-- The tag of an element without content. -/
  | whole (tag : String) (attrs : List (String × String))
  | stop (tag : String)
  /-- Character content, decoded, or a section. -/
  | text (s : List Char)
  deriving DecidableEq, Repr

/-- A start tag, or a tag of an element without content, after its angle bracket. No
attribute may be repeated. -/
def startTag? (s : List Char) : Option (Token × List Char) := do
  let (tag, rest) ← name? s
  let (attrs, rest) := attributes rest
  if !(decide (Keyed.keys attrs).Nodup) then none
  else
    match rest.dropWhile isBlank with
    | '>' :: rest => some (.start tag attrs, rest)
    | '/' :: '>' :: rest => some (.whole tag attrs, rest)
    | _ => none

/-- An end tag after its slash. -/
def endTag? (s : List Char) : Option (Token × List Char) := do
  let (tag, rest) ← name? s
  let rest ← (rest.dropWhile isBlank).dropPrefix? ['>']
  return (.stop tag, rest)

/-- The token at the front. -/
def token? (s : List Char) : Option (Token × List Char) :=
  match s with
  | '<' :: '/' :: rest => endTag? rest
  | '<' :: '!' :: rest => do
    let rest ← rest.dropPrefix? ['[', 'C', 'D', 'A', 'T', 'A', '[']
    let (text, rest) ← verbatim? rest
    return (.text text, rest)
  | '<' :: rest => startTag? rest
  | s => do
    let text ← decode? (s.takeWhile (· != '<'))
    return (.text text, s.dropWhile (· != '<'))

theorem attributes_length (s : List Char) : (attributes s).2.length ≤ s.length := by
  fun_induction attributes s with
  | case1 s attr rest h ih => exact Nat.le_trans ih (Nat.le_of_lt (attribute?_length h))
  | case2 s => exact Nat.le_refl _

theorem startTag?_length {s rest : List Char} {t : Token} (h : startTag? s = some (t, rest)) :
    rest.length < s.length := by
  obtain ⟨⟨tag, s₁⟩, htag, h⟩ := Option.bind_eq_some_iff.1 h
  have htag := name?_length htag
  have hattrs := attributes_length s₁
  have hblank := (List.dropWhile_suffix (l := (attributes s₁).2) isBlank).length_le
  dsimp only at h
  split_ifs at h
  split at h
  · next heq =>
    cases h
    rw [heq, List.length_cons] at hblank
    omega
  · next heq =>
    cases h
    rw [heq, List.length_cons, List.length_cons] at hblank
    omega
  · cases h

theorem endTag?_length {s rest : List Char} {t : Token} (h : endTag? s = some (t, rest)) :
    rest.length ≤ s.length := by
  obtain ⟨⟨tag, s₁⟩, htag, h⟩ := Option.bind_eq_some_iff.1 h
  obtain ⟨s₂, hmark, h⟩ := Option.bind_eq_some_iff.1 h
  cases h
  obtain ⟨before, hbefore, _⟩ := List.dropPrefix?_eq_some_iff.1 hmark
  have hblank := (List.dropWhile_suffix (l := s₁) isBlank).length_le
  rw [hbefore, List.length_append] at hblank
  have htag := name?_length htag
  omega

theorem verbatim?_length {s rest text : List Char} (h : verbatim? s = some (text, rest)) :
    rest.length ≤ s.length := by
  fun_induction verbatim? s generalizing text with
  | case1 => cases h
  | case2 c s rest' hmark =>
    cases h
    obtain ⟨before, hbefore, _⟩ := List.dropPrefix?_eq_some_iff.1 hmark
    rw [hbefore, List.length_append]
    omega
  | case3 c s _ ih =>
    obtain ⟨⟨text', rest'⟩, hsection, hpair⟩ := Option.map_eq_some_iff.1 h
    cases hpair
    exact Nat.le_succ_of_le (ih hsection)

theorem token?_length {c : Char} {s rest : List Char} {t : Token}
    (h : token? (c :: s) = some (t, rest)) : rest.length < (c :: s).length := by
  unfold token? at h
  split at h
  · next s' heq =>
    have hrest := endTag?_length h
    rw [heq, List.length_cons, List.length_cons]
    omega
  · next s' heq =>
    obtain ⟨s₁, hmark, h⟩ := Option.bind_eq_some_iff.1 h
    obtain ⟨⟨text, s₂⟩, hsection, h⟩ := Option.bind_eq_some_iff.1 h
    cases h
    obtain ⟨before, rfl, _⟩ := List.dropPrefix?_eq_some_iff.1 hmark
    have hsection := verbatim?_length hsection
    rw [heq, List.length_cons, List.length_cons, List.length_append]
    omega
  · next s' _ _ heq =>
    have hrest := startTag?_length h
    rw [heq, List.length_cons]
    omega
  · next hopen =>
    obtain ⟨text, _, h⟩ := Option.bind_eq_some_iff.1 h
    cases h
    have hc : (c != '<') = true := bne_iff_ne.2 fun e => hopen s (by rw [e])
    rw [List.dropWhile_cons, if_pos hc]
    exact Nat.lt_succ_of_le (List.dropWhile_suffix _).length_le

/-- All tokens. -/
def tokens? : List Char → Option (List Token)
  | [] => some []
  | c :: s =>
    match _h : token? (c :: s) with
    | some (t, rest) => (tokens? rest).map (t :: ·)
    | none => none
termination_by s => s.length
decreasing_by exact token?_length _h

/-! ### Trees -/

/-- An element whose end tag is still to come. -/
structure OpenElement where
  tag : String
  attrs : List (String × String)
  children : List Node := []
  text : List Char := []

namespace OpenElement

/-- The element with one more child. -/
def push (e : OpenElement) (child : Node) : OpenElement :=
  { e with children := e.children ++ [child] }

/-- The element with more text. -/
def write (e : OpenElement) (text : List Char) : OpenElement := { e with text := e.text ++ text }

/-- The element at its end tag: without characters beside its children it has no text. -/
def close (e : OpenElement) : Node where
  tag := e.tag
  attrs := e.attrs
  children := e.children
  text := if e.text.isEmpty && !e.children.isEmpty then none else some (String.ofList e.text)

end OpenElement

/-- What has been built: the innermost open element with those around it, or the tree. -/
inductive Progress
  | before
  | inside (e : OpenElement) (outer : List OpenElement)
  | done (root : Node)

namespace Progress

/-- What is left when an element is closed: those around it. -/
def outside : List OpenElement → Progress
  | [] => before
  | e :: outer => inside e outer

/-- Adds an element to the innermost open one. -/
def add (p : Progress) (n : Node) : Option Progress :=
  match p with
  | before => some (done n)
  | inside e outer => some (inside (e.push n) outer)
  | done _ => none

/-- Opens an element in the innermost open one. -/
def enter (p : Progress) (e : OpenElement) : Option Progress :=
  match p with
  | before => some (inside e [])
  | inside e' outer => some (inside e (e' :: outer))
  | done _ => none

/-- The effect of a token. Text and end tags need an open element. -/
def step (p : Progress) : Token → Option Progress
  | .start tag attrs => p.enter { tag, attrs }
  | .whole tag attrs => p.add { tag, attrs }
  | .stop tag =>
    match p with
    | inside e outer => if e.tag = tag then (outside outer).add e.close else none
    | _ => none
  | .text s =>
    match p with
    | inside e outer => some (inside (e.write s) outer)
    | _ => none

/-- The tree, if it is complete. -/
def root? : Progress → Option Node
  | done root => some root
  | _ => none

end Progress

/-- The tree of a document element. -/
def read? (s : List Char) : Option Node := do
  let tokens ← tokens? s
  let p ← tokens.foldlM Progress.step .before
  p.root?

end PageSvg.Markup
