import PageSvg.Content.Operations
import PageSvg.Proofs.Keyed
import PageSvg.Proofs.Content.Spelling

/-!
# Reading back a content stream

Operations are written as the tokens of their operands and their operator, each token in any of its
spellings after a gap. Reading such bytes takes the tokens in turn (`operationsFrom_follows`), and
the tokens of an operand leave the operand on what has been collected (`collects_tokens`), so the
operations come back.
-/

namespace PageSvg

open Content

variable {α : Type}

namespace Operand

mutual

/-- The tokens that write an operand. -/
def tokens : Operand α → List (Token α)
  | null => [.null]
  | bool value => [.bool value]
  | integer value => [.integer value]
  | real value => [.real value]
  | string bytes => [.string bytes]
  | name text => [.name text]
  | array items => .arrayOpen :: (itemTokens items ++ [.arrayClose])
  | dictionary entries => .dictionaryOpen :: (entryTokens entries ++ [.dictionaryClose])

/-- The tokens that write several operands. -/
def itemTokens : List (Operand α) → List (Token α)
  | [] => []
  | item :: rest => tokens item ++ itemTokens rest

/-- The tokens that write the keys and values of a dictionary. -/
def entryTokens : List (String × Operand α) → List (Token α)
  | [] => []
  | (key, value) :: rest => .name key :: (tokens value ++ entryTokens rest)

end

/-- An operand without reals, whose dictionaries repeat no key. -/
inductive Plain : Operand α → Prop
  | null : Plain .null
  | bool (value : Bool) : Plain (.bool value)
  | integer (value : Int64) : Plain (.integer value)
  | string (bytes : List UInt8) : Plain (.string bytes)
  | name (text : String) : Plain (.name text)
  | array {items : List (Operand α)} (h : ∀ item ∈ items, Plain item) : Plain (.array items)
  | dictionary {entries : List (String × Operand α)} (hkeys : (Keyed.keys entries).Nodup)
      (h : ∀ entry ∈ entries, Plain entry.2) : Plain (.dictionary entries)

/-- An operand whose dictionaries repeat no key. -/
inductive Proper : Operand α → Prop
  | null : Proper .null
  | bool (value : Bool) : Proper (.bool value)
  | integer (value : Int64) : Proper (.integer value)
  | real (value : α) : Proper (.real value)
  | string (bytes : List UInt8) : Proper (.string bytes)
  | name (text : String) : Proper (.name text)
  | array {items : List (Operand α)} (h : ∀ item ∈ items, Proper item) : Proper (.array items)
  | dictionary {entries : List (String × Operand α)} (hkeys : (Keyed.keys entries).Nodup)
      (h : ∀ entry ∈ entries, Proper entry.2) : Proper (.dictionary entries)

theorem Plain.proper {operand : Operand α} (h : operand.Plain) : operand.Proper := by
  induction h with
  | null => exact .null
  | bool value => exact .bool value
  | integer value => exact .integer value
  | string bytes => exact .string bytes
  | name text => exact .name text
  | array _ ih => exact .array ih
  | dictionary hkeys _ ih => exact .dictionary hkeys ih

theorem itemTokens_eq (items : List (Operand α)) : itemTokens items = items.flatMap tokens := by
  induction items with
  | nil => rfl
  | cons item rest ih => rw [itemTokens, ih, List.flatMap_cons]

theorem entryTokens_eq (entries : List (String × Operand α)) :
    entryTokens entries = entries.flatMap fun entry => .name entry.1 :: tokens entry.2 := by
  induction entries with
  | nil => rfl
  | cons entry rest ih => rw [entryTokens, ih, List.flatMap_cons, List.cons_append]

/-- The keys and values of a dictionary in one list. -/
def itemsOf (entries : List (String × Operand α)) : List (Operand α) :=
  entries.flatMap fun (key, value) => [.name key, value]

theorem pairs_itemsOf (entries : List (String × Operand α)) :
    pairs (itemsOf entries) = entries := by
  induction entries with
  | nil => rfl
  | cons entry rest ih =>
    show (entry.1, entry.2) :: pairs (itemsOf rest) = entry :: rest
    rw [ih]

end Operand

theorem Keyed.ofPairs_of_nodup {β : Type} {entries : Keyed β} (h : (Keyed.keys entries).Nodup) :
    Keyed.ofPairs entries = entries := by
  have hfold (before after : Keyed β) (h : (Keyed.keys (before ++ after)).Nodup) :
      after.foldl (fun entries entry => entries.insert entry.1 entry.2) before =
        before ++ after := by
    induction after generalizing before with
    | nil => rw [List.append_nil]; rfl
    | cons entry rest ih =>
      obtain ⟨key, value⟩ := entry
      -- No key is among those inserted before it.
      have hnew : key ∉ Keyed.keys before := by
        rw [Keyed.keys_append, Keyed.keys_cons] at h
        exact fun hmem => (List.nodup_append.1 h).2.2 key hmem key List.mem_cons_self rfl
      have hinsert : before.insert key value = before ++ [(key, value)] :=
        Keyed.insert_of_notMem hnew
      rw [List.append_cons, ← hinsert] at h ⊢
      exact ih _ h
  exact hfold [] entries h

/-- The tokens that write an operation. -/
def Operation.tokens (op : Operation α) : List (Token α) :=
  Operand.itemTokens op.operands ++ [.keyword op.operator]

/-- A keyword after operands without reals. -/
structure Operation.Plain (op : Operation α) : Prop where
  operator : PlainWord op.operator
  operands : ∀ operand ∈ op.operands, operand.Plain

/-- The tokens that write a content stream. -/
def ContentStream.tokens (ops : ContentStream α) : List (Token α) := ops.flatMap Operation.tokens

namespace Content

/-! ### Written tokens -/

/-- The tokens, each after a gap that is not empty. -/
inductive Follows : List (Token α) → List UInt8 → Prop
  | done {gap : List UInt8} (hgap : Gap gap) : Follows [] gap
  | token {t : Token α} {tokens : List (Token α)} {gap s rest : List UInt8} (hgap : Gap gap)
      (hne : gap ≠ []) (hs : Spells t s) (h : Follows tokens rest) :
      Follows (t :: tokens) (gap ++ (s ++ rest))

/-- The tokens with gaps between them; before the first one there may be none. -/
inductive Written : List (Token α) → List UInt8 → Prop
  | afterGap {tokens : List (Token α)} {bytes : List UInt8} (h : Follows tokens bytes) :
      Written tokens bytes
  | atStart {t : Token α} {tokens : List (Token α)} {s rest : List UInt8} (hs : Spells t s)
      (h : Follows tokens rest) : Written (t :: tokens) (s ++ rest)

theorem Follows.breaks {tokens : List (Token α)} {bytes : List UInt8} (h : Follows tokens bytes) :
    Breaks bytes := by
  cases h with
  | done hgap =>
    by_cases hne : bytes = []
    · rw [hne]; rfl
    · have hbreaks := hgap.breaks [] hne
      rwa [List.append_nil] at hbreaks
  | token hgap hne _ _ => exact hgap.breaks _ hne

/-- The operations that tokens lead to. -/
def assemble (c : Collected α) : List (Token α) → ContentStream α
  | [] => []
  | t :: tokens =>
    match c.step t with
    | .collect next => assemble next tokens
    | .operation op next => op :: assemble next tokens
    | .inlineImage _ => []

/-- No token begins an inline image. -/
theorem Collected.step_cases {c : Collected α} {t : Token α} {s : List UInt8} (hs : Spells t s)
    (hc : c.inInlineImage = false) :
    (∃ next, c.step t = .collect next ∧ next.inInlineImage = false) ∨
      ∃ op, c.step t = .operation op {} := by
  have hpush (c : Collected α) (operand : Operand α) (hc : c.inInlineImage = false) :
      (c.push operand).inInlineImage = false := by
    fun_cases Collected.push c operand <;> exact hc
  -- Only a keyword outside of all brackets ends an operation, and `BI` is reserved.
  cases hs with
  | arrayClose =>
    refine .inl ⟨_, rfl, ?_⟩
    unfold Collected.closeArray
    split
    · exact hpush _ _ hc
    · exact hc
  | dictionaryClose =>
    refine .inl ⟨_, rfl, ?_⟩
    unfold Collected.closeDictionary
    split
    · exact hpush _ _ hc
    · exact hc
  | @keyword text h =>
    have himage : text ≠ "BI" := by
      rintro rfl
      exact h.reserved (by decide)
    by_cases hopen : (!c.frames.isEmpty) = true
    · refine .inl ⟨c, ?_, hc⟩
      rw [Collected.step, Collected.keyword, if_pos hopen]
    · refine .inr ⟨⟨text, c.operands⟩, ?_⟩
      rw [Collected.step, Collected.keyword, if_neg hopen, if_neg himage, hc]
      rfl
  | arrayOpen => exact .inl ⟨_, rfl, hc⟩
  | dictionaryOpen => exact .inl ⟨_, rfl, hc⟩
  | _ => exact .inl ⟨_, rfl, hpush _ _ hc⟩

section Reading

variable [Scalar α] {c : Collected α} {bytes : List UInt8}

theorem operationsFrom_none (h : next? (α := α) bytes = none) : operationsFrom c bytes = [] := by
  rw [operationsFrom]
  split
  · rfl
  · next e => cases h.symm.trans e
  · next e => cases h.symm.trans e

theorem operationsFrom_token {t : Token α} {rest : List UInt8}
    (h : next? bytes = some ⟨.ok t, rest⟩) :
    operationsFrom c bytes =
      match c.step t with
      | .collect next => operationsFrom next rest
      | .operation op next => op :: operationsFrom next rest
      | .inlineImage entries =>
        ⟨"EI", [.dictionary entries, .string (inlineData rest).1]⟩ ::
          operationsFrom {} (inlineData rest).2 := by
  rw [operationsFrom]
  split
  · next e => cases h.symm.trans e
  · next e => cases h.symm.trans e
  · next e =>
    cases h.symm.trans e
    rfl

theorem operationsFrom_fault {defect : Defect} {rest : List UInt8}
    (h : next? (α := α) bytes = some ⟨.error defect, rest⟩) :
    operationsFrom c bytes = operationsFrom c rest := by
  rw [operationsFrom]
  split
  · next e => cases h.symm.trans e
  · next e =>
    cases h.symm.trans e
    rfl
  · next e => cases h.symm.trans e

/-- A gap in front of the bytes changes nothing. -/
theorem operationsFrom_gap {gap : List UInt8} (h : Gap gap) :
    operationsFrom c (gap ++ bytes) = operationsFrom c bytes := by
  have hnext : next? (α := α) (gap ++ bytes) = next? bytes := by
    rw [next?, next?, skipBlanks_gap _ h]
  rcases h : next? (α := α) bytes with _ | ⟨defect | t, rest⟩
  · rw [operationsFrom_none h, operationsFrom_none (hnext.trans h)]
  · rw [operationsFrom_fault h, operationsFrom_fault (hnext.trans h)]
  · rw [operationsFrom_token h, operationsFrom_token (hnext.trans h)]

theorem operationsFrom_spelling {t : Token α} {tokens : List (Token α)} {gap s rest : List UInt8}
    (hc : c.inInlineImage = false) (hgap : Gap gap) (hs : Spells t s) (hrest : Breaks rest)
    (ih : ∀ {c : Collected α}, c.inInlineImage = false →
      operationsFrom c rest = assemble c tokens) :
    operationsFrom c (gap ++ (s ++ rest)) = assemble c (t :: tokens) := by
  rw [operationsFrom_token (next?_spelling hgap hs hrest), assemble]
  rcases c.step_cases hs hc with ⟨next, hstep, hnext⟩ | ⟨op, hstep⟩
  · simp only [hstep, ih hnext]
  · have hempty := ih (c := {}) rfl
    simp only [hstep, hempty]

/-- **Written tokens are taken in turn**, whichever spellings and gaps were chosen. -/
theorem operationsFrom_follows {tokens : List (Token α)} (hc : c.inInlineImage = false)
    (h : Follows tokens bytes) : operationsFrom c bytes = assemble c tokens := by
  -- By induction on what is written: what follows a token breaks off the token before.
  induction h generalizing c with
  | done hgap => exact operationsFrom_none (next?_gap hgap)
  | token hgap _ hs h ih => exact operationsFrom_spelling hc hgap hs h.breaks ih

theorem operations_eq_assemble {tokens : List (Token α)} (h : Written tokens bytes) :
    operations bytes = assemble {} tokens := by
  cases h with
  | afterGap h => exact operationsFrom_follows rfl h
  | atStart hs h =>
    have hread := operationsFrom_spelling (c := {}) rfl Gap.nil hs h.breaks fun hc =>
      operationsFrom_follows hc h
    exact hread

end Reading

/-! ### Tokens of operands -/

section Assembly

variable (c : Collected α)

/-- Adds operands to the innermost open array or dictionary, or to the operands. -/
def Collected.pushAll (items : List (Operand α)) : Collected α :=
  match c.frames with
  | .array before :: outer => { c with frames := .array (before ++ items) :: outer }
  | .dictionary before :: outer => { c with frames := .dictionary (before ++ items) :: outer }
  | [] => { c with operands := c.operands ++ items }

theorem foldl_push (items : List (Operand α)) :
    items.foldl Collected.push c = c.pushAll items := by
  induction items generalizing c with
  | nil =>
    rcases c with ⟨operands, _ | ⟨before | before, outer⟩, image⟩ <;> simp [Collected.pushAll]
  | cons item rest ih =>
    rw [List.foldl_cons, ih]
    rcases c with ⟨operands, _ | ⟨before | before, outer⟩, image⟩ <;>
      simp [Collected.pushAll, Collected.push]

theorem ofItems_itemsOf {entries : List (String × Operand α)} (h : (Keyed.keys entries).Nodup) :
    Operand.ofItems (Operand.itemsOf entries) = entries := by
  rw [Operand.ofItems, Operand.pairs_itemsOf, Keyed.ofPairs_of_nodup h]

/-- All of the tokens are collected. -/
inductive Collects : Collected α → List (Token α) → Collected α → Prop
  | nil {c : Collected α} : Collects c [] c
  | cons {c d e : Collected α} {t : Token α} {tokens : List (Token α)} (h : c.step t = .collect d)
      (more : Collects d tokens e) : Collects c (t :: tokens) e

variable {c}

theorem Collects.append {d e : Collected α} {tokens more : List (Token α)}
    (h : Collects c tokens d) (hmore : Collects d more e) : Collects c (tokens ++ more) e := by
  induction h with
  | nil => exact hmore
  | cons hstep _ ih => exact .cons hstep (ih hmore)

theorem Collects.assemble {d : Collected α} {tokens : List (Token α)} (h : Collects c tokens d)
    (more : List (Token α)) : assemble c (tokens ++ more) = Content.assemble d more := by
  induction h with
  | nil => rfl
  | cons hstep _ ih => rw [List.cons_append, Content.assemble, hstep, ← ih]

variable (c)

/-- The tokens of an operand leave the operand on what has been collected. -/
def Leaves (operand : Operand α) : Prop :=
  ∀ c : Collected α, Collects c operand.tokens (c.push operand)

theorem collects_itemTokens {items : List (Operand α)} (h : ∀ item ∈ items, Leaves item) :
    Collects c (Operand.itemTokens items) (c.pushAll items) := by
  rw [← foldl_push]
  induction items generalizing c with
  | nil => exact .nil
  | cons item rest ih =>
    obtain ⟨hitem, hrest⟩ := List.forall_mem_cons.1 h
    exact (hitem c).append (ih _ hrest)

theorem collects_entryTokens {entries : List (String × Operand α)}
    (h : ∀ entry ∈ entries, Leaves entry.2) :
    Collects c (Operand.entryTokens entries) (c.pushAll (Operand.itemsOf entries)) := by
  rw [← foldl_push]
  induction entries generalizing c with
  | nil => exact .nil
  | cons entry rest ih =>
    obtain ⟨key, value⟩ := entry
    obtain ⟨hvalue, hrest⟩ := List.forall_mem_cons.1 h
    exact .cons rfl ((hvalue (c.push (.name key))).append (ih _ hrest))

theorem collects_tokens {operand : Operand α} (h : operand.Proper) : Leaves operand := by
  induction h with
  | @array items _ ih =>
    intro c
    have hitems := collects_itemTokens { c with frames := .array [] :: c.frames } ih
    exact .cons rfl (hitems.append (.cons rfl .nil))
  | @dictionary entries hkeys _ ih =>
    intro c
    have hentries := collects_entryTokens { c with frames := .dictionary [] :: c.frames } ih
    have hclose : (Collected.pushAll { c with frames := .dictionary [] :: c.frames }
        (Operand.itemsOf entries)).closeDictionary = c.push (.dictionary entries) := by
      show c.push (.dictionary (Operand.ofItems (Operand.itemsOf entries))) = _
      rw [ofItems_itemsOf hkeys]
    exact .cons rfl (hentries.append (.cons (congrArg Step.collect hclose) .nil))
  | _ => exact fun _ => .cons rfl .nil

theorem assemble_operation {op : Operation α} (h : op.Plain) (more : List (Token α)) :
    assemble {} (op.tokens ++ more) = op :: assemble {} more := by
  have himage : op.operator ≠ "BI" := by
    intro e
    exact h.operator.reserved (by rw [e]; decide)
  have hoperands := collects_itemTokens {} fun operand hoperand =>
    collects_tokens (h.operands operand hoperand).proper
  rw [Operation.tokens, List.append_assoc, hoperands.assemble]
  have hstep : (⟨op.operands, [], false⟩ : Collected α).keyword op.operator = .operation op {} := by
    rw [Collected.keyword, if_neg (by simp), if_neg himage]
    rfl
  show assemble (⟨op.operands, [], false⟩ : Collected α) ([.keyword op.operator] ++ more) = _
  rw [List.singleton_append, assemble, Collected.step, hstep]

theorem assemble_stream {ops : ContentStream α} (h : ∀ op ∈ ops, op.Plain) :
    assemble {} ops.tokens = ops := by
  induction ops with
  | nil => rfl
  | cons op rest ih =>
    obtain ⟨hop, hrest⟩ := List.forall_mem_cons.1 h
    rw [ContentStream.tokens, List.flatMap_cons, assemble_operation hop]
    exact congrArg (op :: ·) (ih hrest)

end Assembly

/-! ### Spellings exist -/

theorem exists_hexDigit (value : UInt8) (h : value < 16) : ∃ d, hexDigit? d = some value := by
  have hall := forall_byte (p := fun value => value < 16 →
    ∃ n : Fin 256, hexDigit? (UInt8.ofFin n) = some value) (by decide +kernel)
  obtain ⟨n, hn⟩ := hall value h
  exact ⟨_, hn⟩

theorem exists_isHexPair (b : UInt8) : ∃ high low, IsHexPair b high low := by
  have hsmall := forall_byte (p := fun b => highNibble b < 16 ∧ lowNibble b < 16)
    (by decide) b
  obtain ⟨high, hhigh⟩ := exists_hexDigit _ hsmall.1
  obtain ⟨low, hlow⟩ := exists_hexDigit _ hsmall.2
  exact ⟨high, low, hhigh, hlow⟩

theorem exists_nameBody (bytes : List UInt8) : ∃ body, NameBody bytes body := by
  induction bytes with
  | nil => exact ⟨[], .nil⟩
  | cons b bytes ih =>
    obtain ⟨body, hbody⟩ := ih
    obtain ⟨high, low, hb⟩ := exists_isHexPair b
    exact ⟨_, .escaped hb hbody⟩

theorem exists_literalBody (bytes : List UInt8) : ∃ body, LiteralBody bytes body := by
  induction bytes with
  | nil => exact ⟨[], .nil⟩
  | cons b bytes ih =>
    obtain ⟨body, hbody⟩ := ih
    exact ⟨_, .octal hbody⟩

/-- Can the token be written? -/
def HasSpelling (t : Token α) : Prop := ∃ s, Spells t s

theorem hasSpelling_name (text : String) : HasSpelling (.name text : Token α) := by
  obtain ⟨body, hbody⟩ := exists_nameBody (Utf8.encode text)
  exact ⟨_, .name hbody⟩

theorem hasSpelling_operand {operand : Operand α} (h : operand.Plain) :
    ∀ t ∈ operand.tokens, HasSpelling t := by
  induction h with
  | null => exact List.forall_mem_singleton.2 ⟨_, .null⟩
  | bool value =>
    cases value with
    | true => exact List.forall_mem_singleton.2 ⟨_, .true⟩
    | false => exact List.forall_mem_singleton.2 ⟨_, .false⟩
  | integer value => exact List.forall_mem_singleton.2 ⟨_, .integer value⟩
  | string bytes =>
    obtain ⟨body, hbody⟩ := exists_literalBody bytes
    exact List.forall_mem_singleton.2 ⟨_, .literalString hbody⟩
  | name text => exact List.forall_mem_singleton.2 (hasSpelling_name text)
  | array _ ih =>
    intro t ht
    simp only [Operand.tokens, Operand.itemTokens_eq, List.mem_cons, List.mem_append,
      List.mem_flatMap, List.not_mem_nil, or_false] at ht
    rcases ht with rfl | ⟨item, hitem, ht⟩ | rfl
    · exact ⟨_, .arrayOpen⟩
    · exact ih item hitem t ht
    · exact ⟨_, .arrayClose⟩
  | dictionary _ _ ih =>
    intro t ht
    simp only [Operand.tokens, Operand.entryTokens_eq, List.mem_cons, List.mem_append,
      List.mem_flatMap, List.not_mem_nil, or_false] at ht
    rcases ht with rfl | ⟨entry, hentry, rfl | ht⟩ | rfl
    · exact ⟨_, .dictionaryOpen⟩
    · exact hasSpelling_name entry.1
    · exact ih entry hentry t ht
    · exact ⟨_, .dictionaryClose⟩

theorem hasSpelling_stream {ops : ContentStream α} (h : ∀ op ∈ ops, op.Plain) :
    ∀ t ∈ ops.tokens, HasSpelling t := by
  intro t ht
  obtain ⟨op, hop, ht⟩ := List.mem_flatMap.1 ht
  rw [Operation.tokens, Operand.itemTokens_eq, List.mem_append, List.mem_flatMap,
    List.mem_singleton] at ht
  rcases ht with ⟨operand, hoperand, ht⟩ | rfl
  · exact hasSpelling_operand ((h op hop).operands operand hoperand) t ht
  · exact ⟨_, .keyword (h op hop).operator⟩

theorem exists_follows {tokens : List (Token α)} (h : ∀ t ∈ tokens, HasSpelling t) :
    ∃ bytes, Follows tokens bytes := by
  induction tokens with
  | nil => exact ⟨[], .done .nil⟩
  | cons t rest ih =>
    obtain ⟨⟨s, hs⟩, hrest⟩ := List.forall_mem_cons.1 h
    obtain ⟨bytes, hbytes⟩ := ih hrest
    -- A single space is a gap.
    exact ⟨_, .token (.blank (b := 0x20) rfl .nil) (List.cons_ne_nil _ _) hs hbytes⟩

/-- **Reading undoes writing.** Plain operations can be written, and they are read back from
whatever bytes write them. -/
theorem operations_written [Scalar α] {ops : ContentStream α} (h : ∀ op ∈ ops, op.Plain) :
    (∃ bytes, Written ops.tokens bytes) ∧
      ∀ bytes, Written ops.tokens bytes → operations bytes = ops := by
  refine ⟨?_, fun bytes hbytes => ?_⟩
  · obtain ⟨bytes, hbytes⟩ := exists_follows (hasSpelling_stream h)
    exact ⟨bytes, .afterGap hbytes⟩
  · rw [operations_eq_assemble hbytes, assemble_stream h]

/-- A string and, behind a comment, a null in an array. -/
theorem operations_written_array :
    operations (word "[ (\\()%x\nnull ] Tj") =
      [(⟨"Tj", [.array [.string [0x28], .null]]⟩ : Operation Float)] := by
  have hword : PlainWord "Tj" :=
    ⟨by decide +kernel, by decide +kernel, by decide +kernel, by decide⟩
  have hplain : ∀ op ∈ [(⟨"Tj", [.array [.string [0x28], .null]]⟩ : Operation Float)], op.Plain :=
    List.forall_mem_singleton.2 ⟨hword, List.forall_mem_singleton.2
      (.array (List.forall_mem_cons.2 ⟨.string _, List.forall_mem_singleton.2 .null⟩))⟩
  have hspace : Gap [0x20] := .blank rfl .nil
  have hcomment : Gap (0x25 :: ([0x78] ++ [0x0A])) :=
    .comment (List.forall_mem_singleton.2 rfl) rfl .nil
  have hbytes : word "[ (\\()%x\nnull ] Tj" =
      [0x5B] ++ ([0x20] ++ (0x28 :: ([0x5C, 0x28] ++ [0x29]) ++
      (0x25 :: ([0x78] ++ [0x0A]) ++ (word "null" ++ ([0x20] ++ ([0x5D] ++ ([0x20] ++
        (Utf8.encode "Tj" ++ [])))))))) := by decide +kernel
  rw [hbytes]
  exact (operations_written hplain).2 _ (.atStart .arrayOpen
    (.token hspace (List.cons_ne_nil _ _) (.literalString (.short rfl .nil))
      (.token hcomment (List.cons_ne_nil _ _) .null
        (.token hspace (List.cons_ne_nil _ _) .arrayClose
          (.token hspace (List.cons_ne_nil _ _) (.keyword hword) (.done .nil))))))

end Content

end PageSvg
