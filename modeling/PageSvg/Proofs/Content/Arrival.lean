import PageSvg.Proofs.Content.RoundTrip

/-!
# Arriving inside a content stream

Reading a content stream is a sequence of turns, and it can be looked at between any two of them:
some operations are complete, something has been collected, and some bytes are left. What comes
after depends on these two alone (`Arrives.operationsFrom`), and in the end nothing is left
(`exists_arrives`).
-/

namespace PageSvg.Content

variable {α : Type} [Scalar α]

/-- From some collected operands and bytes, reading completes these operations and arrives at others
and the bytes left. -/
inductive Arrives :
    Collected α → List UInt8 → ContentStream α → Collected α → List UInt8 → Prop
  | here {c : Collected α} {bytes : List UInt8} : Arrives c bytes [] c bytes
  | fault {c d : Collected α} {bytes more rest : List UInt8} {ops : ContentStream α}
      {defect : Defect} (h : next? (α := α) bytes = some ⟨.error defect, more⟩)
      (hmore : Arrives c more ops d rest) : Arrives c bytes ops d rest
  | collect {c d e : Collected α} {bytes more rest : List UInt8} {ops : ContentStream α}
      {t : Token α} (h : next? bytes = some ⟨.ok t, more⟩) (hstep : c.step t = .collect e)
      (hmore : Arrives e more ops d rest) : Arrives c bytes ops d rest
  | operation {c d e : Collected α} {bytes more rest : List UInt8} {ops : ContentStream α}
      {t : Token α} {op : Operation α} (h : next? bytes = some ⟨.ok t, more⟩)
      (hstep : c.step t = .operation op e) (hmore : Arrives e more ops d rest) :
      Arrives c bytes (op :: ops) d rest
  | inlineImage {c d : Collected α} {bytes more rest : List UInt8} {ops : ContentStream α}
      {t : Token α} {entries : Keyed (Operand α)} (h : next? bytes = some ⟨.ok t, more⟩)
      (hstep : c.step t = .inlineImage entries)
      (hmore : Arrives {} (inlineData more).2 ops d rest) :
      Arrives c bytes (⟨"EI", [.dictionary entries, .string (inlineData more).1]⟩ :: ops) d rest

variable {c d : Collected α} {bytes rest : List UInt8}

theorem Arrives.operationsFrom {ops : ContentStream α} (h : Arrives c bytes ops d rest) :
    operationsFrom c bytes = ops ++ Content.operationsFrom d rest := by
  induction h with
  | here => rfl
  | fault h _ ih => rw [operationsFrom_fault h, ih]
  | collect h hstep _ ih => rw [operationsFrom_token h, hstep, ← ih]
  | operation h hstep _ ih => rw [operationsFrom_token h, hstep, List.cons_append, ← ih]
  | inlineImage h hstep _ ih => rw [operationsFrom_token h, hstep, List.cons_append, ← ih]

/-- Reading arrives at the end of every content stream, with all of its operations. -/
theorem exists_arrives (c : Collected α) (bytes : List UInt8) :
    ∃ d rest, Arrives c bytes (Content.operationsFrom c bytes) d rest ∧
      next? (α := α) rest = none := by
  fun_induction Content.operationsFrom c bytes with
  | case1 c bytes h => exact ⟨c, bytes, .here, h⟩
  | case2 c bytes defect rest h ih =>
    obtain ⟨d, left, harrives, hend⟩ := ih
    exact ⟨d, left, .fault h harrives, hend⟩
  | case3 c bytes t rest h next hstep ih =>
    obtain ⟨d, left, harrives, hend⟩ := ih
    exact ⟨d, left, .collect h hstep harrives, hend⟩
  | case4 c bytes t rest h op next hstep ih =>
    obtain ⟨d, left, harrives, hend⟩ := ih
    exact ⟨d, left, .operation h hstep harrives, hend⟩
  | case5 c bytes t rest h entries hstep ih =>
    obtain ⟨d, left, harrives, hend⟩ := ih
    exact ⟨d, left, .inlineImage h hstep harrives, hend⟩

/-- The bytes are read as the tokens in turn, up to a gap before the rest. -/
inductive Lexes : List (Token α) → List UInt8 → List UInt8 → Prop
  | done {gap rest : List UInt8} (hgap : Gap gap) : Lexes [] (gap ++ rest) rest
  | token {t : Token α} {tokens : List (Token α)} {bytes more rest : List UInt8}
      (h : next? bytes = some ⟨.ok t, more⟩) (hmore : Lexes tokens more rest) :
      Lexes (t :: tokens) bytes rest

/-- Reading arrives behind tokens that are all collected. -/
theorem Lexes.arrives {tokens : List (Token α)} (h : Lexes tokens bytes rest)
    (hc : Collects c tokens d) : ∃ gap, Gap gap ∧ Arrives c bytes [] d (gap ++ rest) := by
  induction h generalizing c with
  | done hgap =>
    cases hc
    exact ⟨_, hgap, .here⟩
  | token hnext _ ih =>
    cases hc with
    | cons hstep hmore =>
      obtain ⟨gap, hgap, harrives⟩ := ih hmore
      exact ⟨gap, hgap, .collect hnext hstep harrives⟩

theorem Lexes.operationsFrom {tokens : List (Token α)} (h : Lexes tokens bytes rest)
    (hc : Collects c tokens d) : operationsFrom c bytes = Content.operationsFrom d rest := by
  obtain ⟨gap, hgap, harrives⟩ := h.arrives hc
  rw [harrives.operationsFrom, List.nil_append, operationsFrom_gap hgap]

end PageSvg.Content
