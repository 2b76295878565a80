import Mathlib.Data.List.Induction
import Mathlib.Data.Prod.Lex
import PageSvg.Operator.Table
import PageSvg.Proofs.Keyed
import PageSvg.Proofs.Operator.Acceptance

/-!
# Which definition an operator takes

The candidates of an operator stand in the order of their ranks, and those of one rank in the order
of their definitions (`ranked_candidates`, `ofRank_candidates`). This determines them, so that a
call takes the accepting definition that comes first by rank and then by time, whatever the order in
which definitions of different ranks were made.
-/

namespace PageSvg

variable {α β : Type}

/-- What decides between shapes that accept the same operands: those with a fixed number of operands
come first, and among them, and among the variadic ones, the longer ones. -/
def Shape.rank (shape : Shape) : Bool ×ₗ ℕᵒᵈ :=
  toLex (shape.isVariadic, OrderDual.toDual shape.fixedCount)

/-! ### Candidates in the order of their ranks -/

namespace Candidate

variable {c d : Candidate β} {cs ds : List (Candidate β)} {r : Bool ×ₗ ℕᵒᵈ}

theorem precedes_iff : c.precedes d = true ↔ c.shape.rank < d.shape.rank := by
  simp only [precedes, Shape.rank, Prod.Lex.toLex_lt_toLex, OrderDual.toDual_lt_toDual]
  cases c.shape.isVariadic <;> cases d.shape.isVariadic <;> simp

/-- The candidates stand in the order of their ranks. -/
def Ranked (cs : List (Candidate β)) : Prop := cs.Pairwise fun c d => c.shape.rank ≤ d.shape.rank

/-- The candidates of a rank. -/
def ofRank (r : Bool ×ₗ ℕᵒᵈ) (cs : List (Candidate β)) : List (Candidate β) :=
  cs.filter (·.shape.rank = r)

theorem ofRank_cons : ofRank r (c :: cs) =
    if c.shape.rank = r then c :: ofRank r cs else ofRank r cs := by
  simp [ofRank, List.filter_cons]

theorem mem_iff_of_ofRank_eq (h : ∀ r, ofRank r cs = ofRank r ds) : c ∈ cs ↔ c ∈ ds := by
  have hc := congrArg (c ∈ ·) (h c.shape.rank)
  simpa [ofRank] using hc

theorem mem_insert : d ∈ c.insert cs ↔ d = c ∨ d ∈ cs := by
  induction cs with
  | nil => simp [insert]
  | cons e cs ih =>
    by_cases h : c.precedes e = true
    · simp [insert, h]
    · rw [insert, if_neg h, List.mem_cons, ih, List.mem_cons]
      tauto

theorem Ranked.insert (h : Ranked cs) (c : Candidate β) : Ranked (c.insert cs) := by
  induction cs with
  | nil => exact List.pairwise_singleton _ _
  | cons e cs ih =>
    obtain ⟨he, hcs⟩ := List.pairwise_cons.1 h
    by_cases hc : c.precedes e = true
    · have hlt := precedes_iff.1 hc
      rw [Candidate.insert, if_pos hc]
      refine List.pairwise_cons.2 ⟨fun d hd => ?_, h⟩
      rcases List.mem_cons.1 hd with rfl | hd
      · exact hlt.le
      · exact hlt.le.trans (he d hd)
    · rw [Candidate.insert, if_neg hc]
      refine List.pairwise_cons.2 ⟨fun d hd => ?_, ih hcs⟩
      rcases mem_insert.1 hd with rfl | hd
      · exact not_lt.1 fun hlt => hc (precedes_iff.2 hlt)
      · exact he d hd

/-- A new candidate comes behind those of its rank. -/
theorem Ranked.ofRank_insert (h : Ranked cs) (c : Candidate β) :
    ofRank r (c.insert cs) = ofRank r cs ++ ofRank r [c] := by
  induction cs with
  | nil => rfl
  | cons e cs ih =>
    obtain ⟨he, hcs⟩ := List.pairwise_cons.1 h
    by_cases hc : c.precedes e = true
    · rw [Candidate.insert, if_pos hc]
      by_cases hr : c.shape.rank = r
      · -- What stands behind the new candidate is of a higher rank.
        have hnone : ofRank r (e :: cs) = [] := by
          refine List.filter_eq_nil_iff.2 fun d hd => ?_
          have hlt : c.shape.rank < d.shape.rank := by
            rcases List.mem_cons.1 hd with rfl | hd
            · exact precedes_iff.1 hc
            · exact (precedes_iff.1 hc).trans_le (he d hd)
          simpa [← hr] using hlt.ne'
        rw [ofRank_cons, hnone, ofRank_cons]
        rfl
      · have hnone : ofRank r [c] = [] := by
          rw [ofRank_cons, if_neg hr]
          rfl
        rw [ofRank_cons, if_neg hr, hnone, List.append_nil]
    · rw [Candidate.insert, if_neg hc, ofRank_cons, ih hcs, ofRank_cons (c := e)]
      split_ifs
      · rw [List.cons_append]
      · rfl

/-- **Ranked candidates are determined by those of each rank.** -/
theorem Ranked.eq_of_ofRank_eq (h : Ranked cs) (h' : Ranked ds)
    (heq : ∀ r, ofRank r cs = ofRank r ds) : cs = ds := by
  induction cs generalizing ds with
  | nil =>
    cases ds with
    | nil => rfl
    | cons d ds => cases (mem_iff_of_ofRank_eq heq).2 (List.mem_cons_self (a := d))
  | cons c cs ih =>
    cases ds with
    | nil => cases (mem_iff_of_ofRank_eq heq).1 (List.mem_cons_self (a := c))
    | cons d ds =>
      obtain ⟨hc, hcs⟩ := List.pairwise_cons.1 h
      obtain ⟨hd, hds⟩ := List.pairwise_cons.1 h'
      -- Both first candidates are of the lowest rank, and the first of it.
      have hrank : c.shape.rank = d.shape.rank := by
        refine le_antisymm ?_ ?_
        · rcases List.mem_cons.1 ((mem_iff_of_ofRank_eq heq).2 List.mem_cons_self) with hd | hd
          · rw [hd]
          · exact hc d hd
        · rcases List.mem_cons.1 ((mem_iff_of_ofRank_eq heq).1 List.mem_cons_self) with hc | hc
          · rw [hc]
          · exact hd c hc
      obtain rfl : c = d := by
        have hfirst := heq c.shape.rank
        rw [ofRank_cons, ofRank_cons, if_pos rfl, if_pos hrank.symm] at hfirst
        exact (List.cons.inj hfirst).1
      have hrest (r : Bool ×ₗ ℕᵒᵈ) : ofRank r cs = ofRank r ds := by
        have hr := heq r
        rw [ofRank_cons, ofRank_cons] at hr
        split_ifs at hr
        · exact (List.cons.inj hr).2
        · exact hr
      rw [ih hcs hds hrest]

end Candidate

/-! ### Definitions -/

namespace OperatorTable

variable {definitions others : List (String × Shape × β)} {name : String} {r : Bool ×ₗ ℕᵒᵈ}

/-- The definitions of an operator for shapes of a rank. -/
def definitionsOf (name : String) (r : Bool ×ₗ ℕᵒᵈ) (definitions : List (String × Shape × β)) :
    List (String × Shape × β) :=
  definitions.filter fun d => d.1 = name ∧ d.2.1.rank = r

theorem candidates_define (table : OperatorTable β) (name : String) (shape : Shape) (action : β)
    (other : String) :
    candidates (define table name shape action) other =
      if other = name then Candidate.insert ⟨shape, action⟩ (candidates table name)
      else candidates table other := by
  unfold define candidates
  split_ifs with h
  · rw [h, Keyed.get?_insert_self]
    rfl
  · rw [Keyed.get?_insert_of_ne h]

theorem ofDefinitions_concat (definitions : List (String × Shape × β))
    (d : String × Shape × β) :
    ofDefinitions (definitions ++ [d]) = define (ofDefinitions definitions) d.1 d.2.1 d.2.2 := by
  unfold ofDefinitions
  rw [List.foldl_append]
  rfl

theorem ranked_candidates (definitions : List (String × Shape × β)) (name : String) :
    Candidate.Ranked (candidates (ofDefinitions definitions) name) := by
  induction definitions using List.reverseRecOn with
  | nil => exact .nil
  | append_singleton definitions d ih =>
    rw [ofDefinitions_concat, candidates_define]
    split_ifs with h
    · exact h ▸ ih.insert _
    · exact ih

/-- The candidates of a rank stand in the order of their definitions. -/
theorem ofRank_candidates (definitions : List (String × Shape × β)) (name : String) :
    Candidate.ofRank r (candidates (ofDefinitions definitions) name) =
      (definitionsOf name r definitions).map fun d => ⟨d.2.1, d.2.2⟩ := by
  induction definitions using List.reverseRecOn with
  | nil => rfl
  | append_singleton definitions d ih =>
    rw [ofDefinitions_concat, candidates_define, definitionsOf, List.filter_append, List.map_append]
    split_ifs with h
    · subst h
      rw [(ranked_candidates definitions d.1).ofRank_insert, ih, Candidate.ofRank_cons]
      by_cases hr : d.2.1.rank = r
      · simp [hr, definitionsOf, Candidate.ofRank]
      · simp [hr, definitionsOf, Candidate.ofRank]
    · rw [ih]
      simp [definitionsOf, Ne.symm h]

theorem mem_candidates_iff {c : Candidate β} :
    c ∈ candidates (ofDefinitions definitions) name ↔ (name, c.shape, c.action) ∈ definitions := by
  have hrank : c ∈ candidates (ofDefinitions definitions) name ↔
      c ∈ Candidate.ofRank c.shape.rank (candidates (ofDefinitions definitions) name) := by
    simp [Candidate.ofRank]
  rw [hrank, ofRank_candidates]
  simp only [definitionsOf, List.mem_map, List.mem_filter, decide_eq_true_eq]
  constructor
  · rintro ⟨⟨_, shape, action⟩, ⟨hd, rfl, -⟩, rfl⟩
    exact hd
  · exact fun hc => ⟨_, ⟨hc, rfl, rfl⟩, rfl⟩

/-- A candidate has a definition before which those of its rank were made that are tried before
it. -/
theorem exists_place {before after : List (Candidate β)} {c : Candidate β}
    (h : candidates (ofDefinitions definitions) name = before ++ c :: after) :
    ∃ place : Nat, definitions[place]? = some (name, c.shape, c.action) ∧
      ∀ other < place, ∀ (shape : Shape) (action : β),
        definitions[other]? = some (name, shape, action) → shape.rank = c.shape.rank →
        ⟨shape, action⟩ ∈ before := by
  have hsame := ofRank_candidates (r := c.shape.rank) definitions name
  rw [h, Candidate.ofRank, List.filter_append, List.filter_cons, if_pos (by simp), eq_comm,
    List.map_eq_append_iff] at hsame
  obtain ⟨l₁, l₂, hl, hbefore, hrest⟩ := hsame
  obtain ⟨d, l₂, rfl, rfl, -⟩ := List.map_eq_cons_iff.1 hrest
  obtain ⟨m₁, m₂, rfl, rfl, hd⟩ := List.filter_eq_append_iff.1 hl
  obtain ⟨k₁, k₂, rfl, hk₁, hd, -⟩ := List.filter_eq_cons_iff.1 hd
  simp only [decide_eq_true_eq] at hd hk₁
  refine ⟨(m₁ ++ k₁).length, ?_, fun other hother shape action hdefinition hrank => ?_⟩
  · rw [← List.append_assoc, List.getElem?_append_right le_rfl, Nat.sub_self, List.getElem?_cons_zero,
      ← hd.1]
  · rw [← List.append_assoc, List.getElem?_append_left hother] at hdefinition
    rcases List.mem_append.1 (List.mem_of_getElem? hdefinition) with hm | hk
    · refine List.mem_of_mem_filter (p := (·.shape.rank = d.2.1.rank)) ?_
      rw [← hbefore]
      exact List.mem_map.2 ⟨_, List.mem_filter.2 ⟨hm, by simpa using hrank⟩, rfl⟩
    · exact absurd ⟨rfl, hrank⟩ (hk₁ _ hk)

/-! ### The first candidate that accepts -/

section Calls

variable [Scalar α] {operands : List (Operand α)} {cs : List (Candidate β)} {action : β}
  {args : Arguments α}

theorem firstAccepting_eq_none_iff :
    firstAccepting operands cs = none ↔ ∀ c ∈ cs, c.shape.accept operands = none := by
  induction cs with
  | nil => simp [firstAccepting]
  | cons c cs ih =>
    cases h : c.shape.accept operands with
    | none => simp [firstAccepting, h, ih]
    | some args => simp [firstAccepting, h]

theorem firstAccepting_eq_some (h : firstAccepting operands cs = some (action, args)) :
    ∃ before c after, cs = before ++ c :: after ∧ c.action = action ∧
      c.shape.accept operands = some args ∧ ∀ b ∈ before, b.shape.accept operands = none := by
  induction cs with
  | nil => cases h
  | cons c cs ih =>
    unfold firstAccepting at h
    cases haccept : c.shape.accept operands with
    | some _ =>
      rw [haccept] at h
      cases h
      exact ⟨[], c, cs, rfl, rfl, haccept, by simp⟩
    | none =>
      rw [haccept] at h
      obtain ⟨before, d, after, rfl, haction, hargs, hbefore⟩ := ih h
      exact ⟨c :: before, d, after, rfl, haction, hargs, List.forall_mem_cons.2 ⟨haccept, hbefore⟩⟩

/-- When a definition is tried: by its rank, and then by its place among the definitions. -/
def turn (shape : Shape) (place : Nat) : (Bool ×ₗ ℕᵒᵈ) ×ₗ ℕ := toLex (shape.rank, place)

/-- The definition at a place accepts the operands, and its turn comes before that of all others of
the same operator that do. -/
def Takes (definitions : List (String × Shape × β)) (name : String) (operands : List (Operand α))
    (place : Nat) (action : β) (args : Arguments α) : Prop :=
  ∃ shape, definitions[place]? = some (name, shape, action) ∧
    shape.accept operands = some args ∧
    ∀ (other : Nat) (shape' : Shape) (action' : β) (args' : Arguments α), other ≠ place →
      definitions[other]? = some (name, shape', action') → shape'.accept operands = some args' →
      turn shape place < turn shape' other

theorem resolve_eq_none_iff :
    resolve (ofDefinitions definitions) name operands = none ↔
      ∀ shape action, (name, shape, action) ∈ definitions → shape.accept operands = none := by
  rw [resolve, firstAccepting_eq_none_iff]
  constructor
  · exact fun h shape action hd => h ⟨shape, action⟩ (mem_candidates_iff.2 hd)
  · exact fun h c hc => h c.shape c.action (mem_candidates_iff.1 hc)

/-- A call takes the accepting definition that is tried first. -/
theorem exists_takes
    (h : resolve (ofDefinitions definitions) name operands = some (action, args)) :
    ∃ place, Takes definitions name operands place action args := by
  obtain ⟨before, c, after, hsplit, rfl, hargs, hbefore⟩ := firstAccepting_eq_some h
  obtain ⟨place, hplace, hearlier⟩ := exists_place hsplit
  have hranked := ranked_candidates definitions name
  rw [hsplit] at hranked
  refine ⟨place, c.shape, hplace, hargs, fun other shape' action' args' hne hother haccept => ?_⟩
  have hlater {d : Candidate β} (hd : d ∈ after) : c.shape.rank ≤ d.shape.rank :=
    (List.pairwise_cons.1 (List.pairwise_append.1 hranked).2.1).1 d hd
  have hnotBefore : (⟨shape', action'⟩ : Candidate β) ∉ before := by
    intro hmem
    rw [hbefore _ hmem] at haccept
    cases haccept
  have hrank : c.shape.rank ≤ shape'.rank := by
    have hmem := mem_candidates_iff (c := ⟨shape', action'⟩).2 (List.mem_of_getElem? hother)
    rw [hsplit] at hmem
    rcases List.mem_append.1 hmem with hmem | hmem
    · exact absurd hmem hnotBefore
    · rcases List.mem_cons.1 hmem with rfl | hmem
      · exact le_rfl
      · exact hlater hmem
  refine Prod.Lex.toLex_lt_toLex.2 ?_
  rcases hrank.lt_or_eq with hlt | heq
  · exact .inl hlt
  · refine .inr ⟨heq, lt_of_not_ge fun hle => hnotBefore ?_⟩
    exact hearlier other (lt_of_le_of_ne hle hne) shape' action' hother heq.symm

/-- Definitions of different ranks may be made in any order. -/
theorem candidates_congr
    (h : ∀ r, definitionsOf name r others = definitionsOf name r definitions) :
    candidates (ofDefinitions others) name = candidates (ofDefinitions definitions) name := by
  refine (ranked_candidates others name).eq_of_ofRank_eq (ranked_candidates definitions name) ?_
  intro r
  rw [ofRank_candidates, ofRank_candidates, h]

/-- **A call invokes the definition that is tried first among those that accept its operands**,
once, and nothing if there is none; definitions of different ranks may be made in any order. A shape
accepts the operands that fit it, and the accessor of each parameter reads its argument. -/
theorem dispatch_first_accepting {m : Type → Type} [Monad m] (invoke : β → Arguments α → m Unit)
    {definitions : List (String × Shape × β)} (h : ∀ d ∈ definitions, d.2.1.InOrder)
    (name : String) (operands : List (Operand α)) :
    ((∃ place action args, Takes definitions name operands place action args ∧
        dispatch (ofDefinitions definitions) invoke name operands =
          (do invoke action args; return true)) ∨
      (∀ d ∈ definitions, d.1 = name → ¬d.2.1.Fits operands) ∧
        dispatch (ofDefinitions definitions) invoke name operands = return false) ∧
    (∀ d ∈ definitions,
      ((∃ args, d.2.1.accept operands = some args) ↔ d.2.1.Fits operands) ∧
      ∀ args, d.2.1.accept operands = some args →
        args.length = d.2.1.length ∧ ∀ (i : Nat) (p : Parameter), d.2.1[i]? = some p →
          ∃ a, p.argument? (operands.drop i) = some a ∧ args.Reads i p a) ∧
    ∀ others, (∀ r, definitionsOf name r others = definitionsOf name r definitions) →
      dispatch (ofDefinitions others) invoke name operands =
        dispatch (ofDefinitions definitions) invoke name operands := by
  refine ⟨?_, fun d hd => ⟨Shape.exists_accept_iff (h d hd), fun args hargs =>
    Shape.reads_of_accept (h d hd) hargs⟩, fun others hothers => ?_⟩
  · cases hresolved : resolve (ofDefinitions definitions) name operands with
    | some resolved =>
      obtain ⟨action, args⟩ := resolved
      obtain ⟨place, htakes⟩ := exists_takes hresolved
      refine .inl ⟨place, action, args, htakes, ?_⟩
      rw [dispatch, hresolved]
    | none =>
      refine .inr ⟨?_, by rw [dispatch, hresolved]⟩
      rintro ⟨_, shape, action⟩ hd rfl hfits
      obtain ⟨args, hargs⟩ := (Shape.exists_accept_iff (h _ hd)).2 hfits
      rw [resolve_eq_none_iff.1 hresolved shape action hd] at hargs
      cases hargs
  · unfold dispatch resolve
    rw [candidates_congr hothers]

/-- A name is a pattern before it is one of any operands, whichever was defined first. -/
theorem dispatch_first_accepting_pattern :
    let definitions : List (String × Shape × Nat) :=
      [("scn", [.rest], 0), ("scn", [.restNumbers], 1), ("scn", [.name], 2)]
    let operands : List (Operand Float) := [.name "P"]
    let invoke (i : Nat) (_ : Arguments Float) : StateM (List Nat) Unit := modify (· ++ [i])
    (∀ d ∈ definitions, d.2.1.InOrder) ∧
    (∃ place action args, Takes definitions "scn" operands place action args ∧
      dispatch (ofDefinitions definitions) invoke "scn" operands =
        (do invoke action args; return true)) ∧
    dispatch (ofDefinitions [("scn", [.name], 2), ("scn", [.rest], 0), ("scn", [.restNumbers], 1)])
        invoke "scn" operands =
      dispatch (ofDefinitions definitions) invoke "scn" operands := by
  intro definitions operands invoke
  have horder : ∀ d ∈ definitions, d.2.1.InOrder := by decide
  have hfirst := dispatch_first_accepting invoke horder "scn" operands
  refine ⟨horder, hfirst.1.resolve_right fun hnone => ?_, hfirst.2.2 _ fun r => ?_⟩
  · refine hnone.1 ("scn", [.name], 2) (by decide) rfl ?_
    exact (Shape.exists_accept_iff (by decide)).1 ⟨[.name "P"], rfl⟩
  · by_cases hr : Shape.rank [.name] = r
    · subst hr
      decide
    · simp [definitionsOf, definitions, List.filter_cons, hr]

end Calls

end OperatorTable

end PageSvg
