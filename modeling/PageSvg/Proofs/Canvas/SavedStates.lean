import PageSvg.Proofs.Canvas.Stopping

/-!
# Saved graphics states

Only two operators touch the saved states: one puts the state in force on top, the other takes the
top state and does nothing when there is none. All other operations leave them alone, whatever they
draw and whatever the content inside them does with states of its own. So content in which each
restored state was saved in it leaves alone what was saved before, and between saving and restoring
it leaves the graphics state alone as well.
-/

namespace PageSvg

open Draw

variable {α : Type} [Scalar α]

/-- The operator that an operation executes; none if the operation is skipped. -/
def Operation.executed? (op : Operation α) : Option Operator :=
  (Operator.table.resolve op.operator op.operands).map (·.1)

namespace ContentStream

/-- How many operations save the graphics state. -/
def saves (content : ContentStream α) : Nat :=
  content.countP fun op => op.executed? == some .save

/-- How many operations go back to a saved graphics state. -/
def restores (content : ContentStream α) : Nat :=
  content.countP fun op => op.executed? == some .restore

/-- Each state that the content goes back to was saved in it, and it goes back to all of them. -/
structure Balanced (content : ContentStream α) : Prop where
  before : ∀ before : ContentStream α, before <+: content → before.restores ≤ before.saves
  total : content.restores = content.saves

/-- How many saved states there are after some content, from their number before it. -/
def height (content : ContentStream α) (start : Nat) : Nat :=
  content.foldl (fun n op =>
    match op.executed? with
    | some .save => n + 1
    | some .restore => n - 1
    | _ => n) start

end ContentStream

/-! ### Operations -/

section Operations

variable {env : Environment α} {op : Operation α} {c d : Canvas α} {b : Bool}

theorem execute_save (hop : op.executed? = some .save) : execute env op c = .ok true c.save := by
  obtain ⟨⟨operator, args⟩, hresolved, hsave⟩ := Option.map_eq_some_iff.1 hop
  unfold execute OperatorTable.dispatch
  rw [hresolved]
  cases hsave
  rfl

theorem execute_restore (hop : op.executed? = some .restore) :
    execute env op c = .ok true c.restore := by
  obtain ⟨⟨operator, args⟩, hresolved, hrestore⟩ := Option.map_eq_some_iff.1 hop
  unfold execute OperatorTable.dispatch
  rw [hresolved]
  cases hrestore
  rfl

theorem Canvas.saved_restore (c : Canvas α) : c.restore.context.saved = c.context.saved.tail := by
  unfold restore
  split
  · next hnil => rw [hnil]; rfl
  · next hcons =>
    rw [hcons]
    dsimp only
    split <;> rfl

/-- What an operation does to the saved states. -/
theorem saved_execute (h : env.Heeds) (hrun : execute env op c = .ok b d) :
    op.executed? = some .save ∧ d.context.saved = c.graphics :: c.context.saved ∨
    op.executed? = some .restore ∧ d.context.saved = c.context.saved.tail ∨
    (op.executed? ≠ some .save ∧ op.executed? ≠ some .restore) ∧
      d.context.saved = c.context.saved := by
  by_cases hsave : op.executed? = some .save
  · rw [execute_save hsave] at hrun
    cases hrun
    exact .inl ⟨hsave, rfl⟩
  · by_cases hrestore : op.executed? = some .restore
    · rw [execute_restore hrestore] at hrun
      cases hrun
      exact .inr (.inl ⟨hrestore, c.saved_restore⟩)
    · refine .inr (.inr ⟨⟨hsave, hrestore⟩, ?_⟩)
      unfold execute OperatorTable.dispatch at hrun
      unfold Operation.executed? at hsave hrestore
      cases hresolved : Operator.table.resolve op.operator op.operands with
      | none =>
        rw [hresolved] at hrun
        cases hrun
        rfl
      | some resolved =>
        obtain ⟨operator, args⟩ := resolved
        rw [hresolved] at hrun hsave hrestore
        have hperform := ends_perform h args (fun e => hsave (congrArg some e))
          (fun e => hrestore (congrArg some e)) c
        dsimp only at hrun
        rw [bind_apply] at hrun
        cases hop : operator.perform env args c with
        | ok _ e =>
          rw [hop] at hrun
          cases hrun
          exact ((ends_of_ok hop).1 hperform).saved
        | error fault e =>
          rw [hop] at hrun
          cases hrun

theorem executeAll_append (env : Environment α) (before after : ContentStream α) :
    executeAll env (before ++ after) = (do executeAll env before; executeAll env after) := by
  induction before with
  | nil => rfl
  | cons op rest ih =>
    simp only [List.cons_append, executeAll, ih, bind_assoc]

end Operations

/-! ### Counting -/

section Counting

variable {op : Operation α} {rest : ContentStream α}

@[simp] theorem ContentStream.saves_cons : ContentStream.saves (op :: rest) =
    ContentStream.saves rest + if op.executed? = some .save then 1 else 0 := by
  simp [ContentStream.saves, List.countP_cons]

@[simp] theorem ContentStream.restores_cons : ContentStream.restores (op :: rest) =
    ContentStream.restores rest + if op.executed? = some .restore then 1 else 0 := by
  simp [ContentStream.restores, List.countP_cons]

end Counting

/-! ### Runs -/

section Runs

variable {env : Environment α} (h : env.Heeds) {content : ContentStream α} {c d : Canvas α}

include h

/-- The states below `base` are left alone by content that goes back to no more states than lie
above `base` or were saved in it. -/
theorem saved_executeAll {inner base : List (GraphicsState α)}
    (hsaved : c.context.saved = inner ++ base)
    (hbefore : ∀ before : ContentStream α, before <+: content →
      before.restores ≤ inner.length + before.saves)
    (hrun : executeAll env content c = .ok () d) :
    ∃ inner', d.context.saved = inner' ++ base ∧
      inner'.length + content.restores = inner.length + content.saves := by
  induction content generalizing c inner with
  | nil =>
    cases hrun
    exact ⟨inner, hsaved, rfl⟩
  | cons op rest ih =>
    obtain ⟨-, b, e, hop, hrest⟩ := executeAll_cons_ok hrun
    have hprefix (before : ContentStream α) (hb : before <+: rest) :=
      hbefore (op :: before) (List.cons_prefix_cons.2 ⟨rfl, hb⟩)
    obtain ⟨hsave, he⟩ | ⟨hrestore, he⟩ | ⟨⟨hsave, hrestore⟩, he⟩ := saved_execute h hop
    · have hinner : e.context.saved = (c.graphics :: inner) ++ base :=
        he.trans (congrArg (c.graphics :: ·) hsaved)
      have hlater (before : ContentStream α) (hb : before <+: rest) :
          before.restores ≤ (c.graphics :: inner).length + before.saves := by
        have hcount := hprefix before hb
        simp [hsave] at hcount ⊢
        omega
      obtain ⟨inner', hd, hlength⟩ := ih hinner hlater hrest
      refine ⟨inner', hd, ?_⟩
      simp [hsave] at hlength ⊢
      omega
    · cases inner with
      | nil =>
        have hone := hprefix [] List.nil_prefix
        simp [hrestore, ContentStream.saves] at hone
      | cons g inner =>
        have hinner : e.context.saved = inner ++ base := he.trans (congrArg List.tail hsaved)
        have hlater (before : ContentStream α) (hb : before <+: rest) :
            before.restores ≤ inner.length + before.saves := by
          have hcount := hprefix before hb
          simp [hrestore] at hcount
          omega
        obtain ⟨inner', hd, hlength⟩ := ih hinner hlater hrest
        refine ⟨inner', hd, ?_⟩
        simp [hrestore]
        omega
    · have hlater (before : ContentStream α) (hb : before <+: rest) :
          before.restores ≤ inner.length + before.saves := by
        simpa [hsave, hrestore] using hprefix before hb
      obtain ⟨inner', hd, hlength⟩ := ih (he.trans hsaved) hlater hrest
      exact ⟨inner', hd, by simpa [hsave, hrestore] using hlength⟩

/-- Balanced content leaves all saved states as they were. -/
theorem saved_executeAll_balanced (hbalanced : content.Balanced)
    (hrun : executeAll env content c = .ok () d) : d.context.saved = c.context.saved := by
  have hnil : c.context.saved = [] ++ c.context.saved := rfl
  obtain ⟨inner, hsaved, hlength⟩ := saved_executeAll h hnil
    (fun before hb => (Nat.zero_add _).symm ▸ hbalanced.before before hb) hrun
  have htotal := hbalanced.total
  rw [List.length_nil] at hlength
  have hnone : inner = [] := List.eq_nil_of_length_eq_zero (by omega)
  rw [hsaved, hnone, List.nil_append]

theorem length_saved_executeAll (hrun : executeAll env content c = .ok () d) :
    d.context.saved.length = content.height c.context.saved.length := by
  induction content generalizing c with
  | nil =>
    cases hrun
    rfl
  | cons op rest ih =>
    obtain ⟨-, b, e, hop, hrest⟩ := executeAll_cons_ok hrun
    have hlater : d.context.saved.length = ContentStream.height rest e.context.saved.length :=
      ih hrest
    rw [hlater]
    unfold ContentStream.height
    rw [List.foldl_cons]
    congr 1
    obtain ⟨hsave, he⟩ | ⟨hrestore, he⟩ | ⟨⟨hsave, hrestore⟩, he⟩ := saved_execute h hop
    · rw [he, hsave]
      rfl
    · rw [he, hrestore]
      exact List.length_tail
    · rw [he]
      split
      · next e => exact absurd e hsave
      · next e => exact absurd e hrestore
      · rfl

end Runs

theorem Canvas.restore_of_saved {c : Canvas α} {g : GraphicsState α}
    {rest : List (GraphicsState α)} (h : c.context.saved = g :: rest) :
    c.restore.graphics = g ∧ c.restore.context.saved = rest := by
  unfold restore
  rw [h]
  exact ⟨rfl, rfl⟩

theorem Canvas.restore_of_nil {c : Canvas α} (h : c.context.saved = []) : c.restore = c := by
  unfold restore
  rw [h]

/-- **Balanced content between saving and restoring leaves the graphics state as it was**, and the
saved states too, whatever the content draws and whatever the content nested in it does with states
of its own: taken operation by operation, and as one content stream. An operation that restores
where no saved state is left does nothing; the content around it runs as without it, except for the
look for the request to stop. -/
theorem balanced_content_restored (s : Setting α) (level : Nat) :
    let env : Environment α := { toSetting := s, nested := s.nested level }
    ∀ (save restore : Operation α), save.executed? = some .save → restore.executed? = some .restore →
      (∀ (content : ContentStream α) (c : Canvas α), content.Balanced →
        (∃ e, execute env save c = .ok true e ∧
          ∀ d, executeAll env content e = .ok () d →
            ∃ d', execute env restore d = .ok true d' ∧ d'.graphics = c.graphics ∧
              d'.context.saved = c.context.saved) ∧
        ∀ d, executeAll env (save :: content ++ [restore]) c = .ok () d →
          d.graphics = c.graphics ∧ d.context.saved = c.context.saved) ∧
      (∀ c : Canvas α, c.context.saved = [] → execute env restore c = .ok true c) ∧
      ∀ (before after : ContentStream α) (c : Canvas α),
        before.height c.context.saved.length = 0 →
        executeAll env (before ++ restore :: after) c =
          (do executeAll env before; checkCancelled; executeAll env after : Draw α Unit) c := by
  intro env save restore hsave hrestore
  have hheeds : env.Heeds := s.nested_heeds level
  have hspare (c : Canvas α) (hc : c.context.saved = []) : execute env restore c = .ok true c := by
    rw [execute_restore hrestore, Canvas.restore_of_nil hc]
  refine ⟨fun content c hbalanced => ⟨⟨c.save, execute_save hsave, fun d hrun => ?_⟩,
    fun d hrun => ?_⟩, hspare, fun before after c hheight => ?_⟩
  · have hkept := saved_executeAll_balanced hheeds hbalanced hrun
    exact ⟨d.restore, execute_restore hrestore, Canvas.restore_of_saved hkept⟩
  · obtain ⟨-, b, e, hop, hrun⟩ := executeAll_cons_ok hrun
    rw [execute_save hsave] at hop
    cases hop
    change executeAll env (content ++ [restore]) _ = _ at hrun
    rw [executeAll_append, bind_apply] at hrun
    split at hrun
    · next e hcontent =>
      obtain ⟨-, b, f, hop, hend⟩ := executeAll_cons_ok hrun
      rw [execute_restore hrestore] at hop
      cases hop
      cases hend
      have hkept := saved_executeAll_balanced hheeds hbalanced hcontent
      exact Canvas.restore_of_saved (c := e.looked) hkept
    · cases hrun
  · rw [executeAll_append, bind_apply, bind_apply]
    split
    · next d hbefore =>
      -- The look before the operation is all that is left of it.
      have hnone : d.context.saved = [] := by
        apply List.eq_nil_of_length_eq_zero
        rw [length_saved_executeAll hheeds hbefore, hheight]
      rw [executeAll, bind_apply, bind_apply]
      by_cases hseen : d.cancellation.isSeen = true
      · rw [checkCancelled_apply_seen _ hseen]
      · rw [Bool.not_eq_true] at hseen
        rw [checkCancelled_apply d hseen]
        dsimp only
        rw [bind_apply, hspare d.looked hnone]
    · rfl

section Example

attribute [local instance] Scalar.rational

/-- Between saving and restoring, the content sets a line width under a state of its own, and an
operation with an operand too many is skipped. -/
theorem balanced_content_restored_width :
    ∃ (save restore : Operation ℚ) (content : ContentStream ℚ) (c d : Canvas ℚ),
      save.executed? = some .save ∧ restore.executed? = some .restore ∧ content.Balanced ∧
      executeAll (plainSetting {}).environment (save :: content ++ [restore]) c = .ok () d ∧
      d.graphics = c.graphics ∧ d.context.saved = c.context.saved := by
  let save : Operation ℚ := ⟨"q", []⟩
  let restore : Operation ℚ := ⟨"Q", []⟩
  let content : ContentStream ℚ :=
    [⟨"w", [.integer 2]⟩, save, ⟨"w", [.integer 3]⟩, restore, ⟨"Q", [.integer 1]⟩]
  let c := Canvas.blank (plainSetting {}) 0
  have hsave : save.executed? = some .save := by decide
  have hrestore : restore.executed? = some .restore := by decide
  have hbalanced : content.Balanced := by
    have hinits : ∀ before ∈ content.inits,
        ContentStream.restores before ≤ ContentStream.saves before := by decide
    exact ⟨fun before hb => hinits before ((List.mem_inits before content).2 hb), by decide⟩
  have hruns : Ends (executeAll (plainSetting {}).environment (save :: content ++ [restore])) c
      (fun _ _ => True) fun _ _ => False := by decide
  obtain ⟨_, d, hrun, -⟩ := hruns.exists_ok
  have hkept := ((balanced_content_restored (plainSetting {}) _ save restore hsave hrestore).1
    content c hbalanced).2 d hrun
  exact ⟨save, restore, content, c, d, hsave, hrestore, hbalanced, hrun, hkept⟩

end Example

end PageSvg
