import PageSvg.Canvas.Execution

/-!
# Outcomes of drawing

Drawing ends on a canvas, either with a value or with a fault. `Ends` says what holds in each case;
the equations below take it through the steps that drawing is made of.
-/

namespace PageSvg.Draw

variable {α β γ : Type} {c : Canvas α} {Q : β → Canvas α → Prop}
  {E : Fault α → Canvas α → Prop}

/-- From the canvas `c`, drawing ends with a value as in `Q` or with a fault as in `E`. -/
def Ends (x : Draw α β) (c : Canvas α) (Q : β → Canvas α → Prop)
    (E : Fault α → Canvas α → Prop) : Prop :=
  match x c with
  | .ok b d => Q b d
  | .error fault d => E fault d

theorem Ends.mono {x : Draw α β} {Q' : β → Canvas α → Prop} {E' : Fault α → Canvas α → Prop}
    (h : Ends x c Q E) (hQ : ∀ b d, Q b d → Q' b d) (hE : ∀ fault d, E fault d → E' fault d) :
    Ends x c Q' E' := by
  unfold Ends at h ⊢
  split at h
  · exact hQ _ _ h
  · exact hE _ _ h

theorem ends_of_ok {x : Draw α β} {b : β} {d : Canvas α} (h : x c = .ok b d) :
    Ends x c Q E ↔ Q b d := by
  unfold Ends
  rw [h]

theorem ends_of_error {x : Draw α β} {fault : Fault α} {d : Canvas α} (h : x c = .error fault d) :
    Ends x c Q E ↔ E fault d := by
  unfold Ends
  rw [h]

instance decidableEnds [∀ b d, Decidable (Q b d)] [∀ fault d, Decidable (E fault d)]
    (x : Draw α β) (c : Canvas α) : Decidable (Ends x c Q E) :=
  match h : x c with
  | .ok b d => decidable_of_iff (Q b d) (ends_of_ok h).symm
  | .error fault d => decidable_of_iff (E fault d) (ends_of_error h).symm

theorem Ends.exists_ok {x : Draw α β} (h : Ends x c Q fun _ _ => False) :
    ∃ b d, x c = .ok b d ∧ Q b d := by
  cases hx : x c with
  | ok b d => exact ⟨b, d, rfl, (ends_of_ok hx).1 h⟩
  | error fault d => exact ((ends_of_error hx).1 h).elim

theorem ends_congr {x y : Draw α β} {d : Canvas α} (h : x c = y d) :
    Ends x c Q E ↔ Ends y d Q E := by
  unfold Ends
  rw [h]

@[simp] theorem ends_pure (b : β) : Ends (pure b : Draw α β) c Q E ↔ Q b c := Iff.rfl

@[simp] theorem ends_bind (x : Draw α γ) (f : γ → Draw α β) :
    Ends (x >>= f) c Q E ↔ Ends x c (fun a d => Ends (f a) d Q E) E := by
  unfold Ends
  show (match EStateM.bind x f c with | .ok b d => _ | .error fault d => _) ↔ _
  unfold EStateM.bind
  cases x c <;> rfl

@[simp] theorem ends_map (f : γ → β) (x : Draw α γ) :
    Ends (f <$> x) c Q E ↔ Ends x c (fun a d => Q (f a) d) E := by
  unfold Ends
  show (match EStateM.map f x c with | .ok b d => _ | .error fault d => _) ↔ _
  unfold EStateM.map
  cases x c <;> rfl

@[simp] theorem ends_throw (fault : Fault α) :
    Ends (throw fault : Draw α β) c Q E ↔ E fault c := Iff.rfl

@[simp] theorem ends_get {Q : Canvas α → Canvas α → Prop} :
    Ends (get : Draw α (Canvas α)) c Q E ↔ Q c c := Iff.rfl

@[simp] theorem ends_set {Q : PUnit → Canvas α → Prop} (d : Canvas α) :
    Ends (set d : Draw α PUnit) c Q E ↔ Q ⟨⟩ d := Iff.rfl

@[simp] theorem ends_modify {Q : PUnit → Canvas α → Prop} (f : Canvas α → Canvas α) :
    Ends (modify f : Draw α PUnit) c Q E ↔ Q ⟨⟩ (f c) := Iff.rfl

@[simp] theorem ends_modifyGet (f : Canvas α → β × Canvas α) :
    Ends (modifyGet f : Draw α β) c Q E ↔ Q (f c).1 (f c).2 := Iff.rfl

@[simp] theorem ends_tryCatch (x : Draw α β) (handle : Fault α → Draw α β) :
    Ends (tryCatch x handle) c Q E ↔ Ends x c Q (fun fault d => Ends (handle fault) d Q E) := by
  unfold Ends
  show (match EStateM.tryCatch x handle c with | .ok b d => _ | .error fault d => _) ↔ _
  unfold EStateM.tryCatch
  cases x c <;> rfl

@[simp] theorem ends_tryFinally (x : Draw α β) (finalizer : Draw α γ) :
    Ends (tryFinally x finalizer) c Q E ↔
      Ends x c (fun b d => Ends finalizer d (fun _ d => Q b d) E)
        (fun fault d => Ends finalizer d (fun _ d => E fault d) E) := by
  rw [tryFinally, ends_map]
  unfold Ends
  simp only [tryFinally']
  cases x c with
  | ok b d => simp only; cases finalizer d <;> rfl
  | error fault d => simp only; cases finalizer d <;> rfl

@[simp] theorem ends_ite {p : Prop} [Decidable p] (x y : Draw α β) :
    Ends (if p then x else y) c Q E ↔ (p → Ends x c Q E) ∧ (¬p → Ends y c Q E) := by
  split <;> simp_all

theorem ends_orSkip (x : Draw α β) {Q : Option β → Canvas α → Prop}
    (h : Ends x c (fun b d => Q (some b) d) fun fault d =>
      (∀ limit, fault = .nestingTooDeep limit → Q none d) ∧ E fault d) :
    Ends (orSkip x) c Q E := by
  rw [orSkip, ends_tryCatch, ends_map]
  refine h.mono (fun _ _ h => h) fun fault d h => ?_
  cases fault with
  | nestingTooDeep limit => exact h.1 limit rfl
  | _ => exact h.2

theorem ends_orNothing (x : Draw α (Option β)) {Q : Option β → Canvas α → Prop} :
    Ends (orNothing x) c Q E ↔ Ends x c Q (fun _ d => Q none d) := by
  rw [orNothing, ends_tryCatch]
  rfl

theorem ends_checkCancelled {Q : Unit → Canvas α → Prop} :
    Ends checkCancelled c Q E ↔
      let d := { c with cancellation.looks := c.cancellation.looks + 1 }
      (c.cancellation.isSeen = true → E .cancelled d) ∧
        (¬c.cancellation.isSeen = true → Q ⟨⟩ d) := by
  rw [checkCancelled]
  simp only [ends_bind, ends_get, ends_modify, ends_ite, ends_throw, ends_pure]

theorem ends_inside (inner : Context α) (x : Draw α β) :
    Ends (inside inner x) c Q E ↔
      Ends x { c with context := inner, depth := c.depth + 1 }
        (fun b d => Q b { d with context := c.context, depth := c.depth })
        (fun fault d => E fault { d with context := c.context, depth := c.depth }) := by
  unfold Ends inside
  cases x { c with context := inner, depth := c.depth + 1 } <;> rfl

end PageSvg.Draw
