import PageSvg.Proofs.Canvas.Outcome

/-!
# Matching ways of drawing

Two ways of drawing match on two canvases when they end alike, on canvases that a relation `R`
relates: with the same value, or because of a request to stop. The rules below take this through
the steps that drawing is made of; `Q` says more about the canvases where there is a value.

Content that is nested too deep is refused. Where drawing goes on without it, the refusal does not
get any further, so that nothing but a request to stop ends drawing.
-/

namespace PageSvg

/-- The canvas after one more look for the request to stop. -/
def Canvas.looked {α : Type} (c : Canvas α) : Canvas α :=
  { c with cancellation.looks := c.cancellation.looks + 1 }

/-- There is a request to stop, at once or later. -/
def Canvas.IsStopped {α : Type} (c : Canvas α) : Prop := c.cancellation.onset.isSome = true

namespace Draw

variable {α β γ : Type} {R : Canvas α → Canvas α → Prop} {c c' : Canvas α}

/-! ### Runs -/

section Runs

variable (c : Canvas α)

theorem bind_apply (x : Draw α γ) (f : γ → Draw α β) : (x >>= f) c =
    match x c with
    | .ok a d => f a d
    | .error fault d => .error fault d := by
  show EStateM.bind x f c = _
  unfold EStateM.bind
  cases x c <;> rfl

/-- What ends with a value has ended with one at each of its steps. -/
theorem bind_eq_ok {x : Draw α γ} {f : γ → Draw α β} {b : β} {e : Canvas α} :
    (x >>= f) c = .ok b e ↔ ∃ a d, x c = .ok a d ∧ f a d = .ok b e := by
  rw [bind_apply]
  cases hx : x c with
  | ok a d =>
    constructor
    · exact fun h => ⟨a, d, rfl, h⟩
    · rintro ⟨a', d', had, h⟩
      obtain ⟨rfl, rfl⟩ := EStateM.Result.ok.inj had
      exact h
  | error fault d =>
    constructor
    · exact fun h => nomatch h
    · rintro ⟨a, d', had, -⟩
      cases had

theorem getBind_apply (f : Canvas α → Draw α β) : (get >>= f) c = f c c := rfl

theorem setBind_apply (d : Canvas α) (f : PUnit → Draw α β) : (set d >>= f) c = f ⟨⟩ d := rfl

theorem modifyGetBind_apply (h : Canvas α → γ × Canvas α) (f : γ → Draw α β) :
    (modifyGet h >>= f) c = f (h c).1 (h c).2 := rfl

theorem orSkip_apply (x : Draw α β) : orSkip x c =
    match x c with
    | .ok b d => .ok (some b) d
    | .error (.nestingTooDeep _) d => .ok none d
    | .error fault d => .error fault d := by
  show EStateM.tryCatch (EStateM.map some x) _ c = _
  unfold EStateM.tryCatch EStateM.map
  rcases x c with ⟨b, d⟩ | ⟨fault, d⟩
  · rfl
  · cases fault <;> rfl

theorem orNothing_apply (x : Draw α (Option β)) : orNothing x c =
    match x c with
    | .ok b d => .ok b d
    | .error _ d => .ok none d := by
  show EStateM.tryCatch x _ c = _
  unfold EStateM.tryCatch
  cases x c <;> rfl

theorem tryFinally_apply (x : Draw α β) (h : Canvas α → Canvas α) :
    (tryFinally x (modify h) : Draw α β) c =
      match x c with
      | .ok b d => .ok b (h d)
      | .error fault d => .error fault (h d) := by
  unfold tryFinally
  show EStateM.map Prod.fst (tryFinally' x fun _ => modify h) c = _
  unfold EStateM.map
  simp only [tryFinally']
  cases x c <;> rfl

theorem checkCancelled_apply (h : c.cancellation.isSeen = false) :
    (checkCancelled : Draw α Unit) c = .ok () c.looked := by
  show (if c.cancellation.isSeen then _ else _ : Draw α Unit) c.looked = _
  rw [h]
  rfl

theorem checkCancelled_apply_seen (h : c.cancellation.isSeen = true) :
    (checkCancelled : Draw α Unit) c = .error .cancelled c.looked := by
  show (if c.cancellation.isSeen then _ else _ : Draw α Unit) c.looked = _
  rw [h]
  rfl

variable [Scalar α] {env : Environment α} {op : Operation α} {rest : ContentStream α}

theorem executeAll_cons_apply {b : Bool} {c d : Canvas α} (hseen : c.cancellation.isSeen = false)
    (hop : execute env op c.looked = .ok b d) (rest : ContentStream α) :
    executeAll env (op :: rest) c = executeAll env rest d := by
  simp only [executeAll, bind_apply, checkCancelled_apply c hseen, hop]

/-- Content that ends begins with a look that does not see the request to stop. -/
theorem executeAll_cons_ok {c d : Canvas α} (hrun : executeAll env (op :: rest) c = .ok () d) :
    c.cancellation.isSeen = false ∧
      ∃ b e, execute env op c.looked = .ok b e ∧ executeAll env rest e = .ok () d := by
  by_cases hseen : c.cancellation.isSeen = true
  · rw [executeAll, bind_apply, checkCancelled_apply_seen c hseen] at hrun
    cases hrun
  · rw [Bool.not_eq_true] at hseen
    rw [executeAll, bind_apply, checkCancelled_apply c hseen] at hrun
    dsimp only at hrun
    rw [bind_apply] at hrun
    split at hrun
    · next b e hok => exact ⟨hseen, b, e, hok, hrun⟩
    · cases hrun

end Runs

/-! ### Matching -/

/-- From the canvases `c` and `c'`, both ways of drawing end with one value as in `Q`, or because of
a request to stop, on canvases that are related. -/
def Matches (R : Canvas α → Canvas α → Prop) (x x' : Draw α β) (c c' : Canvas α)
    (Q : β → Canvas α → Canvas α → Prop) : Prop :=
  match x c, x' c' with
  | .ok b d, .ok b' d' => b = b' ∧ R d d' ∧ Q b d d'
  | .error fault d, .error fault' d' =>
    (fault = .cancelled ∧ fault' = .cancelled) ∧ R d d' ∧ d.IsStopped
  | _, _ => False

namespace Matches

variable {Q : β → Canvas α → Canvas α → Prop}

theorem mono {x x' : Draw α β} {S : Canvas α → Canvas α → Prop}
    {P : β → Canvas α → Canvas α → Prop} (h : Matches R x x' c c' Q) (hR : ∀ d d', R d d' → S d d')
    (hQ : ∀ b d d', R d d' → Q b d d' → P b d d') : Matches S x x' c c' P := by
  unfold Matches at h ⊢
  split at h
  · exact ⟨h.1, hR _ _ h.2.1, hQ _ _ _ h.2.1 h.2.2⟩
  · exact ⟨h.1, hR _ _ h.2.1, h.2.2⟩
  · exact h

/-- What is known of one side may be added. -/
theorem inter {x x' : Draw α β} {S : Canvas α → Prop} (h : Matches R x x' c c' Q)
    (hx : Ends x c (fun _ d => S d) fun _ d => S d) :
    Matches (fun d d' => R d d' ∧ S d) x x' c c' Q := by
  unfold Matches at h ⊢
  unfold Ends at hx
  split at h
  · next hx' _ =>
    rw [hx'] at hx
    exact ⟨h.1, ⟨h.2.1, hx⟩, h.2.2⟩
  · next hx' _ =>
    rw [hx'] at hx
    exact ⟨h.1, ⟨h.2.1, hx⟩, h.2.2⟩
  · exact h

/-- A finalizer that only changes the canvas. -/
theorem tryFinally {x x' : Draw α β} {h h' : Canvas α → Canvas α} {S : Canvas α → Canvas α → Prop}
    (hx : Matches S x x' c c' fun _ _ _ => True) (hR : ∀ d d', S d d' → R (h d) (h' d'))
    (hstop : ∀ d, d.IsStopped → (h d).IsStopped) :
    Matches R (tryFinally x (modify h)) (tryFinally x' (modify h')) c c' fun _ _ _ => True := by
  unfold Matches at hx ⊢
  rw [tryFinally_apply, tryFinally_apply]
  split at hx
  · next hok hok' =>
    rw [hok, hok']
    exact ⟨hx.1, hR _ _ hx.2.1, trivial⟩
  · next herror herror' =>
    rw [herror, herror']
    exact ⟨hx.1, hR _ _ hx.2.1, hstop _ hx.2.2⟩
  · exact hx.elim

theorem pure {b : β} (h : R c c') (hQ : Q b c c') :
    Matches R (pure b : Draw α β) (pure b) c c' Q := ⟨rfl, h, hQ⟩

theorem bind {x x' : Draw α γ} {f f' : γ → Draw α β} {P : γ → Canvas α → Canvas α → Prop}
    (hx : Matches R x x' c c' P)
    (hf : ∀ a d d', R d d' → P a d d' → Matches R (f a) (f' a) d d' Q) :
    Matches R (x >>= f) (x' >>= f') c c' Q := by
  unfold Matches at hx ⊢
  rw [bind_apply, bind_apply]
  split at hx
  · next a d a' d' hok hok' =>
    obtain ⟨rfl, hd, hP⟩ := hx
    rw [hok, hok']
    exact hf a d d' hd hP
  · next fault d fault' d' herror herror' =>
    rw [herror, herror']
    exact hx
  · exact hx.elim

theorem getBind {f f' : Canvas α → Draw α β} (h : Matches R (f c) (f' c') c c' Q) :
    Matches R (get >>= f) (get >>= f') c c' Q := h

theorem getLeft {f : Canvas α → Draw α β} {x' : Draw α β} (h : Matches R (f c) x' c c' Q) :
    Matches R (get >>= f) x' c c' Q := h

theorem getRight {x : Draw α β} {f' : Canvas α → Draw α β} (h : Matches R x (f' c') c c' Q) :
    Matches R x (get >>= f') c c' Q := h

theorem setBind {d d' : Canvas α} {f f' : PUnit → Draw α β}
    (h : Matches R (f ⟨⟩) (f' ⟨⟩) d d' Q) : Matches R (set d >>= f) (set d' >>= f') c c' Q := h

theorem modifyBind {h h' : Canvas α → Canvas α} {f f' : PUnit → Draw α β}
    (hf : Matches R (f ⟨⟩) (f' ⟨⟩) (h c) (h' c') Q) :
    Matches R (modify h >>= f) (modify h' >>= f') c c' Q := hf

theorem modifyLeft {h : Canvas α → Canvas α} {f : PUnit → Draw α β} {x' : Draw α β}
    (hf : Matches R (f ⟨⟩) x' (h c) c' Q) : Matches R (modify h >>= f) x' c c' Q := hf

theorem modifyGetBind {h h' : Canvas α → γ × Canvas α} {f f' : γ → Draw α β}
    (hf : Matches R (f (h c).1) (f' (h' c').1) (h c).2 (h' c').2 Q) :
    Matches R (modifyGet h >>= f) (modifyGet h' >>= f') c c' Q := hf

theorem modify {h h' : Canvas α → Canvas α} {Q : PUnit → Canvas α → Canvas α → Prop}
    (hR : R (h c) (h' c')) (hQ : Q ⟨⟩ (h c) (h' c')) :
    Matches R (modify h : Draw α PUnit) (modify h') c c' Q := ⟨rfl, hR, hQ⟩

theorem modifyGet {h h' : Canvas α → β × Canvas α} (hvalue : (h c).1 = (h' c').1)
    (hR : R (h c).2 (h' c').2) (hQ : Q (h c).1 (h c).2 (h' c').2) :
    Matches R (modifyGet h : Draw α β) (modifyGet h') c c' Q := ⟨hvalue, hR, hQ⟩

theorem ite {p : Prop} [Decidable p] {x x' y y' : Draw α β} (hx : p → Matches R x x' c c' Q)
    (hy : ¬p → Matches R y y' c c' Q) :
    Matches R (if p then x else y) (if p then x' else y') c c' Q := by
  split
  · next hp => exact hx hp
  · next hp => exact hy hp

theorem orSkip {x x' : Draw α β} (h : Matches R x x' c c' Q) :
    Matches R (orSkip x) (orSkip x') c c' fun b? d d' => ∃ b, b? = some b ∧ Q b d d' := by
  unfold Matches at h ⊢
  rw [orSkip_apply, orSkip_apply]
  split at h
  · next a d a' d' hok hok' =>
    obtain ⟨rfl, hd, hQ⟩ := h
    rw [hok, hok']
    exact ⟨rfl, hd, a, rfl, hQ⟩
  · next fault d fault' d' herror herror' =>
    obtain ⟨⟨rfl, rfl⟩, hd⟩ := h
    rw [herror, herror']
    exact ⟨⟨rfl, rfl⟩, hd⟩
  · exact h.elim

theorem orNothing {x x' : Draw α (Option β)} {Q : Option β → Canvas α → Canvas α → Prop}
    (h : Matches R x x' c c' Q) :
    Matches R (orNothing x) (orNothing x') c c' fun b? d d' =>
      Q b? d d' ∨ b? = none ∧ d.IsStopped := by
  unfold Matches at h ⊢
  rw [orNothing_apply, orNothing_apply]
  split at h
  · next a d a' d' hok hok' =>
    obtain ⟨rfl, hd, hQ⟩ := h
    rw [hok, hok']
    exact ⟨rfl, hd, .inl hQ⟩
  · next fault d fault' d' herror herror' =>
    rw [herror, herror']
    exact ⟨rfl, h.2.1, .inr ⟨rfl, h.2.2⟩⟩
  · exact h.elim

theorem forM (items : List γ) {f f' : γ → Draw α PUnit} (h : R c c')
    (hf : ∀ a d d', R d d' → Matches R (f a) (f' a) d d' fun _ _ _ => True) :
    Matches R (items.forM f) (items.forM f') c c' fun _ _ _ => True := by
  induction items generalizing c c' with
  | nil => exact pure h trivial
  | cons a rest ih => exact bind (hf a c c' h) fun _ _ _ hd _ => ih hd

theorem checkCancelled {Q : Unit → Canvas α → Canvas α → Prop}
    (hseen : c'.cancellation.isSeen = c.cancellation.isSeen) (h : R c.looked c'.looked)
    (hQ : Q ⟨⟩ c.looked c'.looked) :
    Matches R (checkCancelled : Draw α Unit) checkCancelled c c' Q := by
  unfold Draw.checkCancelled
  refine getBind (modifyBind ?_)
  rw [hseen]
  by_cases hc : c.cancellation.isSeen = true
  · rw [if_pos hc]
    have hstop : c.looked.IsStopped := by
      unfold Cancellation.isSeen at hc
      cases honset : c.cancellation.onset with
      | none =>
        rw [honset] at hc
        cases hc
      | some n => exact congrArg Option.isSome honset
    exact ⟨⟨rfl, rfl⟩, h, hstop⟩
  · rw [if_neg hc]
    exact pure h hQ

end Matches

/-! ### Refusal -/

/-- Refuses content that is nested too deep. -/
def refuse (limit : Nat) : Draw α β := do
  Draw.checkCancelled
  throw (.nestingTooDeep limit)

theorem orSkip_refuse_apply (limit : Nat) {c : Canvas α} (h : c.cancellation.isSeen = false) :
    orSkip (refuse limit : Draw α β) c = .ok none c.looked := by
  rw [orSkip_apply]
  unfold refuse
  rw [bind_apply, checkCancelled_apply c h]
  rfl

/-- Drawing goes on without content that is refused. -/
theorem Matches.orSkip_refuse {limit : Nat} {c c' : Canvas α}
    (hseen : c'.cancellation.isSeen = c.cancellation.isSeen) (h : R c.looked c'.looked) :
    Matches R (Draw.orSkip (refuse limit : Draw α β)) (Draw.orSkip (refuse limit)) c c' fun b? d d' =>
      b? = none ∧ d = c.looked ∧ d' = c'.looked := by
  have hcheck : Matches R (Draw.checkCancelled : Draw α Unit) Draw.checkCancelled c c'
      fun _ d d' => d = c.looked ∧ d' = c'.looked := .checkCancelled hseen h ⟨rfl, rfl⟩
  unfold refuse
  unfold Matches at hcheck ⊢
  rw [orSkip_apply, orSkip_apply, bind_apply, bind_apply]
  split at hcheck
  · next hok hok' =>
    obtain ⟨_, hR, rfl, rfl⟩ := hcheck
    rw [hok, hok']
    exact ⟨rfl, hR, rfl, rfl, rfl⟩
  · next herror herror' =>
    obtain ⟨⟨rfl, rfl⟩, hd⟩ := hcheck
    rw [herror, herror']
    exact ⟨⟨rfl, rfl⟩, hd⟩
  · exact hcheck.elim

end Draw

end PageSvg
