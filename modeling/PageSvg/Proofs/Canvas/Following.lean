import PageSvg.Proofs.Canvas.Isolation
import PageSvg.Proofs.Canvas.Recall
import PageSvg.Proofs.ClipAlike

/-!
# Drawing that follows other drawing

Two canvases are drawn on, and the second drawing follows the first: both come to the same value,
and the canvases stay related, unless something is spoilt in the end. It is spoilt where the
first canvas has a definition of a certain name, or where a name stands for two shapes of clip
regions. Drawing only adds definitions and regions, so what is spoilt stays so, and what is good
in the end was good all the time.
-/

namespace PageSvg

variable {α β γ : Type}

/-- The first canvas has no definition of the name, and no name stands for different
shapes on the two canvases. -/
structure Canvas.Unspoilt (name : String) (c d : Canvas α) : Prop where
  unnamed : c.definitions.contains name = false
  consistent : c.clips.Consistent d.clips

theorem Canvas.Unspoilt.of_frame {name : String} {c c' d d' : Canvas α} (hc : c.Frame c')
    (hd : d.Frame d') (h : c'.Unspoilt name d') : c.Unspoilt name d where
  unnamed := Bool.eq_false_iff.2 fun hname =>
    Bool.eq_false_iff.1 h.unnamed (hc.definitions.contains hname)
  consistent := .of_grows hc.clips hd.clips h.consistent

namespace Draw

/-! ### The canvas in the end -/

/-- The canvas that drawing leaves, whatever becomes of it. -/
def last (x : Draw α β) (c : Canvas α) : Canvas α :=
  match x c with
  | .ok _ d => d
  | .error _ d => d

section Last

variable {x : Draw α β} {c d : Canvas α}

theorem last_of_ok {b : β} (h : x c = .ok b d) : x.last c = d := by
  unfold last
  rw [h]

theorem last_of_ends {P : Canvas α → Prop} (h : Ends x c (fun _ d => P d) fun _ d => P d) :
    P (x.last c) := by
  unfold Ends at h
  unfold last
  cases hx : x c with
  | ok b d => rwa [hx] at h
  | error fault d => rwa [hx] at h

theorem Framed.frame_last (h : Framed x) (c : Canvas α) : c.Frame (x.last c) :=
  last_of_ends ((h.ends c).mono (fun _ _ hd => hd) fun _ _ hd => hd.2)

/-- The rest of drawing only adds to what a part leaves. -/
theorem Framed.frame_last_bind {x : Draw α γ} {f : γ → Draw α β} (hf : ∀ a, Framed (f a))
    (c : Canvas α) : (x.last c).Frame ((x >>= f).last c) := by
  unfold last
  rw [bind_apply]
  cases x c with
  | ok a d => exact (hf a).frame_last d
  | error _ d => exact .refl d

theorem Framed.option {f : Option γ → Draw α β} (hnone : Framed (f none))
    (hsome : ∀ a, Framed (f (some a))) : ∀ a?, Framed (f a?) := by
  rintro (_ | a)
  · exact hnone
  · exact hsome a

theorem last_bind_of_ok {x : Draw α γ} {f : γ → Draw α β} {a : γ} (h : x c = .ok a d) :
    (x >>= f).last c = (f a).last d := by
  unfold last
  rw [bind_apply, h]

theorem last_getBind (f : Canvas α → Draw α β) (c : Canvas α) :
    (get >>= f).last c = (f c).last c := rfl

theorem last_setBind (f : PUnit → Draw α β) (c d : Canvas α) :
    (set d >>= f).last c = (f ⟨⟩).last d := rfl

theorem last_modifyBind (h : Canvas α → Canvas α) (f : PUnit → Draw α β) (c : Canvas α) :
    (modify h >>= f).last c = (f ⟨⟩).last (h c) := rfl

theorem last_modifyGetBind (h : Canvas α → γ × Canvas α) (f : γ → Draw α β) (c : Canvas α) :
    (modifyGet h >>= f).last c = (f (h c).1).last (h c).2 := rfl

theorem last_orSkip (x : Draw α β) (c : Canvas α) : (orSkip x).last c = x.last c := by
  unfold last
  rw [orSkip_apply]
  rcases x c with ⟨b, d⟩ | ⟨fault, d⟩
  · rfl
  · cases fault <;> rfl

theorem last_orNothing (x : Draw α (Option β)) (c : Canvas α) :
    (orNothing x).last c = x.last c := by
  unfold last
  rw [orNothing_apply]
  cases x c <;> rfl

theorem last_tryFinally (x : Draw α β) (h : Canvas α → Canvas α) (c : Canvas α) :
    (tryFinally x (modify h) : Draw α β).last c = h (x.last c) := by
  unfold last
  rw [tryFinally_apply]
  cases x c <;> rfl

end Last

/-! ### Following -/

/-- From the canvases `c` and `d`, both ways of drawing come to one value on canvases that are
related, unless something is spoilt in the end. -/
structure Follows (name : String) (R : Canvas α → Canvas α → Prop) (x y : Draw α β)
    (c d : Canvas α) : Prop where
  run : (x.last c).Unspoilt name (y.last d) →
    ∃ b c' d', x c = .ok b c' ∧ y d = .ok b d' ∧ R c' d'

namespace Follows

variable {name : String} {R S : Canvas α → Canvas α → Prop} {c d : Canvas α} {x y : Draw α β}

/-- Where drawing leaves a definition of the name there is nothing to follow. -/
theorem of_named (h : (x.last c).definitions.contains name = true) : Follows name R x y c d :=
  ⟨fun hgood => absurd h (Bool.eq_false_iff.1 hgood.unnamed)⟩

/-- What is good in the end is good when drawing begins. -/
theorem of_unspoilt (hx : Framed x) (hy : Framed y)
    (h : c.Unspoilt name d → Follows name R x y c d) : Follows name R x y c d :=
  ⟨fun hgood => (h (hgood.of_frame (hx.frame_last c) (hy.frame_last d))).run hgood⟩

/-- A finalizer that only changes the canvas, and spoils nothing by it. -/
theorem tryFinally {h k : Canvas α → Canvas α} (hx : Follows name S x y c d)
    (hgood : ∀ c' d', (h c').Unspoilt name (k d') → c'.Unspoilt name d')
    (hR : ∀ c' d', S c' d' → R (h c') (k d')) :
    Follows name R (tryFinally x (modify h)) (tryFinally y (modify k)) c d := by
  refine ⟨fun hlast => ?_⟩
  rw [last_tryFinally, last_tryFinally] at hlast
  obtain ⟨b, c', d', hxc, hyd, hS⟩ := hx.run (hgood _ _ hlast)
  exact ⟨b, h c', k d', by rw [tryFinally_apply, hxc], by rw [tryFinally_apply, hyd], hR c' d' hS⟩

theorem pure {b : β} (h : R c d) : Follows name R (pure b : Draw α β) (pure b) c d :=
  ⟨fun _ => ⟨b, c, d, rfl, rfl, h⟩⟩

/-- A part is followed, and then the rest after it. The rest spoils nothing that it could mend
again. -/
theorem bind {x y : Draw α γ} {f g : γ → Draw α β} (h : Follows name S x y c d)
    (hf : ∀ a, Framed (f a)) (hg : ∀ a, Framed (g a))
    (hrest : ∀ a c' d', S c' d' → Follows name R (f a) (g a) c' d') :
    Follows name R (x >>= f) (y >>= g) c d := by
  refine ⟨fun hgood => ?_⟩
  obtain ⟨a, c', d', hx, hy, hS⟩ :=
    h.run (hgood.of_frame (Framed.frame_last_bind hf c) (Framed.frame_last_bind hg d))
  rw [last_bind_of_ok hx, last_bind_of_ok hy] at hgood
  obtain ⟨b, c'', d'', hfa, hga, hR⟩ := (hrest a c' d' hS).run hgood
  exact ⟨b, c'', d'', by rw [bind_apply, hx]; exact hfa, by rw [bind_apply, hy]; exact hga, hR⟩

theorem bindPure {x y : Draw α γ} {f : γ → β} (h : Follows name R x y c d) :
    Follows name R (x >>= fun a => Pure.pure (f a)) (y >>= fun a => Pure.pure (f a)) c d :=
  .bind h (fun _ => .pure _) (fun _ => .pure _) fun _ _ _ hR => .pure hR

theorem getBind {f g : Canvas α → Draw α β} (h : Follows name R (f c) (g d) c d) :
    Follows name R (get >>= f) (get >>= g) c d := ⟨h.run⟩

theorem setBind {c' d' : Canvas α} {f g : PUnit → Draw α β}
    (h : Follows name R (f ⟨⟩) (g ⟨⟩) c' d') : Follows name R (set c' >>= f) (set d' >>= g) c d :=
  ⟨h.run⟩

theorem modifyBind {h k : Canvas α → Canvas α} {f g : PUnit → Draw α β}
    (hrest : Follows name R (f ⟨⟩) (g ⟨⟩) (h c) (k d)) :
    Follows name R (modify h >>= f) (modify k >>= g) c d := ⟨hrest.run⟩

theorem modifyGetBind {δ δ' : Type} {h : Canvas α → δ × Canvas α} {k : Canvas α → δ' × Canvas α}
    {f : δ → Draw α β} {g : δ' → Draw α β}
    (hrest : Follows name R (f (h c).1) (g (k d).1) (h c).2 (k d).2) :
    Follows name R (modifyGet h >>= f) (modifyGet k >>= g) c d := ⟨hrest.run⟩

theorem modify {h k : Canvas α → Canvas α} (hR : (h c).Unspoilt name (k d) → R (h c) (k d)) :
    Follows name R (modify h : Draw α PUnit) (modify k) c d :=
  ⟨fun hgood => ⟨⟨⟩, h c, k d, rfl, rfl, hR hgood⟩⟩

theorem modifyGet {h k : Canvas α → β × Canvas α} (hvalue : (k d).1 = (h c).1)
    (hR : R (h c).2 (k d).2) :
    Follows name R (modifyGet h : Draw α β) (modifyGet k) c d :=
  ⟨fun _ => ⟨(h c).1, (h c).2, (k d).2, rfl, hvalue ▸ rfl, hR⟩⟩

theorem ite {p : Prop} [Decidable p] {x' y' : Draw α β} (h : p → Follows name R x y c d)
    (h' : ¬p → Follows name R x' y' c d) :
    Follows name R (if p then x else x') (if p then y else y') c d := by
  split
  · next hp => exact h hp
  · next hp => exact h' hp

theorem orSkip (h : Follows name R x y c d) : Follows name R (orSkip x) (orSkip y) c d := by
  refine ⟨fun hgood => ?_⟩
  rw [last_orSkip, last_orSkip] at hgood
  obtain ⟨b, c', d', hx, hy, hR⟩ := h.run hgood
  exact ⟨some b, c', d', by rw [orSkip_apply, hx], by rw [orSkip_apply, hy], hR⟩

theorem orNothing {x y : Draw α (Option β)} (h : Follows name R x y c d) :
    Follows name R (orNothing x) (orNothing y) c d := by
  refine ⟨fun hgood => ?_⟩
  rw [last_orNothing, last_orNothing] at hgood
  obtain ⟨b, c', d', hx, hy, hR⟩ := h.run hgood
  exact ⟨b, c', d', by rw [orNothing_apply, hx], by rw [orNothing_apply, hy], hR⟩

theorem forM (items : List γ) {f g : γ → Draw α PUnit} (h : R c d) (hf : ∀ a, Framed (f a))
    (hg : ∀ a, Framed (g a)) (hitem : ∀ a c' d', R c' d' → Follows name R (f a) (g a) c' d') :
    Follows name R (items.forM f) (items.forM g) c d := by
  induction items generalizing c d with
  | nil => exact pure h
  | cons a rest ih =>
    exact bind (hitem a c d h) (fun _ => .forM rest hf) (fun _ => .forM rest hg) fun _ _ _ hR => ih hR

end Follows

end Draw

end PageSvg
