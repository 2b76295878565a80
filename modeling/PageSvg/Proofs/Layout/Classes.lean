import PageSvg.Layout.Element
import PageSvg.Proofs.Keyed

/-!
# Elements and rules

A class is named by its declarations, so the elements of a paragraph are the same whatever rules
there are already, and which of them are new does not show.
-/

namespace PageSvg

/-- Each class has the name that its declarations give it. -/
def Definitions.Named (d : Definitions) : Prop :=
  ∀ rule ∈ d.classes, rule.2 = stableId "s" rule.1

namespace Definitions

variable {d : Definitions}

theorem Named.fst_styleClass (h : d.Named) (declarations : String) :
    (d.styleClass declarations).1 = stableId "s" declarations := by
  unfold styleClass
  split
  · next name hname => exact h _ (Keyed.mem_of_get? hname)
  · rfl

theorem Named.styleClass (h : d.Named) (declarations : String) :
    (d.styleClass declarations).2.Named := by
  unfold Definitions.styleClass
  split
  · exact h
  · intro rule hrule
    rcases List.mem_append.1 hrule with hrule | hrule
    · exact h rule hrule
    · rw [List.mem_singleton.1 hrule]

theorem Named.insertNew (h : d.Named) (id : String) (node : Node) : (d.insertNew id node).Named := by
  unfold Definitions.insertNew
  split
  · exact h
  · exact h

end Definitions

namespace Layout

variable {α β γ : Type}

/-- The value does not depend on the definitions and rules, as long as classes are named by their
declarations; and they still are afterwards. -/
def Steady (x : StateM Definitions β) : Prop :=
  ∃ b, ∀ d : Definitions, d.Named → (x d).1 = b ∧ (x d).2.Named

namespace Steady

theorem pure (b : β) : Steady (pure b) := ⟨b, fun _ h => ⟨rfl, h⟩⟩

theorem bind {x : StateM Definitions γ} {f : γ → StateM Definitions β} (hx : Steady x)
    (hf : ∀ a, Steady (f a)) : Steady (x >>= f) := by
  obtain ⟨a, hx⟩ := hx
  obtain ⟨b, hb⟩ := hf a
  refine ⟨b, fun d hd => ?_⟩
  obtain ⟨rfl, hnamed⟩ := hx d hd
  exact hb (x d).2 hnamed

theorem mapM {f : γ → StateM Definitions β} (hf : ∀ a, Steady (f a)) (items : List γ) :
    Steady (items.mapM f) := by
  induction items with
  | nil => exact pure []
  | cons a rest ih =>
    rw [List.mapM_cons]
    exact bind (hf a) fun _ => bind ih fun _ => pure _

end Steady

variable [Scalar α] (o : Options α) (p : Paragraph α) (part : TextPart)

theorem steady_styleClass (style : TextStyle α) : Steady (styleClass o part style) :=
  ⟨_, fun _ h => ⟨h.fst_styleClass _, h.styleClass _⟩⟩

theorem steady_inners (last : Option Nat) (spans : List (PlacedSpan α)) :
    Steady (inners o part last spans) := by
  induction spans generalizing last with
  | nil => exact .pure []
  | cons s rest ih =>
    exact .bind (.bind (steady_styleClass o part _) fun _ => .pure _) fun _ =>
      .bind (ih _) fun _ => .pure _

/-- **The elements of a paragraph do not depend on the rules that there are.** -/
theorem steady_nodes : Steady (nodes o p part) := by
  unfold nodes
  cases p.glyphs? with
  | some nodes => exact .pure _
  | none =>
    cases selected p part with
    | nil => exact .pure []
    | cons first rest =>
      dsimp only
      rw [spanNodes]
      split
      · exact .mapM (fun _ => .bind (steady_styleClass o part _) fun _ => .pure _) _
      · dsimp only
        split
        · exact .bind (steady_styleClass o part _) fun _ => .pure _
        · exact .bind (steady_inners o part none _) fun _ => .pure _

theorem named_nodes {d : Definitions} (h : d.Named) : ((nodes o p part).run d).2.Named :=
  (steady_nodes o p part).elim fun _ hnodes => (hnodes d h).2

end Layout

end PageSvg
