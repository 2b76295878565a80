import PageSvg.Proofs.Canvas.Retracing

/-!
# Content drawn by itself

Content may be drawn as if nothing had been drawn before: nested content then leaves nothing but
clip regions behind, so that all that it uses is made anew wherever it is used. Where such drawing
meets what depends on its surroundings, it makes a note of it, a definition of a certain name:
content that is nested too deep, and forms that are being drawn around. Without such a note, content
that is drawn in any surroundings comes to the same.
-/

namespace PageSvg

open Draw

variable {α : Type}

namespace Canvas

/-- The canvas with a definition of the name. -/
def noted (name : String) (c : Canvas α) : Canvas α :=
  { c with definitions := c.definitions.insertNew name { tag := "" } }

/-- What nested content that ended on the canvas `d` leaves on the canvas `c`: its clip regions. It
is noted if there was a definition of the name inside, or if one of the `forms` is being drawn. -/
def leftAlone (name : String) (forms : List String) (c d : Canvas α) : Canvas α :=
  let e := { c with clips := d.clips }
  if d.definitions.contains name || c.activeForms.any fun id => forms.contains id then e.noted name
  else e

section Noting

variable {name : String} {forms : List String} {c d : Canvas α}

theorem contains_noted (name : String) (c : Canvas α) :
    (c.noted name).definitions.contains name = true :=
  (Definitions.contains_insertNew_iff ..).2 (.inl rfl)

theorem isolated_noted (name : String) (c : Canvas α) : c.Isolated (c.noted name) :=
  ⟨c.frame_insertNew name _, rfl⟩

theorem isolated_leftAlone (hclips : c.clips.Grows d.clips) :
    c.Isolated (c.leftAlone name forms d) := by
  have hregions : c.Isolated { c with clips := d.clips } := ⟨c.frame_withClips hclips, rfl⟩
  unfold leftAlone
  dsimp only
  split
  · exact hregions.trans (isolated_noted name _)
  · exact hregions

theorem clips_leftAlone : (c.leftAlone name forms d).clips = d.clips := by
  unfold leftAlone
  dsimp only
  split
  · rfl
  · rfl

/-- What is left is noted for one of the two reasons, and is otherwise only regions. -/
theorem leftAlone_cases (name : String) (forms : List String) (c d : Canvas α) :
    (c.leftAlone name forms d).definitions.contains name = true ∨
      d.definitions.contains name = false ∧ (∀ id ∈ c.activeForms, id ∉ forms) ∧
        c.leftAlone name forms d = { c with clips := d.clips } := by
  unfold leftAlone
  dsimp only
  split
  · exact .inl (contains_noted name _)
  · next h =>
    rw [Bool.or_eq_true, not_or, Bool.not_eq_true, List.any_eq_true] at h
    exact .inr ⟨h.1, fun id hid hform => h.2 ⟨id, hid, List.contains_iff_mem.2 hform⟩, rfl⟩

theorem Orderly.leftAlone {s : Setting α} (hc : c.Orderly s) (hd : d.Orderly s) :
    (c.leftAlone name forms d).Orderly s := by
  have hregions : Canvas.Orderly s { c with clips := d.clips } :=
    ⟨hd.precision, hd.distinct, hc.named, hc.found, hc.running⟩
  unfold Canvas.leftAlone
  dsimp only
  split
  · exact hregions.insertNew name _
  · exact hregions

end Noting

end Canvas

variable [Scalar α]

/-- Draws nested content by itself, where so many levels are left. -/
def Setting.alone (s : Setting α) (name : String) (forms : List String) : Nat → Nesting α
  | 0, _, _, _, _ => fun c => .ok [] (c.noted name)
  | level + 1, graphics, resources, content, locked => fun c =>
    let d := (drawContent ⟨s, s.alone name forms level⟩ content).last
      (c.entered graphics resources locked)
    .ok d.content (c.leftAlone name forms d)

variable {s : Setting α} {name : String} {forms : List String}

/-! ### One canvas -/

section Alone

variable {level : Nat} {graphics : GraphicsState α} {resources : SetId} {content : ContentStream α}
  {locked : Bool} {c d : Canvas α}

/-- Content drawn by itself leaves the canvas around it alone. -/
theorem Setting.alone_isolates (s : Setting α) (name : String) (forms : List String) (level : Nat) :
    (Environment.mk s (s.alone name forms level)).Isolates := by
  induction level with
  | zero => exact fun _ _ _ _ c => c.isolated_noted name
  | succ level ih =>
    intro graphics resources content locked c
    exact Canvas.isolated_leftAlone
      ((framed_drawContent ih content).frame_last (c.entered graphics resources locked)).clips

theorem noted_alone (h : ∃ id ∈ c.activeForms, id ∈ forms) :
    ((s.alone name forms level graphics resources content locked).last c).definitions.contains name =
      true := by
  cases level with
  | zero => exact c.contains_noted name
  | succ level =>
    obtain ⟨id, hid, hform⟩ := h
    exact (Canvas.leftAlone_cases name forms c _).resolve_right fun hother =>
      hother.2.1 id hid hform

omit [Scalar α] in
theorem Canvas.Orderly.entered [Scalar α] (hc : c.Orderly s) :
    (c.entered graphics resources locked).Orderly s :=
  ⟨hc.precision, hc.distinct, hc.named, hc.found, hc.running⟩

/-- Drawing by itself comes to an end on an orderly canvas and leaves it orderly. -/
theorem alone_orderly (hlibrary : s.library.Coherent (· = ·)) (level : Nat) (hc : c.Orderly s) :
    ∃ nodes e, s.alone name forms level graphics resources content locked c = .ok nodes e ∧
      e.Orderly s := by
  induction level generalizing c graphics resources content locked with
  | zero => exact ⟨[], c.noted name, rfl, hc.insertNew name _⟩
  | succ level ih =>
    have hsteps : Steps s (Manner.watching fun _ => pure ()) [] True
        (Canvas.Both (Canvas.Orderly s)) fun _ g g' => g' = g ∧ True :=
      (kept_orderly hlibrary True).steps fun _ _ => rfl
    have hnested : NestsAlike (s.alone name forms level) (s.alone name forms level) True
        (Canvas.Both (Canvas.Orderly s)) fun _ g g' => g' = g ∧ True := by
      refine ⟨?_, fun h => (h trivial).elim⟩
      rintro - _ c _ graphics resources content locked ⟨rfl, hc⟩ ⟨rfl, -⟩
      obtain ⟨nodes, e, hrun, he⟩ : ∃ nodes e,
          s.alone name forms level graphics resources content locked c = .ok nodes e ∧
            e.Orderly s := ih hc
      unfold Matches
      rw [hrun]
      exact ⟨rfl, ⟨rfl, he⟩, trivial⟩
    obtain ⟨_, d, hrun, hd⟩ := (matches_drawContent hsteps hnested
      (s.alone_isolates name forms level) ⟨rfl, hc.entered⟩ content).completes fun _ h => h.running
    refine ⟨_, _, rfl, hc.leftAlone ?_⟩
    rw [last_of_ok hrun]
    exact hd

end Alone

/-! ### In surroundings -/

section Nested

variable {level : Nat} {graphics graphics' : GraphicsState α} {resources : SetId}
  {content : ContentStream α} {locked : Bool} {c d e : Canvas α}

/-- Without a request to stop, the content is drawn in a context of its own. -/
theorem nested_apply (hc : c.cancellation.onset = none) :
    s.nested (level + 1) graphics resources content locked c =
      Draw.inside { Context.start graphics resources with colorLocked := locked } (do
        drawContent ⟨s, s.nested level⟩ content
        return (← get).content) c.looked := by
  have hseen : c.cancellation.isSeen = false := by
    unfold Cancellation.isSeen
    rw [hc]
    rfl
  rw [Setting.nested, bind_apply, checkCancelled_apply c hseen]

omit [Scalar α] in
theorem inside_of_ok {β : Type} {inner : Context α} {x : Draw α β} {b : β}
    (h : x { c with context := inner, depth := c.depth + 1 } = .ok b d) :
    Draw.inside inner x c = .ok b (c.left d) := by
  unfold Draw.inside
  dsimp only
  rw [h]
  rfl

omit [Scalar α] in
theorem last_inside {β : Type} (inner : Context α) (x : Draw α β) (c : Canvas α) :
    (Draw.inside inner x).last c =
      c.left (x.last { c with context := inner, depth := c.depth + 1 }) := by
  unfold last Draw.inside
  dsimp only
  cases x { c with context := inner, depth := c.depth + 1 } <;> rfl

theorem nested_of_ok (hc : c.cancellation.onset = none)
    (h : drawContent ⟨s, s.nested level⟩ content (c.looked.entered graphics resources locked) =
      .ok () e) :
    s.nested (level + 1) graphics resources content locked c = .ok e.content (c.looked.left e) := by
  have hinside : (do
      drawContent ⟨s, s.nested level⟩ content
      return (← get).content : Draw α (List Node)) (c.looked.entered graphics resources locked) =
        .ok e.content e := by
    rw [bind_apply, h]
    rfl
  exact (nested_apply hc).trans (inside_of_ok hinside)

/-- What is drawn inside is left on the canvas around. -/
theorem last_nested (hc : c.cancellation.onset = none) :
    (s.nested (level + 1) graphics resources content locked).last c =
      c.looked.left ((drawContent ⟨s, s.nested level⟩ content).last
        (c.looked.entered graphics resources locked)) := by
  have hlast (x : Draw α Unit) (d : Canvas α) :
      (do
        x
        return (← get).content : Draw α (List Node)).last d = x.last d := by
    unfold last
    rw [bind_apply]
    cases x d <;> rfl
  have hinside := last_inside { Context.start graphics resources with colorLocked := locked } (do
    drawContent ⟨s, s.nested level⟩ content
    return (← get).content) c.looked
  rw [hlast] at hinside
  unfold last at hinside ⊢
  rw [nested_apply hc]
  exact hinside

/-! ### Following -/

/-- Nested content begins on copies. -/
theorem Canvas.Hosts.entered (h : c.Hosts s name forms d)
    (hgraphics : graphics.CutAlike c.clips d.clips graphics') :
    (c.entered graphics resources locked).Copies s name forms
      (d.looked.entered graphics' resources locked) := by
  have hclip := hgraphics.clip
  rw [hgraphics.rest]
  exact ⟨⟨h.orderly.entered, ⟨h.orderly'.precision, h.orderly'.distinct, h.orderly'.named,
    h.orderly'.found, h.orderly'.running⟩, h.known, h.named, h.active⟩, rfl, hclip, .nil, rfl, .whole⟩

omit [Scalar α] in
/-- What nested content leaves in both ways hosts each other, unless there is a note. -/
theorem Canvas.Hosts.leftAlone {c' d' : Canvas α}
    (h : c.Hosts s name forms d)
    (hinner : c'.Hosts s name forms d') (hd : d.definitions.Grows d'.definitions)
    (hactive : d'.activeForms = d.activeForms)
    (hunnoted : (c.leftAlone name forms c').definitions.contains name = false) :
    (c.leftAlone name forms c').Hosts s name forms (d.looked.left d') := by
  have horderly : (c.leftAlone name forms c').Orderly s := h.orderly.leftAlone hinner.orderly
  rcases c.leftAlone_cases name forms c' with hnoted | ⟨hinside, _, hleft⟩
  · exact absurd hnoted (Bool.eq_false_iff.1 hunnoted)
  rw [hleft] at horderly ⊢
  obtain ⟨around, haround, hforms⟩ := h.active
  refine ⟨horderly, ⟨hinner.orderly'.precision, hinner.orderly'.distinct, hinner.orderly'.named,
    hinner.orderly'.found, hinner.orderly'.running⟩, fun id hid => hd.contains (h.known id hid),
    fun hname => ?_, around, haround, hactive.trans hforms⟩
  exact absurd (hinner.named hname) (Bool.eq_false_iff.1 hinside)

/-- Content that is drawn by itself, and not on the other page, leaves pages
that host each other. -/
theorem exists_alone (hlibrary : s.library.Coherent (· = ·)) (level : Nat)
    (graphics : GraphicsState α) (resources : SetId) (content : ContentStream α) (locked : Bool)
    (h : c.Hosts s name forms d) :
    ∃ nodes e, s.alone name forms level graphics resources content locked c = .ok nodes e ∧
      (e.definitions.contains name = false → e.Hosts s name forms d) := by
  obtain ⟨nodes, e, hrun, he⟩ : ∃ nodes e,
      s.alone name forms level graphics resources content locked c = .ok nodes e ∧ e.Orderly s :=
    alone_orderly hlibrary level h.orderly
  refine ⟨nodes, e, hrun, fun hunnoted => ?_⟩
  cases level with
  | zero =>
    cases hrun
    exact absurd (c.contains_noted name) (Bool.eq_false_iff.1 hunnoted)
  | succ level =>
    cases hrun
    rcases c.leftAlone_cases name forms ((drawContent ⟨s, s.alone name forms level⟩ content).last
      (c.entered graphics resources locked)) with hnoted | ⟨_, _, hleft⟩
    · exact absurd hnoted (Bool.eq_false_iff.1 hunnoted)
    · rw [hleft] at he ⊢
      exact ⟨he, h.orderly', h.known, h.named, h.active⟩

/-- One level of nesting follows if the level below does. -/
theorem follows_alone (hlibrary : s.library.Coherent (· = ·)) {level level' : Nat}
    (hn : NestsFollow s name forms (s.alone name forms level) (s.nested level'))
    (h : c.Hosts s name forms d) (hgraphics : graphics.CutAlike c.clips d.clips graphics') :
    Follows name (Canvas.Hosts s name forms)
      (s.alone name forms (level + 1) graphics resources content locked)
      (s.nested (level' + 1) graphics' resources content locked) c d := by
  have hentered : (c.entered graphics resources locked).Copies s name forms
      (d.looked.entered graphics' resources locked) := h.entered hgraphics
  have hinner := follows_drawContent hn hlibrary hentered content
  have hframe := (framed_drawContent hn.isolates' content).frame_last
    (d.looked.entered graphics' resources locked)
  refine ⟨fun hgood => ?_⟩
  rw [last_nested h.orderly'.running] at hgood
  -- What is good on the canvas around was good inside.
  have hinside : ((drawContent ⟨s, s.alone name forms level⟩ content).last
      (c.entered graphics resources locked)).Unspoilt name
        ((drawContent ⟨s, s.nested level'⟩ content).last
          (d.looked.entered graphics' resources locked)) := by
    have hconsistent := hgood.consistent
    rcases c.leftAlone_cases name forms ((drawContent ⟨s, s.alone name forms level⟩ content).last
      (c.entered graphics resources locked)) with hnoted | ⟨hunnoted, _, _⟩
    · exact absurd hnoted (Bool.eq_false_iff.1 hgood.unnamed)
    · exact ⟨hunnoted, Canvas.clips_leftAlone (c := c) ▸ hconsistent⟩
  obtain ⟨_, c', d', hrun, hrun', hcopy⟩ := hinner.run hinside
  have halone : s.alone name forms (level + 1) graphics resources content locked c =
      .ok c'.content (c.leftAlone name forms c') := by
    rw [← last_of_ok hrun]
    rfl
  rw [last_of_ok halone] at hgood
  rw [last_of_ok hrun'] at hframe
  refine ⟨c'.content, _, d.looked.left d', halone, ?_,
    h.leftAlone hcopy.toHosts hframe.definitions hframe.activeForms hgood.unnamed⟩
  rw [nested_of_ok h.orderly'.running hrun', hcopy.content_eq]

/-- **Content is nested on a page as it is drawn by itself**, unless that makes a note. -/
theorem nestsFollow_alone (hlibrary : s.library.Coherent (· = ·)) (name : String)
    (forms : List String) {level level' : Nat} (hlevel : level ≤ level') :
    NestsFollow s name forms (s.alone name forms level) (s.nested level') := by
  induction level generalizing level' with
  | zero =>
    refine ⟨s.alone_isolates name forms 0, s.nested_isolates level',
      fun _ _ _ _ _ _ _ => .of_named ?_,
      fun graphics resources content locked h => exists_alone hlibrary 0 graphics resources content
        locked h, fun _ _ _ _ h => noted_alone h⟩
    rw [last_orSkip]
    exact Canvas.contains_noted name _
  | succ level ih =>
    obtain ⟨below, rfl⟩ : ∃ below, level' = below + 1 := Nat.exists_eq_succ_of_ne_zero (by omega)
    have hbelow := ih (Nat.le_of_succ_le_succ hlevel)
    exact ⟨s.alone_isolates name forms (level + 1), s.nested_isolates (below + 1),
      fun _ _ _ _ _ h hgraphics => .orSkip (follows_alone hlibrary hbelow h hgraphics),
      fun graphics resources content locked h => exists_alone hlibrary (level + 1) graphics resources
        content locked h, fun _ _ _ _ h => noted_alone h⟩

end Nested

end PageSvg
