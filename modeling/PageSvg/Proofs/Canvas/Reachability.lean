import PageSvg.Proofs.Canvas.Simulation
import PageSvg.Proofs.Canvas.Sparing

/-!
# States that a page passes through

A state is a canvas together with the contexts around its content. A page passes through the states
between the operations of its content and of all nested content. They are found by watching: a
state is reached if something done there, and nowhere else, can make a difference to the page.

What each step of drawing keeps, and nested content takes over from the content around it, holds of
all states that are reached.
-/

namespace PageSvg

open Draw

variable {α β : Type} [Scalar α]

/-! ### Reached states -/

/-- The page passes through the canvas `c` with the contexts `outer` around. -/
def Converter.Reaches (v : Converter α) (p : Page α) (outer : List (Context α))
    (c : Canvas α) : Prop :=
  ∃ watch : List (Context α) → Draw α Unit,
    (∀ around d, watch around d ≠ .ok () d → around = outer ∧ d = c) ∧
      (Manner.watching watch).drawPage (p.setting v.options v.library) p (v.canvas p) ≠
        p.draw (p.setting v.options v.library) (v.canvas p)

section Stopping

variable {v : Converter α} {p : Page α} {c : Canvas α}

open Classical in
/-- Stops drawing in one state of the content of a page, and does nothing in others. -/
noncomputable def stopIn (c : Canvas α) (around : List (Context α)) : Draw α Unit := fun d =>
  if around = [] ∧ d = c then .error .cancelled d else .ok () d

omit [Scalar α] in
theorem stopIn_self : stopIn c [] c = .error .cancelled c := if_pos ⟨rfl, rfl⟩

omit [Scalar α] in
theorem stopIn_cases (around : List (Context α)) (d : Canvas α) :
    stopIn c around d = .error .cancelled d ∨ stopIn c around d = .ok () d := by
  unfold stopIn
  split
  · exact .inl rfl
  · exact .inr rfl

/-- A state is reached if stopping there stops the page, which is drawn to its end otherwise. -/
theorem Converter.reaches_of_stopIn {d : Canvas α}
    (hplain : p.draw (p.setting v.options v.library) (v.canvas p) = .ok () d)
    (hstopped : ∃ e, (Manner.watching (stopIn c)).drawPage (p.setting v.options v.library) p
      (v.canvas p) = .error .cancelled e) : v.Reaches p [] c := by
  obtain ⟨e, hstopped⟩ := hstopped
  refine ⟨stopIn c, fun around d h => ?_, ?_⟩
  · by_contra hnot
    exact h (if_neg hnot)
  · rw [hplain, hstopped]
    exact fun h => nomatch h

/-- Content that comes to a state is stopped there, or in a state before it. -/
theorem executeAll_stopIn {env : Environment α} {ops : ContentStream α} {d : Canvas α}
    (hrun : PageSvg.executeAll env ops d = .ok () c) :
    ∃ e, (Manner.watching (stopIn c)).executeAll env [] ops d = .error .cancelled e := by
  induction ops generalizing d with
  | nil =>
    cases hrun
    exact ⟨c, stopIn_self⟩
  | cons op rest ih =>
    obtain ⟨hseen, b, e, hop, hrest⟩ := executeAll_cons_ok hrun
    have hwatched : (Manner.watching (stopIn c)).execute env op d.looked = .ok b e :=
      (congrFun (Manner.watching_execute _ env op) _).trans hop
    have hstop : (Manner.watching (stopIn c)).watch [] = stopIn c [] := rfl
    rw [Manner.executeAll, bind_apply, hstop]
    rcases stopIn_cases (c := c) [] d with hstopped | hpassed
    · exact ⟨d, by rw [hstopped]⟩
    · simp only [hpassed, bind_apply, checkCancelled_apply _ hseen, hwatched]
      exact ih hrest

/-- The state in which the content of a page ends is reached, before its waiting text is drawn. -/
theorem Converter.reaches_executed (v : Converter α) {p : Page α} (hoverlays : p.overlays = [])
    (hrun : ∀ n, PageSvg.executeAll ⟨p.setting v.options v.library, n⟩ p.content (v.canvas p) =
      .ok () c) :
    v.Reaches p [] c := by
  refine Converter.reaches_of_stopIn (d := c.flushText v.options) ?_ ?_
  · rw [Page.draw, hoverlays]
    simp only [drawContent, bind_apply,
      show PageSvg.executeAll (p.setting v.options v.library).environment p.content (v.canvas p) = _
        from hrun _]
    rfl
  · let s := p.setting v.options v.library
    obtain ⟨e, hstopped⟩ : ∃ e, (Manner.watching (stopIn c)).executeAll
        ((Manner.watching (stopIn c)).environment s s.options.maxNestingDepth []) [] p.content
        (v.canvas p) = .error .cancelled e := executeAll_stopIn (hrun _)
    refine ⟨e, ?_⟩
    rw [Manner.drawPage, hoverlays]
    simp only [Manner.drawContent, bind_apply, s, hstopped]

/-- The state in which a page begins is reached. -/
theorem Converter.reaches_canvas (v : Converter α) {p : Page α} (hcontent : p.content = [])
    (hoverlays : p.overlays = []) : v.Reaches p [] (v.canvas p) :=
  v.reaches_executed hoverlays fun _ => by rw [hcontent]; rfl

end Stopping

/-! ### Steps -/

/-- The same canvas, of which `I` holds. -/
def Canvas.Both (I : Canvas α → Prop) (c c' : Canvas α) : Prop := c' = c ∧ I c

omit [Scalar α] in
/-- What matches itself without a request to stop ends with a value. -/
theorem Draw.Matches.completes {β : Type} {I : Canvas α → Prop} {x x' : Draw α β} {c : Canvas α}
    (h : Matches (Canvas.Both I) x x' c c fun _ _ _ => True)
    (hrunning : ∀ d, I d → d.cancellation.onset = none) : ∃ b d, x c = .ok b d ∧ I d := by
  unfold Matches at h
  split at h
  · next b d _ d' hok _ =>
    obtain ⟨_, ⟨_, hd⟩, _⟩ := h
    exact ⟨b, d, hok, hd⟩
  · next fault d _ d' _ _ =>
    obtain ⟨_, ⟨_, hd⟩, hstopped⟩ := h
    unfold Canvas.IsStopped at hstopped
    rw [hrunning d hd] at hstopped
    cases hstopped
  · exact h.elim

/-- Each step of drawing keeps `I`. Content may still be nested if `deep`, and begins in graphics
states as in `G`. -/
structure Kept (s : Setting α) (deep : Prop) (I : Canvas α → Prop)
    (G : ClipForest α → GraphicsState α → Prop) : Prop where
  look : ∀ {c}, I c → I c.looked
  adjust : ∀ {c n} (a : Adjustment α), a.Known s → I c → I (a.apply ⟨s, n⟩ c)
  save : ∀ {c}, I c → I c.save
  restore : ∀ {c}, I c → I c.restore
  setSoftMask : ∀ {c} (mask : Option String), I c → I (c.setSoftMask mask)
  layout : ∀ {c} (layout : TextLayout α), I c → I (c.mapContext fun k => { k with layout })
  outlines : ∀ {c} (outlines : List Node), I c → I (c.mapContext fun k => { k with outlines })
  style : ∀ {c n n'}, Painting s n n' deep (Canvas.Both I) → (Environment.mk s n).Isolates →
    ∀ scale, I c →
    Matches (Canvas.Both I) (currentStyle ⟨s, n⟩ scale) (currentStyle ⟨s, n'⟩ scale) c c
      fun _ _ _ => True
  push : ∀ {c} (node : Node), I c → I (c.push node)
  append : ∀ {c} (node : Node) (bounds : Option (Rectangle α)), I c →
    I (c.append s.options node bounds)
  classes : ∀ {c} (classes : Keyed String),
    (c.definitions.Named → { c.definitions with classes }.Named) → I c →
    I { c with definitions := { c.definitions with classes } }
  insert : ∀ {c kind}, kind ∈ paintKinds → ∀ (key : String) (node : Node), I c →
    I { c with definitions := c.definitions.insertNew (stableId kind key) node }
  insertCell : deep → ∀ {c} (key : String) (node : Node), I c →
    I { c with definitions := c.definitions.insertNew (stableId "pat" key) node }
  /-- The path is one that was under construction. -/
  clipTo : ∀ {b c} (evenOdd : Bool), I b → I c →
    I (c.clipTo (Path.transform c.graphics.ctm b.context.path) evenOdd)
  clipToText : ∀ {c} (nodes : List Node), I c → I (c.clipToText nodes)
  formRegion : ∀ {c} (parent : Option Nat) (box : Option (Rectangle α)) (placement : Matrix α),
    parent = none ∨ parent = c.graphics.clip → I c →
    I (c.formRegion s.viewport parent box placement).2
  activeForms : ∀ {c} (forms : List String), (c.activeForms.Nodup → forms.Nodup) → I c →
    I { c with activeForms := forms }
  startCell : ∀ {c} (t : Tiling α) (paint : Paint α), s.HasPattern (.tiling t) → I c →
    G c.clips (t.cellState paint)
  startGlyph : ∀ {c} (ctm : Matrix α), I c →
    G c.clips { c.graphics with ctm := ctm, text := .standard }
  startForm : ∀ {c} (box : Option (Rectangle α)) (ctm : Matrix α), I c →
    G (c.formRegion s.viewport c.graphics.clip box ctm).2.clips
      { c.graphics with
        ctm := ctm
        blendMode := none
        softMask := none
        clip := (c.formRegion s.viewport c.graphics.clip box ctm).1 }
  startPage : ∀ {c} (parent : Option Nat) (box : Option (Rectangle α)) (ctm : Matrix α),
    parent = none ∨ parent = c.graphics.clip → I c →
    G (c.formRegion s.viewport parent box ctm).2.clips
      { GraphicsState.initial ctm with clip := (c.formRegion s.viewport parent box ctm).1 }

/-- A cell begins without text. -/
theorem Tiling.text_cellState (t : Tiling α) (paint : Paint α) :
    (t.cellState paint).text = .standard := by
  unfold cellState
  dsimp only
  split <;> rfl

/-- A cell begins in the whole area. -/
theorem Tiling.clip_cellState (t : Tiling α) (paint : Paint α) : (t.cellState paint).clip = none := by
  unfold cellState
  dsimp only
  split <;> rfl

/-- The paints, the text state, the saved states, the last style of text, the shared resources and
the request to stop stay as they are. -/
structure Canvas.Undisturbed (c d : Canvas α) : Prop where
  fill : d.graphics.fill = c.graphics.fill
  stroke : d.graphics.stroke = c.graphics.stroke
  text : d.graphics.text = c.graphics.text
  saved : d.context.saved = c.context.saved
  textStyle : d.context.textStyle = c.context.textStyle
  cache : d.cache = c.cache
  onset : d.cancellation.onset = c.cancellation.onset

omit [Scalar α] in
theorem Canvas.Redraws.undisturbed {c d : Canvas α} (h : c.Redraws d) : c.Undisturbed d := by
  unfold Redraws at h
  rw [h]
  exact ⟨rfl, rfl, rfl, rfl, rfl, rfl, rfl⟩

/-- `I` observes only what stays undisturbed by output, regions and definitions, and is kept by what
changes that. -/
structure Observes (s : Setting α) (deep : Prop) (I : Canvas α → Prop)
    (G : ClipForest α → GraphicsState α → Prop) : Prop where
  undisturbed : ∀ {c d}, c.Undisturbed d → I c → I d
  adjust : ∀ {c n} (a : Adjustment α), a.Known s → I c → I (a.apply ⟨s, n⟩ c)
  save : ∀ {c}, I c → I c.save
  restore : ∀ {c}, I c → I c.restore
  style : ∀ {c n n'}, Painting s n n' deep (Canvas.Both I) → (Environment.mk s n).Isolates →
    ∀ scale, I c →
    Matches (Canvas.Both I) (currentStyle ⟨s, n⟩ scale) (currentStyle ⟨s, n'⟩ scale) c c
      fun _ _ _ => True
  startCell : ∀ {c} (t : Tiling α) (paint : Paint α), s.HasPattern (.tiling t) → I c →
    G c.clips (t.cellState paint)
  startGlyph : ∀ {c} (ctm : Matrix α), I c →
    G c.clips { c.graphics with ctm := ctm, text := .standard }
  startForm : ∀ {c} (box : Option (Rectangle α)) (ctm : Matrix α), I c →
    G (c.formRegion s.viewport c.graphics.clip box ctm).2.clips
      { c.graphics with
        ctm := ctm
        blendMode := none
        softMask := none
        clip := (c.formRegion s.viewport c.graphics.clip box ctm).1 }
  startPage : ∀ {c} (parent : Option Nat) (box : Option (Rectangle α)) (ctm : Matrix α),
    parent = none ∨ parent = c.graphics.clip → I c →
    G (c.formRegion s.viewport parent box ctm).2.clips
      { GraphicsState.initial ctm with clip := (c.formRegion s.viewport parent box ctm).1 }

section Steps

variable {s : Setting α} {deep : Prop} {I : Canvas α → Prop}
  {G : ClipForest α → GraphicsState α → Prop} {c : Canvas α}

/-- The steps that are left do not disturb what is observed. -/
theorem Observes.kept (h : Observes s deep I G) : Kept s deep I G where
  look := h.undisturbed ⟨rfl, rfl, rfl, rfl, rfl, rfl, rfl⟩
  adjust := h.adjust
  save := h.save
  restore := h.restore
  setSoftMask _ := h.undisturbed ⟨rfl, rfl, rfl, rfl, rfl, rfl, rfl⟩
  layout _ := h.undisturbed ⟨rfl, rfl, rfl, rfl, rfl, rfl, rfl⟩
  outlines _ := h.undisturbed ⟨rfl, rfl, rfl, rfl, rfl, rfl, rfl⟩
  style := h.style
  push _ := h.undisturbed ⟨rfl, rfl, rfl, rfl, rfl, rfl, rfl⟩
  append {c} node bounds := h.undisturbed (Canvas.redraws_append s.options node bounds c).undisturbed
  classes _ _ := h.undisturbed ⟨rfl, rfl, rfl, rfl, rfl, rfl, rfl⟩
  insert _ _ _ := h.undisturbed ⟨rfl, rfl, rfl, rfl, rfl, rfl, rfl⟩
  insertCell _ _ _ _ := h.undisturbed ⟨rfl, rfl, rfl, rfl, rfl, rfl, rfl⟩
  clipTo _ _ := h.undisturbed ⟨rfl, rfl, rfl, rfl, rfl, rfl, rfl⟩
  clipToText _ := h.undisturbed ⟨rfl, rfl, rfl, rfl, rfl, rfl, rfl⟩
  formRegion {c} parent box placement _ :=
    h.undisturbed (Canvas.redraws_formRegion s.viewport parent box placement c).undisturbed
  activeForms _ _ := h.undisturbed ⟨rfl, rfl, rfl, rfl, rfl, rfl, rfl⟩
  startCell := h.startCell
  startGlyph := h.startGlyph
  startForm := h.startForm
  startPage := h.startPage

namespace Kept

variable (h : Kept s deep I G)

include h

theorem showPiece {n n' : Nesting α} (hn : Painting s n n' deep (Canvas.Both I))
    (hi : (Environment.mk s n).Isolates) (font : Font α)
    (piece : List UInt8) (spaces : Nat) (hI : I c) :
    Matches (Canvas.Both I) (PageSvg.showPiece ⟨s, n⟩ font piece spaces)
      (PageSvg.showPiece ⟨s, n'⟩ font piece spaces) c c fun _ _ _ => True := by
  unfold PageSvg.showPiece
  refine .getBind (.setBind (.bind (h.style hn hi _ (h.layout _ hI)) fun style d d' hd _ => ?_))
  obtain ⟨rfl, hd⟩ := hd
  exact .modify ⟨rfl, h.adjust (n := n) (.advance _) trivial (h.layout _ hd)⟩ trivial

/-- What is done between operations changes nothing where `I` holds: the steps match themselves. -/
theorem steps {watch : List (Context α) → Draw α Unit} {outer : List (Context α)}
    (hwatch : ∀ c, I c → watch outer c = .ok () c) :
    Steps s (Manner.watching watch) outer deep (Canvas.Both I)
      fun clips g g' => g' = g ∧ G clips g where
  agrees := by
    rintro _ c ⟨rfl, _⟩
    exact ⟨.refl _, rfl, rfl, rfl, rfl, rfl, rfl, rfl, rfl⟩
  look := by
    rintro _ c ⟨rfl, hI⟩
    exact ⟨rfl, rfl, h.look hI⟩
  watch := by
    rintro _ c ⟨rfl, hI⟩
    have hw : (Manner.watching watch).watch outer c = .ok () c := hwatch c hI
    unfold Matches
    rw [hw]
    exact ⟨rfl, ⟨rfl, hI⟩, trivial⟩
  adjust := by
    rintro _ c n a ha ⟨rfl, hI⟩
    exact ⟨rfl, h.adjust a ha hI⟩
  save := by
    rintro _ c ⟨rfl, hI⟩
    exact ⟨rfl, h.save hI⟩
  restore := by
    rintro _ c ⟨rfl, hI⟩
    exact ⟨rfl, h.restore hI⟩
  setSoftMask := by
    rintro _ c mask ⟨rfl, hI⟩
    exact ⟨rfl, h.setSoftMask mask hI⟩
  text := by
    rintro _ c ⟨rfl, _⟩
    exact List.forall₂_same.2 fun p _ => .refl _ p
  clearText := by
    rintro _ c ⟨rfl, hI⟩
    exact ⟨rfl, h.layout .empty hI⟩
  outlines := by
    rintro _ c outlines ⟨rfl, hI⟩
    exact ⟨rfl, h.outlines outlines hI⟩
  classes := by
    rintro _ c classes hnamed ⟨rfl, hI⟩
    exact ⟨rfl, h.classes classes hnamed hI⟩
  addGlyphs := by
    rintro _ c nodes ⟨rfl, hI⟩
    exact ⟨rfl, h.layout _ hI⟩
  showPiece := by
    rintro _ c n n' hn hi font piece spaces ⟨rfl, hI⟩
    exact h.showPiece hn hi font piece spaces hI
  push := by
    rintro _ c node _ ⟨rfl, hI⟩
    exact ⟨rfl, h.push node hI⟩
  append := by
    rintro _ c node bounds _ ⟨rfl, hI⟩
    exact ⟨rfl, h.append node bounds hI⟩
  insert := by
    rintro _ c kind hkind key node ⟨rfl, hI⟩
    exact ⟨rfl, h.insert hkind key node hI⟩
  insertCell := by
    rintro hdeep _ c key node ⟨rfl, hI⟩
    exact ⟨rfl, h.insertCell hdeep key node hI⟩
  clipTo := by
    rintro _ b _ c evenOdd ⟨rfl, hb⟩ ⟨rfl, hI⟩
    exact ⟨rfl, h.clipTo evenOdd hb hI⟩
  clipToText := by
    rintro _ c nodes ⟨rfl, hI⟩
    exact ⟨rfl, h.clipToText nodes hI⟩
  formRegion := by
    rintro _ c parent box placement hparent ⟨rfl, hI⟩
    exact ⟨rfl, h.formRegion parent box placement hparent hI⟩
  activeForms := by
    rintro _ c forms hforms ⟨rfl, hI⟩
    exact ⟨rfl, h.activeForms forms hforms hI⟩
  startCell t paint ht hc := ⟨rfl, h.startCell t paint ht hc.2⟩
  startGlyph := by
    rintro _ c ctm ⟨rfl, hI⟩
    exact ⟨rfl, h.startGlyph ctm hI⟩
  startForm := by
    rintro _ c box ctm ⟨rfl, hI⟩
    exact ⟨rfl, h.startForm box ctm hI⟩
  startPage parent box ctm hparent hc := ⟨rfl, h.startPage parent box ctm hparent hc.2⟩

end Kept

end Steps

/-! ### Invariants -/

/-- `I` is kept on every level, and nested content takes it over and hands it back. It may depend on
the levels of nesting that are left, and on the contexts around. -/
structure Invariant (s : Setting α) (I : Nat → List (Context α) → Canvas α → Prop)
    (G : ClipForest α → GraphicsState α → Prop) : Prop where
  kept : ∀ level outer, Kept s (level ≠ 0) (I level outer) G
  enter : ∀ {level outer c} graphics resources locked, I (level + 1) outer c →
    G c.clips graphics → I level (c.context :: outer) (c.entered graphics resources locked)
  leave : ∀ {level outer c graphics resources locked d}, I (level + 1) outer c →
    (c.entered graphics resources locked).Frame d → I level (c.context :: outer) d →
    I (level + 1) outer (c.left d)

namespace Invariant

variable {v : Converter α} {p : Page α} {I : Nat → List (Context α) → Canvas α → Prop}
  {G : ClipForest α → GraphicsState α → Prop}

theorem simulation {s : Setting α} (h : Invariant s I G)
    {watch : List (Context α) → Draw α Unit}
    (hwatch : ∀ level outer c, I level outer c → watch outer c = .ok () c) :
    Simulation s (Manner.watching watch) (fun level outer => Canvas.Both (I level outer))
      fun clips g g' => g' = g ∧ G clips g where
  steps level outer := (h.kept level outer).steps (hwatch level outer)
  content := by
    rintro level outer _ c ⟨rfl, _⟩
    rfl
  enter := by
    rintro level outer _ c _ _ resources locked ⟨rfl, hI⟩ ⟨rfl, hG⟩
    exact ⟨rfl, h.enter _ resources locked hI hG⟩
  leave := by
    rintro level outer _ c graphics resources locked _ d ⟨rfl, hI⟩ hframe ⟨rfl, hd⟩
    exact ⟨rfl, h.leave hI hframe hd⟩

/-- **An invariant holds of all states that are reached**, on some level. -/
theorem of_reaches (h : Invariant (p.setting v.options v.library) I G)
    (hstart : I v.options.maxNestingDepth [] (v.canvas p)) {outer : List (Context α)}
    {c : Canvas α} (hc : v.Reaches p outer c) : ∃ level, I level outer c := by
  by_contra hnot
  obtain ⟨watch, hwatch, hdiffers⟩ := hc
  -- Nothing is done where the invariant holds, so the watched run is the plain one.
  have hquiet (level : Nat) (around : List (Context α)) (d : Canvas α) (hd : I level around d) :
      watch around d = .ok () d := by
    by_contra hact
    obtain ⟨rfl, rfl⟩ := hwatch around d hact
    exact hnot ⟨level, hd⟩
  have hmatch := (h.simulation hquiet).drawPage p (c := v.canvas p) ⟨rfl, hstart⟩
  refine hdiffers ?_
  unfold Matches at hmatch
  split at hmatch
  · next hplain hwatched =>
    obtain ⟨rfl, ⟨rfl, _⟩, _⟩ := hmatch
    rw [hplain, hwatched]
  · next hplain hwatched =>
    obtain ⟨⟨rfl, rfl⟩, ⟨rfl, _⟩, _⟩ := hmatch
    rw [hplain, hwatched]
  · exact hmatch.elim

end Invariant

end PageSvg
