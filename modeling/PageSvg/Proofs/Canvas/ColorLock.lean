import PageSvg.Proofs.Canvas.Completion
import PageSvg.Proofs.Canvas.SavedStates

/-!
# The colour lock

While the lock is on, the operators on colours might as well be left out. A form takes the lock over
from the content around it, so this holds of all forms inside as well. The procedure of a glyph does
not take it over: each begins without the lock, wherever it is drawn, and gets one when it says that
its glyph has a box.
-/

namespace PageSvg

open Draw

variable {α β : Type} [Scalar α]

/-! ### Operators on colours -/

namespace Operator

/-- The names of the operators on colours. -/
def colorNames : List String :=
  ["CS", "cs", "SC", "SCN", "sc", "scn", "G", "g", "RG", "rg", "K", "k"]

/-- Does the operator set a paint? -/
def setsPaint : Operator → Bool
  | colorSpace _ | color _ | pattern _ | colorOrPattern _ | gray _ | rgb _ | cmyk _ => true
  | _ => false

theorem setsPaint_of_mem_candidates :
    ∀ name ∈ colorNames, ∀ c ∈ table.candidates name, c.action.setsPaint = true := by
  decide +kernel

end Operator

theorem OperatorTable.exists_mem_of_firstAccepting {operands : List (Operand α)}
    {candidates : List (Candidate β)} {action : β} {args : Arguments α}
    (h : firstAccepting operands candidates = some (action, args)) :
    ∃ c ∈ candidates, c.action = action := by
  induction candidates with
  | nil => cases h
  | cons c rest ih =>
    unfold firstAccepting at h
    split at h
    · cases h
      exact ⟨c, .head _, rfl⟩
    · obtain ⟨d, hd, haction⟩ := ih h
      exact ⟨d, .tail _ hd, haction⟩

/-- Is it an operation on colours? -/
def Operation.isColor (op : Operation α) : Bool := Operator.colorNames.contains op.operator

theorem Operation.setsPaint_of_isColor {op : Operation α} (h : op.isColor = true)
    {operator : Operator} {args : Arguments α}
    (hresolved : Operator.table.resolve op.operator op.operands = some (operator, args)) :
    operator.setsPaint = true := by
  obtain ⟨c, hc, rfl⟩ := OperatorTable.exists_mem_of_firstAccepting hresolved
  exact Operator.setsPaint_of_mem_candidates _ (List.contains_iff_mem.1 h) c hc

section Locked

variable {c : Canvas α} (h : c.context.colorLocked = true)

include h

theorem Canvas.setColorOrPattern_of_colorLocked (target : PaintTarget)
    (operands : List (Operand α)) : c.setColorOrPattern target operands = c := by
  unfold setColorOrPattern
  dsimp only
  split
  · exact if_pos h
  · split
    · exact if_pos h
    · rfl

/-- An operator on colours changes nothing while the lock is on. -/
theorem Operator.perform_of_colorLocked (env : Environment α) (args : Arguments α)
    {operator : Operator} (hoperator : operator.setsPaint = true) :
    operator.perform env args c = .ok () c := by
  have hsame {f : Canvas α → Canvas α} (hf : f c = c) : (modify f : Draw α Unit) c = .ok () c :=
    congrArg (EStateM.Result.ok ()) hf
  cases operator with
  | colorSpace target => exact hsame (if_pos h)
  | color target => exact hsame (if_pos h)
  | pattern target => exact hsame (if_pos h)
  | colorOrPattern target => exact hsame (c.setColorOrPattern_of_colorLocked h target _)
  | gray target => exact hsame (if_pos h)
  | rgb target => exact hsame (if_pos h)
  | cmyk target => exact hsame (if_pos h)
  | _ => cases hoperator

theorem execute_of_colorLocked (env : Environment α) {op : Operation α} (hop : op.isColor = true) :
    ∃ b, execute env op c = .ok b c := by
  unfold execute OperatorTable.dispatch
  cases hresolved : Operator.table.resolve op.operator op.operands with
  | none => exact ⟨false, rfl⟩
  | some resolved =>
    refine ⟨true, ?_⟩
    dsimp only
    rw [bind_apply, Operator.perform_of_colorLocked h env _ (op.setsPaint_of_isColor hop hresolved)]
    rfl

end Locked

/-! ### Content without the operators on colours -/

/-- Does the operation turn the lock on? -/
def Operation.locksColors (op : Operation α) : Bool := op.executed? == some .glyphBox

/-- The content without the operations on colours that come after the lock is on. -/
def ContentStream.decolored : Bool → ContentStream α → ContentStream α
  | _, [] => []
  | locked, op :: rest =>
    if locked && op.isColor then decolored locked rest
    else op :: decolored (locked || op.locksColors) rest

/-- Draws nested content as the interpreter does, but without the operations on colours where the
lock is on, on every level. -/
def Setting.decolored (s : Setting α) : Nat → Nesting α
  | 0, _, _, _, _ => do
    Draw.checkCancelled
    throw (.nestingTooDeep s.options.maxNestingDepth)
  | level + 1, graphics, resources, content, locked => do
    Draw.checkCancelled
    Draw.inside { Context.start graphics resources with colorLocked := locked } do
      drawContent { toSetting := s, nested := decolored s level } (content.decolored locked)
      return (← get).content

/-! ### Canvases with and without the operators on colours -/

/-- All that differs is how often the request to stop was looked for, and there is none. If
`locked`, the lock is on. -/
structure Canvas.LooksApart (locked : Bool) (c c' : Canvas α) : Prop where
  eq : ∃ looks, c' = { c with cancellation.looks := looks }
  running : c.cancellation.onset = none
  lock : locked = true → c.context.colorLocked = true

section Steps

variable {s : Setting α} {locked : Bool} {c c' : Canvas α}

omit [Scalar α] in
theorem Canvas.Redraws.colorLocked {c d : Canvas α} (h : c.Redraws d) :
    d.context.colorLocked = c.context.colorLocked := by
  rw [h]

theorem Canvas.colorLocked_restore (c : Canvas α) :
    c.restore.context.colorLocked = c.context.colorLocked := by
  unfold restore
  split
  · rfl
  · dsimp only
    split <;> rfl

/-- No adjustment turns the lock off. -/
theorem Adjustment.colorLocked_apply (a : Adjustment α) (env : Environment α)
    (h : c.context.colorLocked = true) : (a.apply env c).context.colorLocked = true := by
  have hsame {d : Canvas α} (hd : d = c) : d.context.colorLocked = true := hd ▸ h
  have hunless (c : Canvas α) (h : c.context.colorLocked = true) (same : Bool)
      (f : GraphicsState α → GraphicsState α) :
      (c.mapUnless same f).context.colorLocked = true := by
    unfold Canvas.mapUnless
    split
    · exact h
    · exact h
  cases a with
  | transform m =>
    dsimp only [apply, Canvas.transform]
    split
    · exact h
    · exact h
  | lineCap code =>
    dsimp only [apply, Canvas.setLineCap]
    split
    · exact h
    · exact h
  | lineJoin code =>
    dsimp only [apply, Canvas.setLineJoin]
    split
    · exact h
    · exact h
  | renderMode code =>
    dsimp only [apply, Canvas.setRenderMode]
    split
    · exact hunless c h _ _
    · exact h
  | selectFont name size =>
    refine hunless _ ?_ _ _
    show (c.findFont env name).2.context.colorLocked = true
    unfold Canvas.findFont
    dsimp only
    split
    · exact h
    · exact h
  | lineWidth width => exact hunless c h _ _
  | fillAlpha alpha => exact hunless c h _ _
  | strokeAlpha alpha => exact hunless c h _ _
  | font f size => exact hunless c h _ _
  | charSpacing spacing => exact hunless c h _ _
  | scaling percent => exact hunless c h _ _
  | colorSpace target name => exact hsame (if_pos h)
  | components target values => exact hsame (if_pos h)
  | pattern target name values => exact hsame (if_pos h)
  | colorOrPattern target operands => exact hsame (c.setColorOrPattern_of_colorLocked h target _)
  | deviceColor target space values => exact hsame (if_pos h)
  | lockColors => rfl
  | _ => exact h

omit [Scalar α] in
/-- What overlooks other things overlooks how often the request to stop was looked for. -/
theorem Canvas.Overlooks.looks {f : Canvas α → Canvas α} (h : Overlooks f c) (looks : Nat) :
    f { c with cancellation.looks := looks } = { f c with cancellation.looks := looks } := by
  obtain ⟨forgets, h⟩ := h
  have hself := h c.context.drawn c.context.layout c.context.textStyle c.cancellation.looks
  have hother := h c.context.drawn c.context.layout c.context.textStyle looks
  exact hother.trans
    (congrArg (fun d : Canvas α => { d with cancellation.looks := looks }) hself).symm

namespace Canvas.LooksApart

omit [Scalar α] in
theorem agrees (h : c.LooksApart locked c') : c.Agrees c' := by
  obtain ⟨_, rfl⟩ := h.eq
  exact ⟨.refl _, rfl, rfl, rfl, rfl, rfl, rfl, rfl, rfl⟩

omit [Scalar α] in
theorem isSeen (h : c.LooksApart locked c') :
    c.cancellation.isSeen = false ∧ c'.cancellation.isSeen = false := by
  obtain ⟨_, rfl⟩ := h.eq
  unfold Cancellation.isSeen
  rw [h.running]
  exact ⟨rfl, rfl⟩

omit [Scalar α] in
theorem looked_left (h : c.LooksApart locked c') : c.looked.LooksApart locked c' := by
  obtain ⟨looks, rfl⟩ := h.eq
  exact ⟨⟨looks, rfl⟩, h.running, h.lock⟩

omit [Scalar α] in
theorem map (h : c.LooksApart locked c') {f : Canvas α → Canvas α}
    (hf : ∀ looks, f { c with cancellation.looks := looks } =
      { f c with cancellation.looks := looks })
    (hwatch : (f c).cancellation = c.cancellation)
    (hlock : c.context.colorLocked = true → (f c).context.colorLocked = true) :
    (f c).LooksApart locked (f c') := by
  obtain ⟨looks, rfl⟩ := h.eq
  exact ⟨⟨looks, hf looks⟩, hwatch ▸ h.running, fun hlocked => hlock (h.lock hlocked)⟩

omit [Scalar α] in
/-- What is drawn does not depend on how often the request to stop was looked for. -/
theorem redrawn (h : c.LooksApart locked c') {f : Canvas α → Canvas α} (hdrawn : c.Redraws (f c))
    (hf : ∀ looks, f { c with cancellation.looks := looks } =
      { f c with cancellation.looks := looks }) :
    (f c).LooksApart locked (f c') :=
  h.map hf hdrawn.spares.cancellation (hdrawn.colorLocked.trans ·)

end Canvas.LooksApart

/-- Each step keeps the canvases alike, and the lock on. -/
theorem steps_looksApart (outer : List (Context α)) (deep : Prop) :
    Steps s .plain outer deep (Canvas.LooksApart locked) fun _ g g' => g' = g where
  agrees h := h.agrees
  look h := by
    refine ⟨h.isSeen.2.trans h.isSeen.1.symm, ?_⟩
    obtain ⟨looks, rfl⟩ := h.eq
    exact ⟨⟨looks + 1, rfl⟩, h.running, h.lock⟩
  watch h := .pure h trivial
  adjust {c _ n} a _ h := h.map (f := (a.apply ⟨s, n⟩ ·)) (a.overlooks c ⟨s, n⟩).looks
    (a.cancellation_apply ⟨s, n⟩ c) (a.colorLocked_apply ⟨s, n⟩)
  save h := h.map (f := Canvas.save) (fun _ => rfl) rfl id
  restore {c _} h := h.map c.overlooks_restore.looks c.cancellation_restore
    (c.colorLocked_restore.trans ·)
  setSoftMask mask h := h.map (f := (·.setSoftMask mask)) (fun _ => rfl) rfl id
  text h := by
    obtain ⟨_, rfl⟩ := h.eq
    exact List.forall₂_same.2 fun p _ => .refl _ p
  clearText h := h.redrawn (f := Canvas.clearText) rfl fun _ => rfl
  outlines outlines h :=
    h.redrawn (f := fun c => c.mapContext fun k => { k with outlines }) rfl fun _ => rfl
  addGlyphs nodes h := h.redrawn
    (f := fun c => c.mapContext fun k => { k with layout := k.layout.addGlyphs nodes }) rfl
    fun _ => rfl
  showPiece hn _ font piece spaces h := hn.showPiece rfl
    (fun h => by obtain ⟨_, rfl⟩ := h.eq; rfl)
    (fun textStyle h => h.map (f := fun c => c.mapContext fun k => { k with textStyle })
      (fun _ => rfl) rfl id)
    (fun layout h => h.redrawn
      (f := fun c => c.mapContext fun k => { k with layout := layout k.layout }) rfl fun _ => rfl)
    (fun x h => h.map (f := fun c => c.advance x) (fun _ => rfl) rfl id) font piece spaces h
  push node _ h := h.redrawn (f := (·.push node)) rfl fun _ => rfl
  append {c _} node bounds _ h := h.redrawn (f := (·.append s.options node bounds))
    (Canvas.redraws_append s.options node bounds c) fun looks => by
      have hfits : ({ c with cancellation.looks := looks } : Canvas α).fits s.options bounds =
          c.fits s.options bounds := rfl
      unfold Canvas.append
      rw [hfits]
      dsimp only [Canvas.graphics]
      split
      · rfl
      · split <;> rfl
  classes classes _ h := h.redrawn
    (f := fun c => { c with definitions := { c.definitions with classes } }) rfl fun _ => rfl
  insert {_ _ kind} _ key node h := h.redrawn
    (f := fun c => { c with definitions := c.definitions.insertNew (stableId kind key) node }) rfl
    fun _ => rfl
  insertCell _ _ _ key node h := h.redrawn
    (f := fun c => { c with definitions := c.definitions.insertNew (stableId "pat" key) node }) rfl
    fun _ => rfl
  clipTo evenOdd _ h := h.map (f := fun c => c.clipTo _ evenOdd) (fun _ => rfl) rfl id
  clipToText nodes h := h.map (f := fun c => c.clipToText nodes) (fun _ => rfl) rfl id
  formRegion {c _} parent box placement _ h := h.redrawn
    (f := fun c => (c.formRegion s.viewport parent box placement).2)
    (Canvas.redraws_formRegion s.viewport parent box placement c)
    (c.overlooks_formRegion s.viewport parent box placement).looks
  activeForms forms _ h :=
    h.map (f := fun c => { c with activeForms := forms }) (fun _ => rfl) rfl id
  startCell _ _ _ _ := rfl
  startGlyph _ h := by
    obtain ⟨_, rfl⟩ := h.eq
    rfl
  startForm _ _ h := by
    obtain ⟨_, rfl⟩ := h.eq
    rfl
  startPage _ _ _ _ _ := rfl

end Steps

/-! ### Content on all levels -/

section Content

variable {s : Setting α} {n n' : Nesting α} {deep : Prop} {locked : Bool} {c c' : Canvas α}

omit [Scalar α] in
theorem Canvas.LooksApart.weaken {more : Bool} (h : c.LooksApart (locked || more) c') :
    c.LooksApart locked c' :=
  ⟨h.eq, h.running, fun hlocked => h.lock (by rw [hlocked]; rfl)⟩

theorem execute_glyphBox {env : Environment α} {op : Operation α} (hop : op.locksColors = true) :
    execute env op c = .ok true (c.mapContext fun k => { k with colorLocked := true }) := by
  obtain ⟨⟨operator, args⟩, hresolved, hbox⟩ := Option.map_eq_some_iff.1 (eq_of_beq hop)
  unfold execute OperatorTable.dispatch
  rw [hresolved]
  cases hbox
  rfl

variable (hn : ∀ locked, NestsAlike n n' deep (Canvas.LooksApart locked) fun _ g g' => g' = g)
  (hi : (Environment.mk s n).Isolates)

include hn hi

/-- An operation keeps the canvases alike, and turns the lock on if it is meant to. -/
theorem matches_execute_looksApart (h : c.LooksApart locked c') (op : Operation α) :
    Matches (Canvas.LooksApart (locked || op.locksColors)) (execute ⟨s, n⟩ op) (execute ⟨s, n'⟩ op)
      c c' fun _ _ _ => True := by
  by_cases hop : op.locksColors = true
  · have hbox := h.map (f := fun c => c.mapContext fun k => { k with colorLocked := true })
      (fun _ => rfl) rfl fun _ => rfl
    unfold Matches
    rw [execute_glyphBox hop, execute_glyphBox hop]
    exact ⟨rfl, ⟨hbox.eq, hbox.running, fun _ => rfl⟩, trivial⟩
  · have hplain : Manner.plain.execute ⟨s, n'⟩ op = execute ⟨s, n'⟩ op :=
      Manner.watching_execute _ _ op
    rw [Bool.eq_false_of_not_eq_true hop, Bool.or_false, ← hplain]
    exact matches_execute (steps_looksApart [] deep) (hn locked) hi h op

theorem matches_executeAll_decolored (h : c.LooksApart locked c') (content : ContentStream α) :
    Matches (Canvas.LooksApart locked) (executeAll ⟨s, n⟩ content)
      (executeAll ⟨s, n'⟩ (content.decolored locked)) c c' fun _ _ _ => True := by
  induction content generalizing locked c c' with
  | nil => exact .pure h trivial
  | cons op rest ih =>
    unfold ContentStream.decolored
    by_cases hdropped : (locked && op.isColor) = true
    · -- The operation changes nothing, so leaving it out saves a look for the request to stop.
      obtain ⟨hlocked, hcolor⟩ := Bool.and_eq_true_iff.1 hdropped
      obtain ⟨b, hexecuted⟩ := execute_of_colorLocked (c := c.looked) (h.lock hlocked) ⟨s, n⟩ hcolor
      have hskipped : executeAll ⟨s, n⟩ (op :: rest) c = executeAll ⟨s, n⟩ rest c.looked := by
        rw [executeAll, bind_apply, checkCancelled_apply c h.isSeen.1]
        dsimp only
        rw [bind_apply, hexecuted]
      rw [if_pos hdropped]
      unfold Matches
      rw [hskipped]
      exact ih h.looked_left
    · rw [if_neg hdropped]
      obtain ⟨hseen, hlook⟩ := (steps_looksApart (s := s) [] deep).look h
      refine .bind (P := fun _ _ _ => True) (.checkCancelled hseen hlook trivial)
        fun _ d d' hd _ => ?_
      exact .bind ((matches_execute_looksApart hn hi hd op).mono (fun _ _ he => he.weaken)
        fun _ _ _ he _ => he) fun _ e e' _ he => (ih he).mono (fun _ _ h => h.weaken)
          fun _ _ _ _ h => h

theorem matches_drawContent_decolored (h : c.LooksApart locked c') (content : ContentStream α) :
    Matches (Canvas.LooksApart locked) (drawContent ⟨s, n⟩ content)
      (drawContent ⟨s, n'⟩ (content.decolored locked)) c c' fun _ _ _ => True :=
  .bind (matches_executeAll_decolored hn hi h content) fun _ _ _ hd _ =>
    .modify ((steps_looksApart [] deep).flushText hd) trivial

end Content

/-- Nested content is alike on every level, by induction on the levels that are left. -/
theorem nestsAlike_decolored (s : Setting α) (level : Nat) (locked : Bool) :
    NestsAlike (s.nested level) (s.decolored level) (level ≠ 0) (Canvas.LooksApart locked)
      fun _ g g' => g' = g := by
  induction level generalizing locked with
  | zero => exact ⟨fun hdeep => absurd rfl hdeep, fun _ => ⟨_, fun _ _ _ _ => ⟨rfl, rfl⟩⟩⟩
  | succ level ih =>
    refine ⟨fun _ c c' _ graphics resources content inner h hg => ?_,
      fun hdeep => absurd level.succ_ne_zero hdeep⟩
    subst hg
    obtain ⟨hseen, hlook⟩ := (steps_looksApart (s := s) [] True).look h
    refine .bind (P := fun _ _ _ => True) (.checkCancelled hseen hlook trivial) fun _ d d' hd _ => ?_
    have hentered : (d.entered graphics resources inner).LooksApart inner
        (d'.entered graphics resources inner) := by
      obtain ⟨looks, rfl⟩ := hd.eq
      exact ⟨⟨looks, rfl⟩, hd.running, id⟩
    refine Matches.inside (.bind (matches_drawContent_decolored ih (s.nested_isolates level)
      hentered content) fun _ e e' he _ => .getBind ⟨?_, he, trivial⟩) fun e e' he => ?_
    · obtain ⟨_, rfl⟩ := he.eq
      rfl
    · obtain ⟨looks, rfl⟩ := hd.eq
      obtain ⟨looks', rfl⟩ := he.eq
      exact ⟨⟨looks', rfl⟩, he.running, hd.lock⟩

/-- **The colour lock reaches the forms inside.** While it is on, an operation on colours changes
nothing, and it stays on to the end of the content. So content on any level may be drawn without
the operations on colours that come while the lock is on, in itself and in all content inside: a
form is locked where the content around it is, and the procedure of a glyph from where it says
that its glyph has a box. -/
theorem drawContent_decolored (s : Setting α) (level : Nat) (content : ContentStream α)
    (c : Canvas α) (hrunning : c.cancellation.onset = none) :
    (c.context.colorLocked = true → ∀ (env : Environment α) (op : Operation α),
      op.isColor = true → ∃ b, execute env op c = .ok b c) ∧
    ∃ d looks, drawContent ⟨s, s.nested level⟩ content c = .ok () d ∧
      drawContent ⟨s, s.decolored level⟩ (content.decolored c.context.colorLocked) c =
        .ok () { d with cancellation.looks := looks } ∧
      (c.context.colorLocked = true → d.context.colorLocked = true) := by
  refine ⟨fun hlocked env op hop => execute_of_colorLocked hlocked env hop, ?_⟩
  have hself : c.LooksApart c.context.colorLocked c := ⟨⟨c.cancellation.looks, rfl⟩, hrunning, id⟩
  have hmatch := matches_drawContent_decolored (nestsAlike_decolored s level)
    (s.nested_isolates level) hself content
  unfold Matches at hmatch
  split at hmatch
  · next _ d _ d' hplain hdecolored =>
    obtain ⟨_, hd, _⟩ := hmatch
    obtain ⟨looks, rfl⟩ := hd.eq
    exact ⟨d, looks, hplain, hdecolored, hd.lock⟩
  · obtain ⟨_, hd, hstopped⟩ := hmatch
    unfold Canvas.IsStopped at hstopped
    rw [hd.running] at hstopped
    cases hstopped
  · exact hmatch.elim

section Example

attribute [local instance] Scalar.rational

/-- A rectangle filled in red. -/
def redSquare : ContentStream ℚ :=
  [⟨"rg", [.integer 1, .integer 0, .integer 0]⟩,
    ⟨"re", [.integer 0, .integer 0, .integer 5, .integer 5]⟩, ⟨"f", []⟩]

/-- A locked canvas, on which a form is drawn that sets a colour. -/
theorem drawContent_decolored_form :
    ∃ (s : Setting ℚ) (c d : Canvas ℚ) (content : ContentStream ℚ) (looks : Nat),
      c.cancellation.onset = none ∧ c.context.colorLocked = true ∧
      (s.library.set 0).xobjects.get? "F" =
        some (.form ⟨"F", redSquare, .identity, none, none, none⟩) ∧
      content.map (·.operator) = ["Do"] ∧
      drawContent ⟨s, s.nested 1⟩ content c = .ok () d ∧
      drawContent ⟨s, s.decolored 1⟩ content c = .ok () { d with cancellation.looks := looks } := by
  let s := plainSetting
    { xobjects := [("F", .form ⟨"F", redSquare, .identity, none, none, none⟩)] }
  let c := (Canvas.blank s 0).mapContext fun k => { k with colorLocked := true }
  let content : ContentStream ℚ := [⟨"Do", [.name "F"]⟩]
  obtain ⟨_, d, looks, hplain, hdecolored, _⟩ := drawContent_decolored s 1 content c rfl
  exact ⟨s, c, d, content, looks, rfl, rfl, rfl, rfl, hplain, hdecolored⟩

/-- A setting with a font whose every glyph is drawn by the same content. -/
def glyphSetting (glyph : ContentStream ℚ) : Setting ℚ :=
  plainSetting
    { fonts := [("T", { Font.standIn with
        id := "T"
        procedures := some ⟨.identity, fun _ => some glyph, none⟩ })] }

/-- The lock does not reach the procedures of glyphs: a cell with the lock on is drawn in the colour
that a glyph in it sets, and without the operation on colours it is not. -/
theorem glyph_colored_under_lock :
    ∃ (cell : ContentStream ℚ) (colored plain : List Node) (d d' : Canvas ℚ),
      (glyphSetting redSquare).nested 2 (.initial .identity) 0 cell true
        (.blank (glyphSetting redSquare) 0) = .ok colored d ∧
      (glyphSetting (redSquare.filter fun op => !op.isColor)).nested 2 (.initial .identity) 0 cell
        true (.blank (glyphSetting (redSquare.filter fun op => !op.isColor)) 0) = .ok plain d' ∧
      colored.map (fun node => Keyed.get? node.attrs "fill") = [some "#f00"] ∧
      plain.map (fun node => Keyed.get? node.attrs "fill") = [none] := by
  let cell : ContentStream ℚ :=
    [⟨"BT", []⟩, ⟨"Tf", [.name "T", .integer 1]⟩, ⟨"Tj", [.string [0x61]]⟩, ⟨"ET", []⟩]
  have hcolored : Ends ((glyphSetting redSquare).nested 2 (.initial .identity) 0 cell true)
      (.blank (glyphSetting redSquare) 0)
      (fun nodes _ => nodes.map (fun node => Keyed.get? node.attrs "fill") = [some "#f00"])
      fun _ _ => False := by decide +kernel
  have hplain : Ends ((glyphSetting (redSquare.filter fun op => !op.isColor)).nested 2
        (.initial .identity) 0 cell true)
      (.blank (glyphSetting (redSquare.filter fun op => !op.isColor)) 0)
      (fun nodes _ => nodes.map (fun node => Keyed.get? node.attrs "fill") = [none])
      fun _ _ => False := by decide +kernel
  obtain ⟨colored, d, hfirst, hred⟩ := hcolored.exists_ok
  obtain ⟨plain, d', hsecond, hnone⟩ := hplain.exists_ok
  exact ⟨cell, colored, plain, d, d', hfirst, hsecond, hred, hnone⟩

end Example

end PageSvg
