import PageSvg.Proofs.Canvas.Heeding
import PageSvg.Proofs.Number.Rational

/-!
# Where a request to stop is seen

Content whose run sees the request to stop fails because of it, with nothing on the canvas from the
operation that was interrupted, at whatever depth it was seen. The exception is the cell of a
tiling, in which the request gets lost: the operation that paints with the tiling goes on in a plain
colour. The next operation sees the request again, so it is lost for good only in the last one.
-/

namespace PageSvg

open Draw

variable {α : Type} [Scalar α]

/-! ### Text to be drawn -/

namespace Canvas

variable (o : Options α)

theorem append_looked (c : Canvas α) (node : Node) (bounds : Option (Rectangle α)) :
    c.looked.append o node bounds = (c.append o node bounds).looked := by
  have hfits : c.looked.fits o bounds = c.fits o bounds := rfl
  have hgraphics : c.looked.graphics = c.graphics := rfl
  unfold append
  rw [hfits, hgraphics]
  cases c.graphics.clip with
  | none => rfl
  | some region =>
    dsimp only
    split <;> rfl

omit [Scalar α] in
theorem foldl_looked {β : Type} {f : Canvas α → β → Canvas α}
    (h : ∀ (c : Canvas α) (x : β), f c.looked x = (f c x).looked) (items : List β)
    (c : Canvas α) : items.foldl f c.looked = (items.foldl f c).looked :=
  List.foldl_hom looked h

theorem drawPart_looked (p : Paragraph α) (bounds : Option (Rectangle α)) (c : Canvas α)
    (part : TextPart) : c.looked.drawPart o p bounds part = (c.drawPart o p bounds part).looked :=
  foldl_looked (fun c node => append_looked o c node bounds) _ (c.paragraphNodes o p part).2

theorem drawParagraph_looked (c : Canvas α) (p : Paragraph α) :
    c.looked.drawParagraph o p = (c.drawParagraph o p).looked := by
  unfold drawParagraph
  split
  · exact foldl_looked (f := push) (fun _ _ => rfl) _ c
  · dsimp only
    rw [foldl_looked (drawPart_looked o p (paragraphBounds p))]
    rfl

theorem flushText_looked (c : Canvas α) : c.looked.flushText o = (c.flushText o).looked := by
  unfold flushText
  show (if c.context.layout.isEmpty then _ else _) = _
  split
  · rfl
  · exact foldl_looked (drawParagraph_looked o) _ (c.mapContext fun k => { k with layout := .empty })

end Canvas

/-! ### Content -/

section Content

variable {env : Environment α}

variable (h : env.Heeds) {c d : Canvas α}

include h

theorem ends_execute (op : Operation α) (c : Canvas α) :
    Ends (execute env op) c
      (fun _ d => ¬env.library.HasTiling → c.cancellation.wasSeen = false →
        d.cancellation.wasSeen = false)
      fun fault d => fault = .cancelled ∧ c.Interrupted env.options d := by
  have hspared {d : Canvas α} (hd : d.cancellation = c.cancellation)
      (hc : c.cancellation.wasSeen = false) : d.cancellation.wasSeen = false := hd ▸ hc
  unfold execute OperatorTable.dispatch
  cases Operator.table.resolve op.operator op.operands with
  | none => exact fun _ hc => hc
  | some resolved =>
    obtain ⟨operator, args⟩ := resolved
    dsimp only
    rw [ends_bind]
    by_cases hsave : operator = .save
    · subst hsave
      exact fun _ => hspared rfl
    · by_cases hrestore : operator = .restore
      · subst hrestore
        exact fun _ => hspared c.cancellation_restore
      · exact (ends_perform h args hsave hrestore c).mono (fun _ _ hd => hd.unseen) fun _ _ hd => hd

end Content

/-- The content is executed up to its last operation without a look that
sees the request to stop. -/
def SeenLast (env : Environment α) (content : ContentStream α) (c : Canvas α) : Prop :=
  ∃ before op e, content = before ++ [op] ∧ executeAll env before c = .ok () e ∧
    e.cancellation.wasSeen = false

/-- The content is executed up to an operation, which is interrupted. Only in the cell of a tiling
can the request have been seen before that. -/
def StoppedIn (env : Environment α) (content : ContentStream α) (c d : Canvas α) : Prop :=
  ∃ before op after e, content = before ++ op :: after ∧ executeAll env before c = .ok () e ∧
    (e.cancellation.wasSeen = true → env.library.HasTiling) ∧ e.Interrupted env.options d

section Runs

variable {env : Environment α} {c d : Canvas α}

theorem Canvas.interrupted_looked (o : Options α) (hseen : c.cancellation.isSeen = true) :
    c.Interrupted o c.looked := ⟨c.wasSeen_looked ▸ hseen, .inl rfl⟩

theorem Canvas.Interrupted.of_looked {o : Options α} (h : c.looked.Interrupted o d) :
    c.Interrupted o d := by
  refine ⟨h.seen, h.drawn.imp_right fun hdrawn => ?_⟩
  rw [hdrawn, flushText_looked]
  rfl

theorem SeenLast.cons {op : Operation α} {b : Bool} {rest : ContentStream α}
    (h : SeenLast env rest d) (hseen : c.cancellation.isSeen = false)
    (hop : execute env op c.looked = .ok b d) : SeenLast env (op :: rest) c := by
  obtain ⟨before, last, e, rfl, hbefore, he⟩ := h
  exact ⟨op :: before, last, e, rfl, (executeAll_cons_apply hseen hop before).trans hbefore, he⟩

theorem StoppedIn.cons {op : Operation α} {b : Bool} {rest : ContentStream α} {e : Canvas α}
    (h : StoppedIn env rest d e) (hseen : c.cancellation.isSeen = false)
    (hop : execute env op c.looked = .ok b d) : StoppedIn env (op :: rest) c e := by
  obtain ⟨before, stopped, after, f, rfl, hbefore, hf, he⟩ := h
  exact ⟨op :: before, stopped, after, f, rfl,
    (executeAll_cons_apply hseen hop before).trans hbefore, hf, he⟩

/-- An operation that goes on although the request was seen is followed by none. -/
theorem ends_executeAll_seen {op : Operation α} {b : Bool} (rest : ContentStream α)
    (htiling : env.library.HasTiling) (hc : c.cancellation.wasSeen = false)
    (hseen : c.cancellation.isSeen = false) (hop : execute env op c.looked = .ok b d)
    (hd : d.cancellation.wasSeen = true) :
    Ends (executeAll env (op :: rest)) c
      (fun _ _ => env.library.HasTiling ∧ SeenLast env (op :: rest) c)
      fun fault e => fault = .cancelled ∧ StoppedIn env (op :: rest) c e := by
  rw [ends_congr (executeAll_cons_apply hseen hop rest)]
  cases rest with
  | nil => exact ⟨htiling, [], op, c, rfl, rfl, hc⟩
  | cons next rest =>
    have hagain := Canvas.isSeen_of_wasSeen hd
    have hstop : executeAll env (next :: rest) d = .error .cancelled d.looked := by
      rw [executeAll, bind_apply, checkCancelled_apply_seen _ hagain]
    rw [ends_of_error hstop]
    exact ⟨rfl, [op], next, rest, d, rfl, executeAll_cons_apply hseen hop [],
      fun _ => htiling, Canvas.interrupted_looked _ hagain⟩

/-- Content from a canvas on which the request has not been seen. -/
theorem ends_executeAll (h : env.Heeds) (content : ContentStream α)
    (hc : c.cancellation.wasSeen = false) :
    Ends (executeAll env content) c
      (fun _ d => d.cancellation.wasSeen = true →
        env.library.HasTiling ∧ SeenLast env content c)
      fun fault d => fault = .cancelled ∧ StoppedIn env content c d := by
  induction content generalizing c with
  | nil => exact fun hseen => absurd (hc.symm.trans hseen) Bool.false_ne_true
  | cons op rest ih =>
    have hnot : c.cancellation.wasSeen = true → env.library.HasTiling := fun hwas =>
      absurd (hc.symm.trans hwas) Bool.false_ne_true
    by_cases hseen : c.cancellation.isSeen = true
    · -- The look before the operation sees the request.
      rw [executeAll, ends_bind, ends_checkCancelled]
      exact ⟨fun _ => ⟨rfl, [], op, rest, c, rfl, rfl, hnot, Canvas.interrupted_looked _ hseen⟩,
        fun hunseen => absurd hseen hunseen⟩
    · rw [Bool.not_eq_true] at hseen
      have hlooked : c.looked.cancellation.wasSeen = false := c.wasSeen_looked.trans hseen
      have hends := ends_execute h op c.looked
      cases hop : execute env op c.looked with
      | ok b d =>
        have hkept := (ends_of_ok hop).1 hends
        by_cases hd : d.cancellation.wasSeen = true
        · -- It was seen in the cell of a tiling; the next operation sees it again.
          have htiling : env.library.HasTiling := by
            by_contra hnone
            exact Bool.false_ne_true ((hkept hnone hlooked).symm.trans hd)
          exact (ends_executeAll_seen rest htiling hc hseen hop hd).mono (fun _ _ hlast _ => hlast)
            fun _ _ hstopped => hstopped
        · rw [Bool.not_eq_true] at hd
          rw [ends_congr (executeAll_cons_apply hseen hop rest)]
          exact (ih hd).mono
            (fun _ _ hlast hwas => (hlast hwas).imp_right fun hlast => hlast.cons hseen hop)
            fun _ _ hstopped => hstopped.imp_right fun hstopped => hstopped.cons hseen hop
      | error fault d =>
        obtain ⟨hfault, hinterrupted⟩ := (ends_of_error hop).1 hends
        have hfailed : executeAll env (op :: rest) c = .error fault d := by
          simp only [executeAll, bind_apply, checkCancelled_apply c hseen, hop]
        rw [ends_of_error hfailed]
        exact ⟨hfault, [], op, rest, c, rfl, rfl, hnot, hinterrupted.of_looked⟩

theorem ends_drawContent (h : env.Heeds) (content : ContentStream α)
    (hc : c.cancellation.wasSeen = false) :
    Ends (drawContent env content) c
      (fun _ d => d.cancellation.wasSeen = true →
        env.library.HasTiling ∧ SeenLast env content c)
      fun fault d => fault = .cancelled ∧ StoppedIn env content c d := by
  unfold drawContent
  rw [ends_bind]
  refine (ends_executeAll h content hc).mono (fun _ d hd => ?_) fun _ _ hd => hd
  show (d.flushText env.options).cancellation.wasSeen = true → _
  rw [(Canvas.redraws_flushText env.options d).spares.cancellation]
  exact hd

end Runs

/-! ### Levels -/

/-- Nested content on every level heeds the request to stop, by induction on the levels that are
left. -/
theorem Setting.nested_heeds (s : Setting α) (level : Nat) :
    ({ toSetting := s, nested := s.nested level } : Environment α).Heeds := by
  intro graphics resources content locked c
  show Ends (s.nested level graphics resources content locked) c _ _
  have hlooked (c : Canvas α) (hseen : ¬c.cancellation.isSeen = true) :
      c.looked.cancellation.wasSeen = false := by
    rw [c.wasSeen_looked]
    exact Bool.not_eq_true _ ▸ hseen
  induction level generalizing graphics resources content locked c with
  | zero =>
    rw [Setting.nested, ends_bind, ends_checkCancelled]
    refine ⟨fun hseen => ⟨rfl, .inl ⟨rfl, c.wasSeen_looked ▸ hseen⟩⟩, fun hseen => ?_⟩
    exact ⟨rfl, .inr ⟨⟨_, rfl⟩, rfl, fun _ => rfl, fun _ _ => hlooked c hseen⟩⟩
  | succ level ih =>
    have hlevel : ({ toSetting := s, nested := s.nested level } : Environment α).Heeds := ih
    rw [Setting.nested, ends_bind, ends_checkCancelled]
    refine ⟨fun hseen => ⟨rfl, .inl ⟨rfl, c.wasSeen_looked ▸ hseen⟩⟩, fun hseen => ?_⟩
    rw [ends_inside, ends_bind]
    refine (ends_drawContent (c := c.looked.entered graphics resources locked) hlevel content
      (hlooked c hseen)).mono (fun _ d hd => ?_) fun _ d hd => ?_
    · refine ⟨rfl, rfl, fun _ => rfl, fun hnot _ => ?_⟩
      show d.cancellation.wasSeen = false
      rw [← Bool.not_eq_true]
      exact fun hwas => hnot (hd hwas).1
    · obtain ⟨hfault, _, _, _, _, _, _, _, hstopped⟩ := hd
      exact ⟨rfl, .inl ⟨hfault, hstopped.seen⟩⟩

/-- **A request to stop is lost only in the cells of tilings.** When a look sees the request while
content is drawn, at whatever depth, the content fails because of the request: those operations
before the interrupted one have been executed, what they drew stays, and the interrupted one puts
nothing on the canvas but the text that was still to be drawn. If the content does not fail although
the request was seen, then there is a tiling, and it was seen in the last operation. -/
theorem content_stopped (s : Setting α) (level : Nat) (content : ContentStream α) (c : Canvas α)
    (hc : c.cancellation.wasSeen = false) :
    Ends (drawContent { toSetting := s, nested := s.nested level } content) c
      (fun _ d => d.cancellation.wasSeen = true → s.library.HasTiling ∧
        SeenLast { toSetting := s, nested := s.nested level } content c)
      fun fault d => fault = .cancelled ∧
        StoppedIn { toSetting := s, nested := s.nested level } content c d :=
  ends_drawContent (s.nested_heeds level) content hc

section Example

attribute [local instance] Scalar.rational

/-- A setting without anything special, whose first set of resources is given. -/
def plainSetting (resources : ResourceSet ℚ) : Setting ℚ where
  options := .standard
  library := #[resources]
  base := .identity
  viewport := ⟨0, 0, 100, 100⟩

/-- A blank canvas on which a look sees the request to stop. -/
def stoppingCanvas (s : Setting ℚ) (onset : Nat) : Canvas ℚ :=
  { Canvas.blank s 0 with cancellation := { onset := some onset } }

/-- The request comes while a form is drawn, which has filled a rectangle by then. -/
theorem content_stopped_in_form :
    ∃ (s : Setting ℚ) (c : Canvas ℚ) (content : ContentStream ℚ) (fault : Fault ℚ) (d : Canvas ℚ),
      c.cancellation.wasSeen = false ∧
      drawContent { toSetting := s, nested := s.nested 1 } content c = .error fault d ∧
      fault = .cancelled ∧
      StoppedIn { toSetting := s, nested := s.nested 1 } content c d := by
  let rectangle : Operation ℚ := ⟨"re", [.integer 0, .integer 0, .integer 10, .integer 10]⟩
  let f : Form ℚ := ⟨"F", [rectangle, ⟨"f", []⟩, ⟨"n", []⟩], .identity, none, none, none⟩
  let s := plainSetting { xobjects := [("F", .form f)] }
  let c := stoppingCanvas s 4
  let content : ContentStream ℚ := [⟨"Do", [.name "F"]⟩, ⟨"n", []⟩]
  have hfails : Ends (drawContent { toSetting := s, nested := s.nested 1 } content) c
      (fun _ _ => False) fun _ _ => True := by decide +kernel
  have hstopped := content_stopped s 1 content c rfl
  cases hrun : drawContent { toSetting := s, nested := s.nested 1 } content c with
  | ok _ d => exact ((ends_of_ok hrun).1 hfails).elim
  | error fault d => exact ⟨s, c, content, fault, d, rfl, hrun, (ends_of_error hrun).1 hstopped⟩

/-- The request comes while the cell of a tiling is drawn, in the last operation: the rectangle is
filled with a plain colour, and the content does not fail. -/
theorem request_lost_in_cell :
    ∃ (s : Setting ℚ) (c : Canvas ℚ) (content : ContentStream ℚ) (d : Canvas ℚ),
      c.cancellation.wasSeen = false ∧ drawContent s.environment content c = .ok () d ∧
      d.cancellation.wasSeen = true ∧ c.content = [] ∧ d.content.map (·.tag) = ["rect"] := by
  let rectangle : Operation ℚ := ⟨"re", [.integer 0, .integer 0, .integer 10, .integer 10]⟩
  let cell : Tiling ℚ := ⟨"P", [rectangle, ⟨"f", []⟩], .identity, ⟨0, 0, 4, 4⟩, 4, 4, false, none⟩
  let s := plainSetting { patterns := [("P", .tiling cell)] }
  let c := stoppingCanvas s 4
  let content : ContentStream ℚ :=
    [⟨"cs", [.name "Pattern"]⟩, ⟨"scn", [.name "P"]⟩, rectangle, ⟨"f", []⟩]
  have hlost : Ends (drawContent s.environment content) c
      (fun _ d => d.cancellation.wasSeen = true ∧ d.content.map (·.tag) = ["rect"])
      fun _ _ => False := by decide +kernel
  obtain ⟨_, d, hrun, hseen, hdrawn⟩ := hlost.exists_ok
  exact ⟨s, c, content, d, rfl, hrun, hseen, rfl, hdrawn⟩

end Example

end PageSvg
