import PageSvg.Proofs.Canvas.Frame
import PageSvg.Proofs.Canvas.Pool

/-!
# Sound canvases

On a sound canvas the regions and definitions are sound, and whatever a context holds refers to what
is there: its graphics states, what has been drawn, and the text that is still to be drawn. Each
function on canvases keeps them sound.
-/

namespace PageSvg

variable {α : Type}

/-! ### Contexts -/

/-- The clip region and the mask of a graphics state are there. -/
structure GraphicsState.Sound (p : Pool α) (g : GraphicsState α) : Prop where
  clip : p.clips.Valid g.clip
  mask : ∀ id, g.softMask = some id → p.Available id

/-- The definition that paints text is there. -/
def TextStyle.Sound (p : Pool α) (s : TextStyle α) : Prop :=
  ∀ id, s.fillReference = some id → p.definitions.contains id = true

/-- The styles of spans are sound, and drawn glyphs are resolved. -/
structure Paragraph.Sound (p : Pool α) (x : Paragraph α) : Prop where
  styles : ∀ s ∈ x.recent, s.style.Sound p
  glyphs : ∀ nodes, x.glyphs? = some nodes → ∀ n ∈ nodes, p.Resolves n

/-- The paragraphs of text still to be drawn are sound. -/
def TextLayout.Sound (p : Pool α) (t : TextLayout α) : Prop := ∀ x ∈ t.recent, x.Sound p

/-- All that a context holds refers to what is there. -/
structure Context.Sound (p : Pool α) (k : Context α) : Prop where
  graphics : k.graphics.Sound p
  saved : ∀ g ∈ k.saved, g.Sound p
  content : ∀ n ∈ k.content, p.Resolves n
  layout : k.layout.Sound p
  outlines : ∀ n ∈ k.outlines, p.Resolves n
  textStyle : ∀ x, k.textStyle = some x → x.2.Sound p

/-- The regions and definitions on a canvas. -/
def Canvas.pool (c : Canvas α) : Pool α := ⟨c.clips, c.definitions⟩

/-- Regions and definitions are sound, and so is the context. -/
structure Canvas.Sound [Scalar α] (c : Canvas α) : Prop where
  pool : c.pool.Sound
  context : c.context.Sound c.pool

section Growing

variable {p q : Pool α} (h : p.Grows q)

include h

theorem GraphicsState.Sound.mono {g : GraphicsState α} (hg : g.Sound p) : g.Sound q :=
  ⟨h.clips.valid hg.clip, fun id hid => h.available (hg.mask id hid)⟩

theorem TextStyle.Sound.mono {s : TextStyle α} (hs : s.Sound p) : s.Sound q :=
  fun id hid => h.contains (hs id hid)

theorem Paragraph.Sound.mono {x : Paragraph α} (hx : x.Sound p) : x.Sound q :=
  ⟨fun s hs => (hx.styles s hs).mono h,
    fun nodes hnodes n hn => h.resolves (hx.glyphs nodes hnodes n hn)⟩

theorem Context.Sound.mono {k : Context α} (hk : k.Sound p) : k.Sound q :=
  ⟨hk.graphics.mono h, fun g hg => (hk.saved g hg).mono h, fun n hn => h.resolves (hk.content n hn),
    fun x hx => (hk.layout x hx).mono h, fun n hn => h.resolves (hk.outlines n hn),
    fun x hx => (hk.textStyle x hx).mono h⟩

end Growing

theorem Canvas.Frame.grows {c d : Canvas α} (h : c.Frame d) : c.pool.Grows d.pool :=
  ⟨h.clips, h.definitions⟩

/-! ### Text -/

namespace TextLayout

variable [Scalar α] {p : Pool α} {t : TextLayout α}

theorem Sound.empty : (empty : TextLayout α).Sound p := fun _ hx => nomatch hx

theorem Sound.position (h : t.Sound p) (o : Options α) (m : Matrix α) :
    (t.position o m).Sound p := by
  unfold TextLayout.position
  dsimp only
  split
  · exact h
  · intro x hx
    rcases List.mem_cons.1 hx with rfl | hx
    · exact ⟨fun s hs => (nomatch hs), fun nodes hnodes => (nomatch hnodes)⟩
    · exact h x hx

theorem sound_addSpan {spans : List (Span α)} {style : TextStyle α}
    (h : ∀ s ∈ spans, s.style.Sound p) (hstyle : style.Sound p) (text : String) (width space : α) :
    ∀ s ∈ addSpan spans text width space style, s.style.Sound p := by
  unfold addSpan
  dsimp only
  split
  · next last rest =>
    split
    · intro s hs
      rcases List.mem_cons.1 hs with rfl | hs
      · exact h last List.mem_cons_self
      · exact h s (List.mem_cons_of_mem _ hs)
    · intro s hs
      rcases List.mem_cons.1 hs with rfl | hs
      · exact hstyle
      · exact h s hs
  · intro s hs
    rw [List.mem_singleton.1 hs]
    exact hstyle

theorem Sound.addText (h : t.Sound p) (o : Options α) (text : String) (width : α)
    {style : TextStyle α} (hstyle : style.Sound p) : (t.addText o text width style).Sound p := by
  have hrun {t : TextLayout α} (h : t.Sound p) (space : α) :
      ∀ x ∈ t.recent.modifyHead fun x =>
        { x with recent := addSpan x.recent text width space style }, x.Sound p := by
    unfold TextLayout.Sound at h
    cases hrecent : t.recent with
    | nil => exact fun x hx => nomatch hx
    | cons last rest =>
      rw [hrecent, List.forall_mem_cons] at h
      rw [List.modifyHead_cons, List.forall_mem_cons]
      exact ⟨⟨sound_addSpan h.1.styles hstyle text width space, h.1.glyphs⟩, h.2⟩
  -- Text outside of a line begins one where it stands.
  have hplaced : (if t.line.isNone then t.position o .identity else t).Sound p := by
    split
    · exact h.position o _
    · exact h
  unfold TextLayout.addText
  dsimp only
  split
  · exact hplaced
  · exact hrun hplaced _

theorem Sound.addGlyphs (h : t.Sound p) {nodes : List Node} (hnodes : ∀ n ∈ nodes, p.Resolves n) :
    (t.addGlyphs nodes).Sound p := by
  unfold TextLayout.addGlyphs
  split
  · exact h
  · intro x hx
    rcases List.mem_cons.1 hx with rfl | hx
    · refine ⟨fun s hs => (nomatch hs), fun nodes hglyphs => ?_⟩
      cases hglyphs
      exact hnodes
    · exact h x hx

end TextLayout

namespace Layout

variable [Scalar α] {f : ClipForest α} {d : Definitions} (o : Options α) (part : TextPart)

theorem inert_optional {name : String} (hname : Attr.inert name = true) (value : Option String) :
    ∀ attr ∈ optional name value, Attr.inert attr.1 = true := by
  intro attr hattr
  cases value with
  | none => cases hattr
  | some value =>
    rw [List.mem_singleton.1 hattr]
    exact hname

/-- The class of a sound style gets a rule that is sound. -/
theorem sound_styleClass (h : (Pool.mk f d).Sound) {style : TextStyle α}
    (hstyle : style.Sound ⟨f, d⟩) :
    (Pool.mk f (styleClass o part style d).2).Sound ∧
      (Pool.mk f (styleClass o part style d).2).HasRule (styleClass o part style d).1 := by
  refine h.styleClass fun id hid => ?_
  have hshown {s : TextStyle α} (hs : s.Sound ⟨f, d⟩) (hid : PaintsWith (s.css o) id) :
      d.contains id = true :=
    hs id (TextStyle.fillReference_of_paintsWith (fun id' hid' =>
      (h.kinds id' (Keyed.contains_iff_mem_keys.1 (hs id' hid'))).semicolon_notMem) hid)
  split at hid
  · refine hshown (fun _ e => ?_) hid
    cases e
  · exact hshown hstyle hid

variable (p : Paragraph α)

theorem sound_stretched (h : (Pool.mk f d).Sound) {s : PlacedSpan α}
    (hs : s.span.style.Sound ⟨f, d⟩) :
    (Pool.mk f (stretched o p part s d).2).Sound ∧
      (Pool.mk f (stretched o p part s d).2).Resolves (stretched o p part s d).1 := by
  obtain ⟨hsound, hrule⟩ := sound_styleClass o part h hs
  refine ⟨hsound, Node.resolved_leaf fun attr hattr => ?_⟩
  simp only [List.mem_append, List.mem_cons, List.not_mem_nil, or_false] at hattr
  rcases hattr with (((rfl | rfl | rfl) | hattr) | hattr) | rfl | rfl
  · exact Attr.inside_class hrule
  · exact Attr.inside_of_inert (by simp [Attr.inert])
  · exact Attr.inside_of_inert (by simp [Attr.inert])
  · exact Attr.inside_of_inert (inert_optional (by simp [Attr.inert]) _ attr hattr)
  · exact Attr.inside_of_inert (inert_optional (by simp [Attr.inert]) _ attr hattr)
  · exact Attr.inside_of_inert (by simp [Attr.inert])
  · exact Attr.inside_of_inert (by simp [Attr.inert])

theorem sound_inner (h : (Pool.mk f d).Sound) (last : Option Nat) {s : PlacedSpan α}
    (hs : s.span.style.Sound ⟨f, d⟩) :
    (Pool.mk f (inner o part last s d).2).Sound ∧
      (Pool.mk f (inner o part last s d).2).Resolves (inner o part last s d).1 := by
  obtain ⟨hsound, hrule⟩ := sound_styleClass o part h hs
  refine ⟨hsound, Node.resolved_leaf fun attr hattr => ?_⟩
  simp only [List.mem_append, List.mem_singleton] at hattr
  rcases hattr with (rfl | hattr) | hattr
  · exact Attr.inside_class hrule
  · split at hattr
    · rw [List.mem_singleton.1 hattr]
      exact Attr.inside_of_inert (by simp [Attr.inert])
    · cases hattr
  · exact Attr.inside_of_inert (inert_optional (by simp [Attr.inert]) _ attr hattr)

theorem sound_inners (h : (Pool.mk f d).Sound) (last : Option Nat) {spans : List (PlacedSpan α)}
    (hs : ∀ s ∈ spans, s.span.style.Sound ⟨f, d⟩) :
    (Pool.mk f (inners o part last spans d).2).Sound ∧
      ∀ n ∈ (inners o part last spans d).1,
        (Pool.mk f (inners o part last spans d).2).Resolves n := by
  induction spans generalizing last d with
  | nil => exact ⟨h, fun n hn => nomatch hn⟩
  | cons s rest ih =>
    obtain ⟨hsound, hnode⟩ := sound_inner o part h last (hs s List.mem_cons_self)
    have hgrows : (Pool.mk f d).Grows ⟨f, (inner o part last s d).2⟩ :=
      ⟨.refl f, grows_inner o part d last s⟩
    obtain ⟨hsound', hnodes⟩ := ih hsound (some s.index) fun t ht =>
      (hs t (List.mem_cons_of_mem _ ht)).mono hgrows
    refine ⟨hsound', fun n hn => ?_⟩
    change n ∈ (inner o part last s d).1 ::
      (inners o part (some s.index) rest (inner o part last s d).2).1 at hn
    rcases List.mem_cons.1 hn with rfl | hn
    · exact Pool.Grows.resolves ⟨.refl f, grows_inners o part _ (some s.index) rest⟩ hnode
    · exact hnodes n hn

theorem sound_mapM_stretched (h : (Pool.mk f d).Sound) {spans : List (PlacedSpan α)}
    (hs : ∀ s ∈ spans, s.span.style.Sound ⟨f, d⟩) :
    (Pool.mk f (spans.mapM (stretched o p part) d).2).Sound ∧
      ∀ n ∈ (spans.mapM (stretched o p part) d).1,
        (Pool.mk f (spans.mapM (stretched o p part) d).2).Resolves n := by
  induction spans generalizing d with
  | nil => exact ⟨h, fun n hn => nomatch hn⟩
  | cons s rest ih =>
    obtain ⟨hsound, hnode⟩ := sound_stretched o part p h (hs s List.mem_cons_self)
    have hgrows : (Pool.mk f d).Grows ⟨f, (stretched o p part s d).2⟩ :=
      ⟨.refl f, grows_stretched o p part d s⟩
    obtain ⟨hsound', hnodes⟩ := ih hsound fun t ht =>
      (hs t (List.mem_cons_of_mem _ ht)).mono hgrows
    rw [List.mapM_cons]
    refine ⟨hsound', fun n hn => ?_⟩
    change n ∈ (stretched o p part s d).1 ::
      (rest.mapM (stretched o p part) (stretched o p part s d).2).1 at hn
    rcases List.mem_cons.1 hn with rfl | hn
    · exact Pool.Grows.resolves ⟨.refl f, grows_mapM_stretched o p part _ rest⟩ hnode
    · exact hnodes n hn

theorem sound_spanNodes (h : (Pool.mk f d).Sound) {spans : List (PlacedSpan α)}
    (hs : ∀ s ∈ spans, s.span.style.Sound ⟨f, d⟩) :
    (Pool.mk f (spanNodes o p part spans d).2).Sound ∧
      ∀ n ∈ (spanNodes o p part spans d).1,
        (Pool.mk f (spanNodes o p part spans d).2).Resolves n := by
  have hplace (first : PlacedSpan α) :
      ∀ attr ∈ [("x", o.text first.x), ("y", o.text p.y)] ++ optional "transform" (transform? o p),
        Attr.inert attr.1 = true := by
    intro attr hattr
    rcases List.mem_append.1 hattr with hattr | hattr
    · simp only [List.mem_cons, List.not_mem_nil, or_false] at hattr
      rcases hattr with rfl | rfl <;> simp [Attr.inert]
    · exact inert_optional (by simp [Attr.inert]) _ attr hattr
  cases spans with
  | nil => exact ⟨h, fun n hn => absurd hn List.not_mem_nil⟩
  | cons first rest =>
    rw [spanNodes]
    split
    · exact sound_mapM_stretched o part p h hs
    · dsimp only
      split
      · obtain ⟨hsound, hrule⟩ := sound_styleClass o part h (hs first List.mem_cons_self)
        refine ⟨hsound, fun n hn => ?_⟩
        rw [List.mem_singleton.1 hn]
        refine Node.resolved_leaf fun attr hattr => ?_
        rw [List.mem_append, List.mem_append, List.mem_singleton] at hattr
        rcases hattr with (hattr | rfl) | hattr
        · exact Attr.inside_of_inert (hplace first attr hattr)
        · exact Attr.inside_class hrule
        · exact Attr.inside_of_inert (inert_optional (by simp [Attr.inert]) _ attr hattr)
      · obtain ⟨hsound, hnodes⟩ := sound_inners o part h none hs
        refine ⟨hsound, fun n hn => ?_⟩
        rw [List.mem_singleton.1 hn]
        exact Node.resolved_of_inert (hplace first) hnodes

theorem mem_placeFrom {origin : α} {index : Nat} {spans : List (Span α)} {s : PlacedSpan α}
    (h : s ∈ placeFrom origin index spans) : s.span ∈ spans := by
  induction spans generalizing origin index with
  | nil => cases h
  | cons first rest ih =>
    rcases List.mem_cons.1 h with rfl | h
    · exact List.mem_cons_self
    · exact List.mem_cons_of_mem _ (ih h)

/-- The elements of a sound paragraph are resolved. -/
theorem sound_nodes (h : (Pool.mk f d).Sound) (hp : p.Sound ⟨f, d⟩) :
    (Pool.mk f ((nodes o p part).run d).2).Sound ∧
      ∀ n ∈ ((nodes o p part).run d).1, (Pool.mk f ((nodes o p part).run d).2).Resolves n := by
  unfold nodes
  split
  · next nodes hglyphs =>
    refine ⟨h, fun n hn => ?_⟩
    change n ∈ (if part = .visible then nodes else []) at hn
    split at hn
    · exact hp.glyphs nodes hglyphs n hn
    · cases hn
  · refine sound_spanNodes o part p h fun s hs => ?_
    have hmem := mem_placeFrom (List.mem_filter.1 hs).1
    exact hp.styles s.span (List.mem_reverse.1 hmem)

end Layout

end PageSvg
