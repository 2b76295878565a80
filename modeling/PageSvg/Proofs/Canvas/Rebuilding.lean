import PageSvg.Proofs.Canvas.StyleCache
import PageSvg.Proofs.Number.Rational

/-!
# Styles made anew

Keeping the last style of text saves work and changes nothing: take a manner of drawing that makes
the style anew for each run of text. It looks more often for the request to stop, where the cell of
a pattern is refused again, and its styles may have zeros of another sign; the page comes out the
same.
-/

namespace PageSvg

open Draw Scalar

variable {α β : Type} [Scalar α]

/-- Drawing with a style that is made anew for each run of text. -/
def Manner.rebuilding : Manner α where
  push := Canvas.push
  append := Canvas.append
  content := Canvas.content
  style env scale := do
    let c ← get
    makeStyle env c.graphics scale
  watch _ := pure ()

/-- The canvas `c'` has been drawn on with styles made anew: it keeps none, and text that is still
to be drawn is the same up to the sign of zeros in its styles. -/
structure Canvas.Rebuilds (c c' : Canvas α) : Prop where
  layout : c'.context.layout.tidied = c.context.layout.tidied
  eq : c' = c.revise c.context.drawn c'.context.layout none c'.cancellation.looks

namespace Canvas.Rebuilds

variable {c c' : Canvas α}

theorem agrees (h : c.Rebuilds c') : c.Agrees c' := by
  rw [h.eq]
  exact c.agrees_revise _ _ _ _

theorem graphics_eq (h : c.Rebuilds c') : c'.graphics = c.graphics := by
  rw [h.eq]
  rfl

theorem onset_eq (h : c.Rebuilds c') : c'.cancellation.onset = c.cancellation.onset := by
  rw [h.eq]
  rfl

/-- A function that treats alike what is still to be drawn, whatever it is, and the looks. -/
theorem map (h : c.Rebuilds c') {f : Canvas α → Canvas α} {g : TextLayout α → TextLayout α}
    (hf : ∀ layout looks, f (c.revise c.context.drawn layout none looks) =
      (f c).revise (f c).context.drawn (g layout) none looks)
    (hlayout : (f c).context.layout = g c.context.layout)
    (hg : (g c'.context.layout).tidied = (g c.context.layout).tidied) : (f c).Rebuilds (f c') := by
  have heq := hf c'.context.layout c'.cancellation.looks
  rw [← h.eq] at heq
  rw [heq]
  exact ⟨hg.trans (congrArg TextLayout.tidied hlayout.symm), rfl⟩

theorem overlooked (h : c.Rebuilds c') {f : Canvas α → Canvas α} (hf : Overlooks f c) :
    (f c).Rebuilds (f c') := by
  have hdrawn := hf.drawn_eq
  obtain ⟨forgets, hf⟩ := hf
  have hlayout : (f c).context.layout = c.context.layout := congrArg (·.context.layout)
    (hf c.context.drawn c.context.layout c.context.textStyle c.cancellation.looks)
  refine h.map (g := id) (fun layout looks => ?_) hlayout h.layout
  rw [hf, hdrawn, ite_self]
  rfl

theorem looked (h : c.Rebuilds c') : c.Rebuilds c'.looked := by
  obtain ⟨hlayout, heq⟩ := h
  refine ⟨hlayout, ?_⟩
  rw [heq]
  rfl

theorem push (h : c.Rebuilds c') (node : Node) : (c.push node).Rebuilds (c'.push node) :=
  h.map (f := fun c => c.push node) (g := id) (fun _ _ => rfl) rfl h.layout

theorem append (h : c.Rebuilds c') (o : Options α) (node : Node) (bounds : Option (Rectangle α)) :
    (c.append o node bounds).Rebuilds (c'.append o node bounds) := by
  refine h.map (f := fun c => c.append o node bounds) (g := id) (fun layout looks => ?_)
    (c.layout_append o node bounds) h.layout
  have hcall : (c.revise c.context.drawn layout none looks).call o node bounds =
      c.call o node bounds := rfl
  rw [append_eq, append_eq, hcall]
  rfl

end Canvas.Rebuilds

/-! ### Text -/

section Text

variable [ZerosAlike α]

/-- Paragraphs that are the same once tidied are drawn alike. -/
theorem Paragraph.drawnAlike_of_tidied (o : Options α) {p p' : Paragraph α}
    (h : p'.tidied = p.tidied) : p.DrawnAlike o p' where
  glyphs := congrArg (·.glyphs?) h
  nodes part := by rw [← Layout.nodes_tidied o p', h, Layout.nodes_tidied]
  bounds := by rw [← Canvas.paragraphBounds_tidied p', h, Canvas.paragraphBounds_tidied]

theorem TextLayout.drawnAlike_of_tidied (o : Options α) {t t' : TextLayout α}
    (h : t'.tidied = t.tidied) : List.Forall₂ (Paragraph.DrawnAlike o) t.recent t'.recent := by
  have hrecent : t'.recent.map Paragraph.tidied = t.recent.map Paragraph.tidied :=
    congrArg (·.recent) h
  rw [← List.forall₂_eq_eq_eq, List.forall₂_map_left_iff, List.forall₂_map_right_iff] at hrecent
  exact hrecent.flip.imp fun _ _ hp => Paragraph.drawnAlike_of_tidied o hp

end Text

/-! ### Steps -/

/-- The canvas `c'` has been drawn on with styles made anew, and the last style on `c` is known. -/
def Canvas.Follows (s : Setting α) (found : ResourceCache α) (level : Nat) (c c' : Canvas α) : Prop :=
  c.Rebuilds c' ∧ c.Remembers s found level

omit [Scalar α] in
theorem Draw.Matches.tellsRight {R : Canvas α → Canvas α → Prop} {c c' : Canvas α} {γ : Type}
    {Q : β → Canvas α → Canvas α → Prop} {x : Draw α β} {y : Draw α γ} {f : γ → Draw α β} {a : γ}
    (hy : y.Tells c' a) (hnow : Matches R x (f a) c c' Q)
    (hlater : Matches R x (f a) c c'.looked Q) : Matches R x (y >>= f) c c' Q := by
  unfold Matches
  rw [bind_apply]
  rcases hy with hy | hy
  · rw [hy]
    exact hnow
  · rw [hy]
    exact hlater

/-- What styles made anew ask of a relation: the last style on the left is known and may be kept,
the right may look once more for the request to stop, and text may be added in styles that are
the same once tidied. -/
structure Restyling (s : Setting α) (found : ResourceCache α) (level : Nat)
    (R : Canvas α → Canvas α → Prop) : Prop where
  remembers : ∀ {c c'}, R c c' → c.Remembers s found level
  keep : ∀ {c c'} known, R c c' →
    (c.mapContext fun k => { k with textStyle := some known }).Remembers s found level →
    R (c.mapContext fun k => { k with textStyle := some known }) c'
  looked : ∀ {c c'}, R c c' → R c c'.looked
  position : ∀ {c c'} (m : Matrix α), R c c' →
    R (c.mapContext fun k => { k with layout := k.layout.position s.options m })
      (c'.mapContext fun k => { k with layout := k.layout.position s.options m })
  addText : ∀ {c c'} (text : String) (width distance : α) {style style' : TextStyle α},
    style.tidied = style'.tidied → R c c' →
    R ((c.mapContext fun k =>
        { k with layout := k.layout.addText s.options text width style }).advance distance)
      ((c'.mapContext fun k =>
        { k with layout := k.layout.addText s.options text width style' }).advance distance)

section Steps

variable [ZerosAlike α] {s : Setting α} {found : ResourceCache α} {level : Nat} {c c' : Canvas α}
  {n n' : Nesting α} {Q : β → Canvas α → Canvas α → Prop}

open Canvas

section Style

variable {R : Canvas α → Canvas α → Prop} (hR : Restyling s found level R)
  (hn : Painting s n n' (level ≠ 0) R) (hi : (Environment.mk s n).Isolates)

include hR hn

omit [ZerosAlike α] in
/-- Where cells are refused, they are refused without the request to stop being seen. -/
theorem Restyling.refuses (h : R c c') (hlevel : ¬level ≠ 0) : Refuses s n' c' := by
  intro t paint resources ht
  have hcell := hn.cell t paint resources ht h
  unfold Matches at hcell
  split at hcell
  · next hok' =>
    obtain ⟨rfl, _, hskipped⟩ := hcell
    obtain ⟨rfl, _, rfl⟩ := hskipped.refused hlevel
    exact hok'
  · exact absurd hcell.2.2 (hR.remembers hcell.2.1).running
  · exact hcell.elim

include hi

/-- The style that is kept and the style that is made anew are the same, up to the sign of zeros. -/
theorem matches_rebuilt_style (h : R c c') (scale : α) {f f' : TextStyle α → Draw α β}
    (hf : ∀ style style' d d', style.tidied = style'.tidied → R d d' →
      Matches R (f style) (f' style') d d' Q) :
    Matches R (currentStyle ⟨s, n⟩ scale >>= f)
      (Manner.rebuilding.style ⟨s, n'⟩ scale >>= f') c c' Q := by
  have hnew : Matches R (renewStyle ⟨s, n⟩ c.graphics scale >>= f)
      (makeStyle ⟨s, n'⟩ c.graphics scale >>= f') c c' Q := by
    simp only [renewStyle, bind_assoc, pure_bind]
    refine .bind (hn.matches_makeStyle_recalled hi hR.remembers h scale) fun style d d' hd hstyle =>
      .modifyLeft (hf style style _ _ rfl (hR.keep _ hd ((hR.remembers hd).keepStyle hstyle.2)))
  obtain ⟨fill, stroke, hg⟩ := (hn.agrees h).graphics
  rw [currentStyle_eq, bind_assoc]
  refine .getLeft ?_
  show Matches _ _ (makeStyle ⟨s, n'⟩ c'.graphics scale >>= f') c c' Q
  rw [hg, makeStyle_inSpaces]
  cases hkept : c.context.textStyle with
  | none => exact hnew
  | some known =>
    dsimp only
    by_cases hscale : (known.1 == scale) = true
    · rw [if_pos hscale, pure_bind]
      obtain ⟨style, htidied, hsettled, rfl⟩ := (hR.remembers h).style known hkept
      have htells := s.tells_makeStyle (n := n') (hR.refuses hn h) c.graphics scale
        (by rwa [(hn.agrees h).resources, (hn.agrees h).definitions])
      rw [(hn.agrees h).resources, (hn.agrees h).definitions] at htells
      have hsame := htidied.trans (s.styleOf_congr c.context.resources rfl c.definitions
        (tidy_of_beq hscale))
      exact .tellsRight htells (hf _ _ _ _ hsame h) (hf _ _ _ _ hsame (hR.looked h))
    · rw [if_neg hscale]
      exact hnew

theorem matches_showPiece_rebuilt (h : R c c') (font : Font α) (piece : List UInt8) (spaces : Nat) :
    Matches R (PageSvg.showPiece ⟨s, n⟩ font piece spaces)
      (Manner.rebuilding.showPiece ⟨s, n'⟩ font piece spaces) c c' fun _ _ _ => True := by
  have hset := hR.position c.graphics.textPosition h
  obtain ⟨fill, stroke, hg⟩ := (hn.agrees h).graphics
  unfold PageSvg.showPiece Manner.showPiece
  refine .getBind ?_
  rw [hg]
  refine .setBind (matches_rebuilt_style hR hn hi hset _ fun style style' d d' htidied hd =>
    .modify ?_ trivial)
  exact hR.addText _ _ _ htidied hd

end Style

theorem restyling_follows : Restyling s found level (Follows s found level) where
  remembers h := h.2
  keep _ h hknown := ⟨⟨h.1.layout, h.1.eq⟩, hknown⟩
  looked h := ⟨h.1.looked, h.2⟩
  position {_ c'} m h := by
    refine ⟨h.1.map
      (f := fun d => d.mapContext fun k => { k with layout := k.layout.position s.options m })
      (g := fun t => t.position s.options m) (fun _ _ => rfl) rfl ?_, h.2.mapContext rfl⟩
    rw [TextLayout.tidied_position, h.1.layout, TextLayout.tidied_position]
  addText {c c'} text width distance {style style'} hstyle h := by
    have hadded := h.1.map
      (f := fun d => (d.mapContext fun k =>
        { k with layout := k.layout.addText s.options text width style' }).advance distance)
      (g := fun t => t.addText s.options text width style') (fun _ _ => rfl) rfl
      (by rw [TextLayout.tidied_addText s.options _ text width rfl, h.1.layout,
        TextLayout.tidied_addText s.options _ text width rfl])
    have htidied : (c.context.layout.addText s.options text width style').tidied =
        (c.context.layout.addText s.options text width style).tidied := by
      rw [TextLayout.tidied_addText s.options _ text width rfl,
        TextLayout.tidied_addText s.options _ text width hstyle]
    exact ⟨⟨hadded.layout.trans htidied, hadded.eq⟩, (h.2.mapContext rfl).mapText _ rfl rfl⟩

/-- Each step keeps what is drawn with styles made anew the same. -/
theorem steps_follows (hfonts : Font.Coherent s.library found) (outer : List (Context α)) :
    Steps s Manner.rebuilding outer (level ≠ 0) (Follows s found level)
      fun _ g g' => g' = g ∧ ∀ f, g.text.font = some f → f.Supplied s.library found :=
  have hkept := kept_remembers hfonts level
  { agrees := fun h => h.1.agrees
    look := fun {c c'} h => by
      refine ⟨?_, ⟨h.1.looked.layout, h.1.looked.eq⟩, hkept.look h.2⟩
      unfold Cancellation.isSeen
      rw [h.1.onset_eq, h.2.onset]
      rfl
    watch := fun h => .pure h trivial
    adjust := fun {c c' n} a ha h => ⟨h.1.overlooked (a.overlooks c ⟨s, n⟩), hkept.adjust a ha h.2⟩
    save := fun h => ⟨h.1.overlooked ⟨false, fun _ _ _ _ => rfl⟩, hkept.save h.2⟩
    restore := fun {c c'} h => ⟨h.1.overlooked c.overlooks_restore, hkept.restore h.2⟩
    setSoftMask := fun mask h =>
      ⟨h.1.overlooked (Canvas.overlooks_mapGraphics _ _), hkept.setSoftMask mask h.2⟩
    text := fun h => TextLayout.drawnAlike_of_tidied s.options h.1.layout
    clearText := fun h =>
      ⟨h.1.map (f := Canvas.clearText) (g := fun _ => .empty) (fun _ _ => rfl) rfl rfl,
        hkept.layout .empty h.2⟩
    outlines := fun outlines h =>
      ⟨h.1.overlooked (f := fun c => c.mapContext fun k => { k with outlines })
        ⟨false, fun _ _ _ _ => rfl⟩, hkept.outlines outlines h.2⟩
    addGlyphs := fun nodes h => by
      refine ⟨h.1.map
        (f := fun c => c.mapContext fun k => { k with layout := k.layout.addGlyphs nodes })
        (g := fun t => t.addGlyphs nodes) (fun _ _ => rfl) rfl ?_, hkept.layout _ h.2⟩
      rw [TextLayout.tidied_addGlyphs, h.1.layout, TextLayout.tidied_addGlyphs]
    showPiece := fun {c c' n n'} hn hi font piece spaces h =>
      matches_showPiece_rebuilt restyling_follows hn hi h font piece spaces
    push := fun node _ h => ⟨h.1.push node, hkept.push node h.2⟩
    append := fun node bounds _ h => ⟨h.1.append s.options node bounds, hkept.append node bounds h.2⟩
    classes := fun classes hnamed h =>
      ⟨h.1.overlooked (f := fun c => { c with definitions := { c.definitions with classes } })
        ⟨false, fun _ _ _ _ => rfl⟩, hkept.classes classes hnamed h.2⟩
    insert := fun {_ _ kind} hkind key node h =>
      ⟨h.1.overlooked
        (f := fun c => { c with definitions := c.definitions.insertNew (stableId kind key) node })
        ⟨false, fun _ _ _ _ => rfl⟩, hkept.insert hkind key node h.2⟩
    insertCell := fun hdeep _ _ key node h =>
      ⟨h.1.overlooked
        (f := fun c => { c with definitions := c.definitions.insertNew (stableId "pat" key) node })
        ⟨false, fun _ _ _ _ => rfl⟩, hkept.insertCell hdeep key node h.2⟩
    clipTo := fun evenOdd hb h =>
      ⟨h.1.overlooked (f := fun c => c.clipTo _ evenOdd) ⟨false, fun _ _ _ _ => rfl⟩,
        hkept.clipTo evenOdd hb.2 h.2⟩
    clipToText := fun nodes h =>
      ⟨h.1.overlooked (f := fun c => c.clipToText nodes) ⟨false, fun _ _ _ _ => rfl⟩,
        hkept.clipToText nodes h.2⟩
    formRegion := fun {c c'} parent box placement hparent h =>
      ⟨h.1.overlooked (c.overlooks_formRegion s.viewport parent box placement),
        hkept.formRegion parent box placement hparent h.2⟩
    activeForms := fun forms hforms h =>
      ⟨h.1.overlooked (f := fun c => { c with activeForms := forms }) ⟨false, fun _ _ _ _ => rfl⟩,
        hkept.activeForms forms hforms h.2⟩
    startCell := fun t paint ht h => ⟨rfl, hkept.startCell t paint ht h.2⟩
    startGlyph := fun ctm h => ⟨h.1.graphics_eq ▸ rfl, hkept.startGlyph ctm h.2⟩
    startForm := fun box ctm h => ⟨h.1.graphics_eq ▸ rfl, hkept.startForm box ctm h.2⟩
    startPage := fun parent box ctm hparent h => ⟨rfl, hkept.startPage parent box ctm hparent h.2⟩ }

/-- Pages and nested content, on every level, come out the same with styles made anew. -/
theorem simulation_follows (hfonts : Font.Coherent s.library found) :
    Simulation s Manner.rebuilding (fun level _ => Follows s found level)
      fun _ g g' => g' = g ∧ ∀ f, g.text.font = some f → f.Supplied s.library found where
  steps level outer := steps_follows hfonts outer
  content h := by
    rw [h.1.eq]
    rfl
  enter {level outer c c'} graphics _ resources locked h hG := by
    obtain ⟨rfl, hG⟩ := hG
    refine ⟨⟨rfl, ?_⟩, h.2.entered hG resources locked⟩
    rw [h.1.eq]
    rfl
  leave {level outer c c' graphics resources locked d d'} h hframe hd := by
    refine ⟨⟨h.1.layout, ?_⟩, h.2.left hframe hd.2⟩
    rw [hd.1.eq, h.1.eq]
    rfl

end Steps

/-! ### Pages -/

section Pages

variable [ZerosAlike α] {v : Converter α} {p : Page α}

omit [ZerosAlike α] in
theorem Converter.remembers_canvas (hstop : v.cancellation.onset = none) :
    (v.canvas p).Remembers (p.setting v.options v.library) v.cache v.options.maxNestingDepth where
  running := by
    unfold Canvas.IsStopped
    rw [show (v.canvas p).cancellation.onset = none from hstop]
    exact Bool.false_ne_true
  nesting := Nat.zero_add _
  font _ e := by cases e
  saved _ hg := absurd hg List.not_mem_nil
  cache _ e := Option.some.inj e ▸ fun _ hentry => .found hentry
  style _ e := by cases e

omit [ZerosAlike α] in
/-- Where no level of nesting is left, cells are refused. -/
theorem Canvas.Remembers.refuses {s : Setting α} {found : ResourceCache α} {level : Nat}
    {c : Canvas α} (h : c.Remembers s found level) (hlevel : ¬level ≠ 0) :
    Refuses s (s.nested level) c := by
  intro t paint resources _
  have hseen : c.cancellation.isSeen = false := by
    unfold Cancellation.isSeen
    rw [h.onset]
    rfl
  rw [not_not.1 hlevel]
  exact orSkip_refuse_apply _ hseen

/-- The documents are the same. -/
theorem Canvas.Follows.finish_eq {s : Setting α} {found : ResourceCache α} {level : Nat}
    {c c' : Canvas α} (hfonts : Font.Coherent s.library found) (h : Follows s found level c c') :
    c'.finish s = c.finish s := by
  have hflushed : (c.flushText s.options).Rebuilds (c'.flushText s.options) :=
    ((steps_follows hfonts []).flushText h).1
  unfold finish
  rw [hflushed.eq]
  rfl

/-- **The last style of text is invisible.** In every state that a page passes through, the
style that is kept is the one that would be made now at its scale, up to the sign of zeros: it
compares with it as with itself. And the page comes out the same when the style is made anew
for each run of text. -/
theorem last_style_invisible (v : Converter α) (p : Page α) (hstop : v.cancellation.onset = none)
    (hfonts : Font.Coherent v.library v.cache) :
    (∀ (outer : List (Context α)) (c : Canvas α) (scale : α) (style : TextStyle α),
      v.Reaches p outer c → c.context.textStyle = some (scale, style) →
      ∃ style' looks,
        makeStyle ⟨p.setting v.options v.library,
            (p.setting v.options v.library).nested (v.options.maxNestingDepth - c.depth)⟩
          c.graphics scale c = .ok style' { c with cancellation.looks := looks } ∧
        style.tidied = style'.tidied ∧ (style == style') = (style == style)) ∧
    (Manner.rebuilding.convert v p).1 = (v.convert p).1 := by
  have hstart := v.remembers_canvas (p := p) hstop
  refine ⟨fun outer c scale style hreaches hkept => ?_, ?_⟩
  · obtain ⟨level, h⟩ := (invariant_remembers hfonts).of_reaches hstart hreaches
    obtain ⟨style', htidied, hsettled, rfl⟩ := h.style _ hkept
    have hlevel : v.options.maxNestingDepth - c.depth = level := by
      have hnesting : c.depth + level = v.options.maxNestingDepth := h.nesting
      omega
    rw [hlevel]
    rcases Setting.tells_makeStyle h.refuses c.graphics scale hsettled with htells | htells
    · exact ⟨_, _, htells, htidied, TextStyle.beq_congr rfl htidied.symm⟩
    · exact ⟨_, _, htells, htidied, TextStyle.beq_congr rfl htidied.symm⟩
  · have hfollows : Canvas.Follows (p.setting v.options v.library) v.cache
        v.options.maxNestingDepth (v.canvas p) (v.canvas p) := ⟨⟨rfl, rfl⟩, hstart⟩
    have hmatch := (simulation_follows hfonts).drawPage p hfollows
    unfold Matches at hmatch
    split at hmatch
    · next hplain hrebuilt =>
      simp only [Manner.convert, Converter.convert, hplain, hrebuilt]
      exact congrArg Except.ok (hmatch.2.1.finish_eq hfonts)
    · next hplain hrebuilt =>
      obtain ⟨⟨rfl, rfl⟩, _⟩ := hmatch
      simp only [Manner.convert, Converter.convert, hplain, hrebuilt]
    · exact hmatch.elim

end Pages

/-! ### A letter -/

section Showing

variable (s : Setting α) {n : Nesting α} {c : Canvas α} (hfill : c.graphics.fill.pattern = none)

include hfill

/-- The style of text in a plain colour is made without drawing anything. -/
theorem makeStyle_plain (scale : α) :
    makeStyle ⟨s, n⟩ c.graphics scale c =
      .ok (s.styleOf c.context.resources c.definitions c.graphics scale) c := by
  have htext : textFill ⟨s, n⟩ c.graphics c =
      .ok (s.fillOf c.context.resources c.definitions c.graphics) c := by
    unfold textFill Setting.fillOf
    cases c.graphics.text.mode.fills with
    | false => rfl
    | true =>
      rw [hfill]
      rfl
  unfold makeStyle
  rw [bind_apply, htext]
  rfl

theorem currentStyle_plain (hkept : c.context.textStyle = none) (scale : α) :
    currentStyle ⟨s, n⟩ scale c =
      .ok (s.styleOf c.context.resources c.definitions c.graphics scale)
        (c.mapContext fun k => { k with
          textStyle := some
            (scale, s.styleOf c.context.resources c.definitions c.graphics scale) }) := by
  have hget : (get : Draw α (Canvas α)) c = .ok c c := rfl
  simp only [currentStyle, bind_apply, hget, hkept, makeStyle_plain s hfill]
  rfl

/-- A run of text in a plain colour is shown without drawing anything else,
and its style is kept. -/
theorem showPiece_plain (hkept : c.context.textStyle = none) (font : Font α) (piece : List UInt8)
    (spaces : Nat) :
    ∃ d, (∀ n, PageSvg.showPiece ⟨s, n⟩ font piece spaces c = .ok () d) ∧
      ∃ known, d.context.textStyle = some known := by
  have hget : (get : Draw α (Canvas α)) c = .ok c c := rfl
  have hset (e : Canvas α) : (set e : Draw α PUnit) c = .ok ⟨⟩ e := rfl
  have hcurrent (n : Nesting α) := currentStyle_plain s (n := n) (c := c.mapContext fun k =>
    { k with layout := k.layout.position s.options c.graphics.textPosition }) hfill hkept
  apply Exists.intro
  constructor
  · intro n
    unfold PageSvg.showPiece
    simp only [bind_apply, hget, hset, hcurrent]
    rfl
  · exact ⟨_, rfl⟩

end Showing

section Example

attribute [local instance] Scalar.rational Scalar.zerosAlike_rational

/-- A page that shows one letter passes through a state with a style of text. -/
theorem last_style_invisible_letter :
    ∃ (v : Converter ℚ) (p : Page ℚ) (c : Canvas ℚ) (scale : ℚ) (style : TextStyle ℚ),
      v.cancellation.onset = none ∧ Font.Coherent v.library v.cache ∧ v.Reaches p [] c ∧
      c.context.textStyle = some (scale, style) ∧
      (∃ style' looks,
        makeStyle ⟨p.setting v.options v.library,
            (p.setting v.options v.library).nested (v.options.maxNestingDepth - c.depth)⟩
          c.graphics scale c = .ok style' { c with cancellation.looks := looks } ∧
        style.tidied = style'.tidied ∧ (style == style') = (style == style)) ∧
      (Manner.rebuilding.convert v p).1 = (v.convert p).1 := by
  let p : Page ℚ := ⟨⟨0, 0, 10, 10⟩, 0, [⟨"Tj", [.string [97]]⟩], 0, []⟩
  let v : Converter ℚ := { options := .standard, library := #[] }
  have hfonts : Font.Coherent v.library v.cache := by
    have hall (f : Font ℚ) (hf : f.Supplied v.library v.cache) : f = .standIn := by
      cases hf with
      | standIn => rfl
      | resource hset => exact absurd hset (Array.not_mem_empty _)
      | parameter hset => exact absurd hset (Array.not_mem_empty _)
      | found hentry => exact absurd hentry List.not_mem_nil
    intro f g hf hg _
    rw [hall f hf, hall g hg]
    exact ⟨rfl, rfl, rfl⟩
  obtain ⟨c, hshown, ⟨scale, style⟩, hkept⟩ := showPiece_plain (p.setting v.options v.library)
    (c := (v.canvas p).looked) rfl rfl .standIn [97] 0
  have hop (n : Nesting ℚ) : execute ⟨p.setting v.options v.library, n⟩ ⟨"Tj", [.string [97]]⟩
      (v.canvas p).looked = .ok true c := by
    have hexecute : execute ⟨p.setting v.options v.library, n⟩ ⟨"Tj", [.string [97]]⟩
        (v.canvas p).looked =
      (do PageSvg.showPiece ⟨p.setting v.options v.library, n⟩ .standIn [97] 0; return true)
        (v.canvas p).looked := rfl
    rw [hexecute, bind_apply, hshown n]
    rfl
  have hreaches : v.Reaches p [] c :=
    v.reaches_executed rfl fun n => executeAll_cons_apply rfl (hop n) []
  obtain ⟨hknown, hsame⟩ := last_style_invisible v p rfl hfonts
  exact ⟨v, p, c, scale, style, rfl, hfonts, hreaches, hkept, hknown [] c scale style hreaches hkept,
    hsame⟩

end Example

end PageSvg
