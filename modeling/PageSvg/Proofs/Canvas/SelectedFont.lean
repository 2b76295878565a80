import PageSvg.Proofs.Canvas.StyleCache
import PageSvg.Proofs.Canvas.TextMode
import PageSvg.Proofs.Number.Rational

/-!
# The selected font

Fonts are told apart by their identity alone. As long as fonts of one identity are one font, the
font that a name stands for is in force once it is selected, and text is decoded and styled by it:
the last style of text, too, is in its looks. A font with the identity of another one is not
selected where the other is in force in the same size.
-/

namespace PageSvg

open Draw

variable {α : Type}

/-! ### Looks -/

/-- The style has the looks of a font. -/
structure TextStyle.Wears (style : TextStyle α) (f : Font α) : Prop where
  family : style.family = f.family
  bold : style.bold = f.bold
  italic : style.italic = f.italic

/-- The style in the looks of a font. -/
def TextStyle.wearing (style : TextStyle α) (f : Font α) : TextStyle α :=
  { style with family := f.family, bold := f.bold, italic := f.italic }

theorem TextStyle.Wears.wearing_eq {style : TextStyle α} {f : Font α} (h : style.Wears f) :
    style.wearing f = style := by
  unfold wearing
  rw [← h.family, ← h.bold, ← h.italic]

section Fonts

variable [Scalar α] {library : Library α} {found : ResourceCache α}

/-- Fonts of one identity are one font. -/
def Font.Identified (library : Library α) (found : ResourceCache α) : Prop :=
  ∀ f g : Font α, f.Supplied library found → g.Supplied library found → f.id = g.id → f = g

/-- All fonts of the state are supplied. -/
def GraphicsState.FontSupplied (library : Library α) (found : ResourceCache α)
    (g : GraphicsState α) : Prop :=
  ∀ f, g.text.font = some f → f.Supplied library found

/-- States with supplied fonts that compare as equal have one font. -/
theorem GraphicsState.font_eq_of_beq (hfonts : Font.Identified library found)
    {g g' : GraphicsState α} (hg : g.FontSupplied library found)
    (hg' : g'.FontSupplied library found) (h : (g.text.font == g'.text.font) = true) :
    g.text.font = g'.text.font := by
  unfold FontSupplied at hg hg'
  cases hf : g.text.font with
  | none =>
    cases hf' : g'.text.font with
    | none => rfl
    | some f' =>
      rw [hf, hf'] at h
      cases h
  | some f =>
    cases hf' : g'.text.font with
    | none =>
      rw [hf, hf'] at h
      cases h
    | some f' =>
      rw [hf, hf'] at h
      have hid : (f.id == f'.id) = true := h
      exact congrArg some (hfonts f f' (hg f hf) (hg' f' hf') (eq_of_beq hid))

end Fonts

/-! ### The font in force -/

namespace Canvas

variable [Scalar α] {library : Library α} {found : ResourceCache α} {c d : Canvas α}

/-- All fonts are supplied that are or may be in force, and the last style of text has the looks of
the font in force. -/
structure KeepsFont (library : Library α) (found : ResourceCache α) (c : Canvas α) : Prop where
  font : c.graphics.FontSupplied library found
  saved : ∀ g ∈ c.context.saved, g.FontSupplied library found
  cache : ∀ k, c.cache = some k → ∀ entry ∈ k.fonts, entry.2.Supplied library found
  style : ∀ known, c.context.textStyle = some known → known.2.Wears c.graphics.currentFont

/-- The fonts of the cache are the same. -/
def SameFonts (c d : Canvas α) : Prop := d.cache.map (·.fonts) = c.cache.map (·.fonts)

theorem KeepsFont.of_font (h : c.KeepsFont library found)
    (hfont : d.graphics.text.font = c.graphics.text.font)
    (hsaved : d.context.saved = c.context.saved) (hcache : c.SameFonts d)
    (hstyle : d.context.textStyle = c.context.textStyle ∨ d.context.textStyle = none) :
    d.KeepsFont library found where
  font f hf := h.font f (hfont ▸ hf)
  saved := hsaved ▸ h.saved
  cache k hk := by
    unfold SameFonts at hcache
    rw [hk] at hcache
    cases hck : c.cache with
    | none =>
      rw [hck] at hcache
      cases hcache
    | some k' =>
      rw [hck] at hcache
      have hfonts : k.fonts = k'.fonts := Option.some.inj hcache
      rw [hfonts]
      exact h.cache k' hck
  style known hknown := by
    rcases hstyle with hsame | hnone
    · have hcurrent : d.graphics.currentFont = c.graphics.currentFont :=
        congrArg (·.getD .standIn) hfont
      rw [hcurrent]
      exact h.style known (hsame ▸ hknown)
    · rw [hnone] at hknown
      cases hknown

theorem KeepsFont.undisturbed (h : c.KeepsFont library found) (hd : c.Undisturbed d) :
    d.KeepsFont library found :=
  h.of_font (congrArg (·.font) hd.text) hd.saved (congrArg _ hd.cache) (.inl hd.textStyle)

/-! ### Adjustments -/

theorem KeepsFont.setFont (h : c.KeepsFont library found) {f : Font α}
    (hf : f.Supplied library found) (size : α) : (c.setFont f size).KeepsFont library found := by
  dsimp only [Canvas.setFont, mapTextUnless]
  split
  · exact h
  · exact ⟨fun _ e => Option.some.inj e ▸ hf, h.saved, h.cache, fun _ e => by cases e⟩

section Finding

variable {s : Setting α} {n : Nesting α}

theorem KeepsFont.findFont (h : c.KeepsFont s.library found) (name : String) :
    (c.findFont ⟨s, n⟩ name).1.Supplied s.library found ∧
      (c.findFont ⟨s, n⟩ name).2.KeepsFont s.library found := by
  obtain ⟨hfont, cache, hfound, hcache⟩ := c.supplied_findFont (n := n) h.cache name
  rw [hfound]
  exact ⟨hfont, h.font, h.saved, hcache, h.style⟩

omit [Scalar α] in
theorem sameFonts_findColorSpace (env : Environment α) (c : Canvas α) (name : String) :
    c.SameFonts (c.findColorSpace env name).2 := by
  unfold SameFonts Canvas.findColorSpace
  dsimp only
  split
  · rfl
  · split
    · next k _ hcache _ =>
      rw [hcache]
      rfl
    · rfl

/-- Only a font that is found may be new in the cache. -/
theorem sameFonts_apply (a : Adjustment α) (ha : a.setsFont = false) (env : Environment α)
    (c : Canvas α) : c.SameFonts (a.apply env c) := by
  cases hsearches : a.searches with
  | false =>
    have honto := a.apply_onto (c := c) hsearches env c
    rw [onto_self] at honto
    rw [honto]
    rfl
  | true =>
    cases a with
    | colorSpace target name =>
      dsimp only [Adjustment.apply, Canvas.setColorSpace]
      split
      · rfl
      · exact sameFonts_findColorSpace env c name
    | selectFont name size => cases ha
    | _ => cases hsearches

theorem KeepsFont.adjust (h : c.KeepsFont s.library found) (a : Adjustment α) (ha : a.Known s) :
    (a.apply ⟨s, n⟩ c).KeepsFont s.library found := by
  cases hfont : a.setsFont with
  | true =>
    cases a with
    | font f size =>
      obtain ⟨set, hset, entry, hentry, size', hparameter⟩ := ha
      exact h.setFont (.parameter hset hentry hparameter) size
    | selectFont name size =>
      obtain ⟨hsupplied, hfound⟩ := h.findFont (n := n) name
      exact (hfound.setFont hsupplied size).of_font rfl rfl rfl (.inl rfl)
    | _ => cases hfont
  | false =>
    have hadjusts := a.adjusts ⟨s, n⟩ c
    exact h.of_font ((a.leaves ⟨s, n⟩ c).font hfont) hadjusts.saved (sameFonts_apply a hfont _ c)
      hadjusts.textStyle

end Finding

theorem KeepsFont.save (h : c.KeepsFont library found) : c.save.KeepsFont library found where
  font := h.font
  saved g hg := by
    rcases List.mem_cons.1 hg with rfl | hg
    · exact h.font
    · exact h.saved g hg
  cache := h.cache
  style := h.style

/-- Going back to a saved state keeps the style only if the state has the same font. -/
theorem KeepsFont.restore (hfonts : Font.Identified library found) (h : c.KeepsFont library found) :
    c.restore.KeepsFont library found := by
  unfold Canvas.restore
  split
  · exact h
  · next g rest hsaved =>
    have hall := List.forall_mem_cons.1 (hsaved ▸ h.saved)
    dsimp only
    by_cases hsame : (g == c.graphics) = true
    · have hfont := GraphicsState.font_eq_of_beq hfonts hall.1 h.font
        (GraphicsState.font_mode_of_beq hsame).1
      have hcurrent : g.currentFont = c.graphics.currentFont := congrArg (·.getD .standIn) hfont
      rw [if_pos hsame]
      refine ⟨hall.1, hall.2, h.cache, fun known hknown => ?_⟩
      show known.2.Wears g.currentFont
      rw [hcurrent]
      exact h.style known hknown
    · rw [if_neg hsame]
      exact ⟨hall.1, hall.2, h.cache, fun _ e => by cases e⟩

end Canvas

/-! ### Invariance -/

section Invariance

variable [Scalar α] {s : Setting α} {found : ResourceCache α}

/-- Each step leaves the last style in the looks of the font in force. -/
theorem kept_font (hfonts : Font.Identified s.library found) (deep : Prop) :
    Kept s deep (Canvas.KeepsFont s.library found) fun _ g => g.FontSupplied s.library found :=
  Observes.kept
    { undisturbed := fun hd h => h.undisturbed hd
      adjust := fun a ha h => h.adjust a ha
      save := fun h => h.save
      restore := fun h => h.restore hfonts
      style := fun hn hi scale h => hn.matches_currentStyle hi scale h fun _ _ hd hmade =>
        ⟨hd.font, hd.saved, hd.cache, fun _ e =>
          Option.some.inj e ▸ ⟨hmade.family, hmade.bold, hmade.italic⟩⟩
      startCell := fun t paint _ _ _ e => by cases t.text_cellState paint ▸ e
      startGlyph := fun _ _ _ e => by cases e
      startForm := fun _ _ h => h.font
      startPage := fun _ _ _ _ _ _ e => by cases e }

/-- **The last style has the looks of the font in force on every level.** -/
theorem invariant_font (hfonts : Font.Identified s.library found) :
    Invariant s (fun _ _ => Canvas.KeepsFont s.library found)
      fun _ g => g.FontSupplied s.library found where
  kept level _ := kept_font hfonts (level ≠ 0)
  enter _ _ _ h hG := ⟨hG, fun _ hg => absurd hg List.not_mem_nil, h.cache, fun _ e => by cases e⟩
  leave h _ hd := ⟨h.font, h.saved, hd.cache, h.style⟩

end Invariance

/-! ### Showing text in a font -/

section Showing

variable [Scalar α]

/-- Draws with the last style of text in the looks of a font. -/
def Manner.wearing (f : Font α) : Manner α :=
  { Manner.plain with
    style := fun env scale => do
      let style ← currentStyle env scale
      return style.wearing f }

/-- Shows a string in a font: decoded by it, in its looks, or by its glyph procedures. -/
def showTextIn (env : Environment α) (font : Font α) (bytes : List UInt8) : Draw α Unit := do
  match font.procedures with
  | some glyphs =>
    let nodes ← drawGlyphs env font glyphs bytes
    modify fun c => c.mapContext fun k => { k with layout := k.layout.addGlyphs nodes }
  | none =>
    if !((← get).graphics.text.wordSpacing == 0) && font.wordSpacing then
      (splitAfterSpaces bytes).forM fun piece =>
        (Manner.wearing font).showPiece env font piece (piece.count 0x20)
    else (Manner.wearing font).showPiece env font bytes 0

/-- A font is in force, and the last style of text has its looks. -/
structure Canvas.Wears (f : Font α) (c : Canvas α) : Prop where
  font : c.graphics.currentFont = f
  style : ∀ known, c.context.textStyle = some known → known.2.Wears f

variable {env : Environment α} {f : Font α} {c : Canvas α}

/-- The style is found in the looks of the font in force, and is kept so. -/
theorem exists_currentStyle_wears (h : env.Isolates) (hc : c.Wears f) (scale : α) :
    ∃ style d, currentStyle env scale c = .ok style d ∧ style.Wears f ∧ d.Wears f := by
  obtain ⟨style, d, hstyle, hd⟩ := exists_lastStyle h scale c
  refine ⟨style, d, hstyle, ?_⟩
  rcases hd with ⟨rfl, last, hlast, -⟩ | ⟨hmade, hcontext⟩
  · exact ⟨hc.style _ hlast, hc⟩
  · have hwears : style.Wears f := hc.font ▸ ⟨hmade.family, hmade.bold, hmade.italic⟩
    refine ⟨hwears, ?_, fun known hknown => ?_⟩
    · rw [show d.graphics = c.graphics from congrArg (·.graphics) hcontext]
      exact hc.font
    · rw [hcontext] at hknown
      exact Option.some.inj hknown ▸ hwears

/-- A piece is shown in the looks of the font in force. -/
theorem showPiece_wearing (h : env.Isolates) (hc : c.Wears f) (piece : List UInt8) (spaces : Nat) :
    ∃ d, showPiece env f piece spaces c = .ok () d ∧
      (Manner.wearing f).showPiece env f piece spaces c = .ok () d ∧ d.Wears f := by
  let t := c.graphics.text
  let advance := glyphAdvance t (f.decode piece)
  let scale := c.graphics.textPosition.splitPlacement.scale
  let e := c.mapContext fun k =>
    { k with layout := k.layout.position env.options c.graphics.textPosition }
  have he : e.Wears f := ⟨hc.font, hc.style⟩
  obtain ⟨style, d, hstyle, hwears, hd⟩ := exists_currentStyle_wears h he scale
  have hwearing : (Manner.wearing f).style env scale e = .ok style d := by
    show (currentStyle env scale >>= fun style => pure (style.wearing f)) e = _
    rw [bind_apply, hstyle]
    exact congrArg (EStateM.Result.ok · d) hwears.wearing_eq
  refine ⟨(d.mapContext fun k =>
    { k with
      layout := k.layout.addText env.options (f.decode piece).text (advance * scale) style }).advance
        (advance + t.wordSpacing * Scalar.ofInt spaces * GraphicsState.textScale t),
    ?_, ?_, hd.font, hd.style⟩
  · unfold showPiece
    rw [getBind_apply]
    dsimp only
    rw [setBind_apply, bind_apply, hstyle]
    rfl
  · unfold Manner.showPiece
    rw [getBind_apply]
    dsimp only
    rw [setBind_apply, bind_apply, hwearing]
    rfl

theorem showPieces_wearing (h : env.Isolates) (hc : c.Wears f) (pieces : List (List UInt8)) :
    (pieces.forM fun piece => showPiece env f piece (piece.count 0x20)) c =
      (pieces.forM fun piece => (Manner.wearing f).showPiece env f piece (piece.count 0x20)) c := by
  induction pieces generalizing c with
  | nil => rfl
  | cons piece rest ih =>
    obtain ⟨d, hshown, hworn, hd⟩ := showPiece_wearing h hc piece (piece.count 0x20)
    show (showPiece env f piece (piece.count 0x20) >>= fun _ => rest.forM _) c =
      ((Manner.wearing f).showPiece env f piece (piece.count 0x20) >>= fun _ => rest.forM _) c
    rw [bind_apply, bind_apply, hshown, hworn]
    exact ih hd

/-- Text is shown in the font in force. -/
theorem showText_eq (h : env.Isolates) (hc : c.Wears f) (bytes : List UInt8) :
    showText env bytes c = showTextIn env f bytes c := by
  obtain rfl := hc.font
  unfold showText showTextIn
  rw [getBind_apply]
  cases c.graphics.currentFont.procedures with
  | some glyphs => rfl
  | none =>
    dsimp only
    rw [getBind_apply]
    split
    · exact showPieces_wearing h hc _
    · obtain ⟨d, hshown, hworn, -⟩ := showPiece_wearing h hc bytes 0
      rw [hshown, hworn]

end Showing

/-! ### Selecting -/

section Selecting

variable [Scalar α]

/-- The font that a name stands for: what the cache keeps under its key, or
what the resources have. -/
def Canvas.fontNamed? (env : Environment α) (c : Canvas α) (name : String) : Option (Font α) :=
  let resources := env.resources c
  match c.cache, resources.key? .font name with
  | some cache, some key => (cache.fonts.lookup key).or (resources.fonts.get? name)
  | _, _ => resources.fonts.get? name

theorem Canvas.findFont_eq (env : Environment α) (c : Canvas α) (name : String) :
    (c.findFont env name).1 = (c.fontNamed? env name).getD .standIn := by
  unfold findFont fontNamed?
  dsimp only
  cases c.cache with
  | none => rfl
  | some cache =>
    cases (env.resources c).key? .font name with
    | none => rfl
    | some key =>
      dsimp only [ResourceCache.font, ResourceCache.findOrAdd]
      cases cache.fonts.lookup key with
      | some font => rfl
      | none => cases (env.resources c).fonts.get? name <;> rfl

/-- The font in force is the one that is set, or one of its identity that was
set in the same size. -/
theorem Canvas.currentFont_setFont (c : Canvas α) (f : Font α) (size : α) :
    (c.setFont f size).graphics.currentFont = f ∨
      ∃ g, c.graphics.text.font = some g ∧ g.id = f.id ∧ (c.graphics.text.fontSize == size) = true ∧
        (c.setFont f size).graphics.currentFont = g := by
  dsimp only [setFont, mapTextUnless]
  split
  · next hsame =>
    obtain ⟨hfont, hsize⟩ := (Bool.and_eq_true _ _).mp hsame
    cases hg : c.graphics.text.font with
    | none =>
      rw [hg] at hfont
      cases hfont
    | some g =>
      rw [hg] at hfont
      have hid : (g.id == f.id) = true := hfont
      refine .inr ⟨g, rfl, eq_of_beq hid, hsize, ?_⟩
      rw [GraphicsState.currentFont, hg]
      rfl
  · exact .inl rfl

theorem execute_font (env : Environment α) (c : Canvas α) (name : String) {operand : Operand α}
    {size : α} (h : operand.number? = some size) :
    execute env ⟨"Tf", [.name name, operand]⟩ c = .ok true (c.selectFont env name size) := by
  cases operand with
  | integer n =>
    cases h
    rfl
  | real x =>
    cases h
    rfl
  | _ => cases h

variable (v : Converter α) (p : Page α)

theorem Converter.keepsFont_canvas : (v.canvas p).KeepsFont v.library v.cache where
  font _ e := by cases e
  saved _ hg := absurd hg List.not_mem_nil
  cache _ e := Option.some.inj e ▸ fun _ hentry => .found hentry
  style _ e := by cases e

/-- **The selected font is used**, in every state that a page passes through, whether resources are
shared or not: as long as fonts of one identity are one font, the font that a name stands for is in
force once it is selected, or the stand-in where there is none, and text is shown in it and in no
other. In any case a font is in force that has its identity. -/
theorem select_font_shown {outer : List (Context α)} {c d : Canvas α}
    (hreaches : v.Reaches p outer c) (hd : d = c ∨ d = { c with cache := none }) (level : Nat)
    (name : String) {operand : Operand α} {size : α} (hsize : operand.number? = some size) :
    let s := p.setting v.options v.library
    let env : Environment α := ⟨s, s.nested level⟩
    let f := (d.fontNamed? env name).getD .standIn
    ∃ e, execute env ⟨"Tf", [.name name, operand]⟩ d = .ok true e ∧
      (e.graphics.currentFont = f ∨
        ∃ g, d.graphics.text.font = some g ∧ g.id = f.id ∧
          (d.graphics.text.fontSize == size) = true ∧ e.graphics.currentFont = g) ∧
      (Font.Identified v.library v.cache → e.graphics.currentFont = f ∧
        ∀ bytes, showText env bytes e = showTextIn env f bytes e) := by
  intro s env f
  have hfound : (d.findFont env name).1 = f := d.findFont_eq env name
  have hset := (d.findFont env name).2.currentFont_setFont f size
  rw [d.graphics_findFont env name] at hset
  have hcurrent : (d.selectFont env name size).graphics.currentFont =
      ((d.findFont env name).2.setFont f size).graphics.currentFont := by
    rw [← hfound]
    rfl
  rw [← hcurrent] at hset
  refine ⟨d.selectFont env name size, execute_font env d name hsize, hset, fun hfonts => ?_⟩
  obtain ⟨_, hc⟩ := (invariant_font (s := s) hfonts).of_reaches (v.keepsFont_canvas p) hreaches
  have hkeeps : d.KeepsFont s.library v.cache := by
    rcases hd with rfl | rfl
    · exact hc
    · exact ⟨hc.font, hc.saved, fun _ e => (by cases e), hc.style⟩
  have hforce : (d.selectFont env name size).graphics.currentFont = f := by
    rcases hset with hf | ⟨g, hg, hid, -, hcurrent⟩
    · exact hf
    · have hsupplied : f.Supplied s.library v.cache := hfound ▸ (hkeeps.findFont name).1
      rw [hcurrent]
      exact hfonts g f (hkeeps.font g hg) hsupplied hid
  have hselected : (d.selectFont env name size).KeepsFont s.library v.cache :=
    hkeeps.adjust (.selectFont name size) trivial
  exact ⟨hforce, showText_eq (s.nested_isolates level) ⟨hforce, hforce ▸ hselected.style⟩⟩

end Selecting

section Example

attribute [local instance] Scalar.rational

/-- A page without content, whose resources have one font. -/
def fontPage (content : ContentStream ℚ) : Page ℚ := ⟨⟨0, 0, 10, 10⟩, 0, content, 0, []⟩

/-- A converter whose library has one font. -/
def fontConverter (name : String) (f : Font ℚ) : Converter ℚ where
  options := .standard
  library := #[{ fonts := [(name, f)] }]

/-- A font of its own identity is in force once it is selected, where the stand-in was before. -/
theorem select_font_shown_own :
    let f : Font ℚ := { Font.fallback "serif" 500 with id := "own" }
    let v := fontConverter "F" f
    let p := fontPage [⟨"Tf", [.name "G", .integer 10]⟩]
    let s := p.setting v.options v.library
    let c := (v.canvas p).looked.selectFont ⟨s, s.nested 0⟩ "G" 10
    v.Reaches p [] c ∧ (Operand.integer 10).number? = some (10 : ℚ) ∧
      Font.Identified v.library v.cache ∧ c.graphics.text.font = some .standIn ∧
      ∃ e, execute ⟨s, s.nested 0⟩ ⟨"Tf", [.name "F", .integer 10]⟩ c = .ok true e ∧
        e.graphics.currentFont = f ∧
        ∀ bytes, showText ⟨s, s.nested 0⟩ bytes e = showTextIn ⟨s, s.nested 0⟩ f bytes e := by
  intro f v p s c
  have hreaches : v.Reaches p [] c :=
    v.reaches_executed rfl fun n =>
      executeAll_cons_apply rfl (execute_font ⟨s, n⟩ (v.canvas p).looked "G" rfl) []
  have hfonts : Font.Identified v.library v.cache := by
    have hall (g : Font ℚ) (hg : g.Supplied v.library v.cache) : g = .standIn ∨ g = f := by
      cases hg with
      | standIn => exact .inl rfl
      | resource hset hentry =>
        obtain rfl := Array.mem_singleton.1 hset
        exact .inr (congrArg Prod.snd (List.mem_singleton.1 hentry))
      | parameter hset hentry =>
        obtain rfl := Array.mem_singleton.1 hset
        exact absurd hentry List.not_mem_nil
      | found hentry => exact absurd hentry List.not_mem_nil
    intro g g' hg hg' hid
    rcases hall g hg with rfl | rfl <;> rcases hall g' hg' with rfl | rfl
    · rfl
    · exact absurd hid (by decide)
    · exact absurd hid (by decide)
    · rfl
  obtain ⟨e, hexecute, -, hshown⟩ := select_font_shown v p hreaches (.inl rfl) 0 "F"
    (rfl : (Operand.integer 10).number? = some (10 : ℚ))
  exact ⟨hreaches, rfl, hfonts, rfl, e, hexecute, hshown hfonts⟩

/-- The stand-in is not selected where a font of its identity is in force in the same size. -/
theorem select_font_shown_kept :
    let v := fontConverter "F" (.fallback "serif" 500)
    let p := fontPage [⟨"Tf", [.name "F", .integer 10]⟩]
    let s := p.setting v.options v.library
    ∃ c, v.Reaches p [] c ∧ c.fontNamed? ⟨s, s.nested 0⟩ "G" = none ∧
      ∃ e, execute ⟨s, s.nested 0⟩ ⟨"Tf", [.name "G", .integer 10]⟩ c = .ok true e ∧
        ∃ style d, makeStyle ⟨s, s.nested 0⟩ e.graphics 1 e = .ok style d ∧
          style.family = "serif" ∧ (Font.standIn : Font ℚ).family = "sans-serif" := by
  intro v p s
  let c := (v.canvas p).looked.selectFont ⟨s, s.nested 0⟩ "F" 10
  let e := c.selectFont ⟨s, s.nested 0⟩ "G" 10
  have hreaches : v.Reaches p [] c :=
    v.reaches_executed rfl fun n =>
      executeAll_cons_apply rfl (execute_font ⟨s, n⟩ (v.canvas p).looked "F" rfl) []
  obtain ⟨style, d, hstyle, -, hmade⟩ := exists_makeStyle (s.nested_isolates 0) e.graphics 1 e
  have hfamily : e.graphics.currentFont.family = "serif" := rfl
  exact ⟨c, hreaches, rfl, e, execute_font _ c "G" rfl, style, d, hstyle,
    hmade.family.trans hfamily, rfl⟩

end Example

end PageSvg
