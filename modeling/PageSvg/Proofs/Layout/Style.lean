import Mathlib.Tactic.SplitIfs
import PageSvg.Layout.Style

/-!
# What a style rule is painted with

Of the declarations of one property the last one holds. The family of a font may hold any text, but
it comes first, and nothing after it has a semicolon that does not end a declaration; so the last
declaration of the fill is the one that the style was written with.
-/

namespace PageSvg

/-! ### Texts without semicolons -/

section Semicolons

variable {α : Type} [Scalar α]

theorem semicolon_notMem_append {s t : String} (hs : ';' ∉ s.toList) (ht : ';' ∉ t.toList) :
    ';' ∉ (s ++ t).toList := by
  rw [String.toList_append, List.mem_append]
  exact fun h => h.elim hs ht

theorem semicolon_notMem_toDigits (n : Nat) : ';' ∉ Nat.toDigits 10 n := fun h =>
  absurd (Nat.isDigit_of_mem_toDigits (by decide) (by decide) h) (by decide)

theorem Numeral.semicolon_notMem_positionalText (digits : Nat) (exponent : Int) :
    ';' ∉ (positionalText false digits exponent).toList := by
  have hdigits (n : Nat) : ';' ∉ (digitText n).toList := by
    rw [digitText, String.toList_ofList]
    exact semicolon_notMem_toDigits n
  cases exponent with
  | ofNat n => exact semicolon_notMem_append (hdigits _) (by decide)
  | negSucc n =>
    refine semicolon_notMem_append (semicolon_notMem_append (hdigits _) (by decide)) ?_
    rw [padded, String.toList_ofList, List.mem_append, List.mem_replicate]
    exact fun h => h.elim (fun h => absurd h.2 (by decide)) (semicolon_notMem_toDigits _)

theorem Numeral.semicolon_notMem_text (n : Numeral) : ';' ∉ (n.text .plain).toList := by
  cases n with
  | nan => decide
  | infinite negative => cases negative <;> decide
  | finite negative digits exponent =>
    refine semicolon_notMem_append ?_ (semicolon_notMem_positionalText digits exponent)
    cases negative <;> decide

theorem Options.semicolon_notMem_text (o : Options α) (x : α) : ';' ∉ (o.text x).toList :=
  Numeral.semicolon_notMem_text _

/-- Neither a paint written as a colour nor anything in it ends a declaration. -/
theorem Rgb.toList_css (c : Rgb α) : ∃ digits, c.css.toList = '#' :: digits ∧ ';' ∉ digits := by
  have hdigit (n : Nat) : Nat.digitChar n ≠ ';' := by
    by_cases hn : 16 ≤ n
    · rw [Nat.digitChar_eq_star.2 hn]
      decide
    · have hall : ∀ n : Fin 16, Nat.digitChar n ≠ ';' := by decide
      exact hall ⟨n, by omega⟩
  rw [css, String.toList_ofList]
  refine ⟨_, rfl, fun hmem => ?_⟩
  split_ifs at hmem
  · obtain ⟨n, _, h⟩ := List.mem_map.1 hmem
    exact hdigit _ h
  · obtain ⟨n, _, h⟩ := List.mem_flatMap.1 hmem
    simp only [hexPair, List.mem_cons, List.not_mem_nil, or_false] at h
    exact h.elim (fun h => hdigit _ h.symm) fun h => hdigit _ h.symm

end Semicolons

/-! ### References -/

theorem Node.toList_reference (id : String) :
    (reference id).toList = 'u' :: 'r' :: 'l' :: '(' :: '#' :: (id.toList ++ [')']) := by
  rw [reference, String.toList_append, String.toList_append]
  rfl

theorem Node.reference_injective {id id' : String} (h : reference id = reference id') :
    id = id' := by
  have hlist := congrArg String.toList h
  rw [toList_reference, toList_reference] at hlist
  simp only [List.cons.injEq, true_and] at hlist
  exact String.toList_inj.1 (List.append_cancel_right hlist)

theorem Node.semicolon_notMem_reference {id : String} (h : ';' ∉ id.toList) :
    ';' ∉ (reference id).toList := by
  rw [toList_reference]
  simpa using h

/-- A colour is not a reference. -/
theorem Rgb.css_ne_reference {α : Type} [Scalar α] (c : Rgb α) (id : String) :
    c.css ≠ Node.reference id := by
  intro h
  obtain ⟨digits, hcss, _⟩ := c.toList_css
  rw [h, Node.toList_reference] at hcss
  exact absurd (List.cons.inj hcss).1 (by decide)

theorem Node.none_ne_reference (id : String) : "none" ≠ Node.reference id := by
  intro h
  have hlist := congrArg String.toList h
  rw [toList_reference] at hlist
  exact absurd hlist (by simp)

/-! ### Declarations -/

/-- The declarations of a rule. -/
def declarations (css : String) : List (List Char) := css.toList.splitOn ';'

/-- Is the fill declared? -/
def declaresFill (declaration : List Char) : Bool := "fill:".toList.isPrefixOf declaration

/-- The declaration of the fill that holds. -/
def fillDeclaration? (css : String) : Option (List Char) :=
  ((declarations css).filter declaresFill).getLast?

/-- The rule fills text with a definition. -/
def PaintsWith (css id : String) : Prop :=
  fillDeclaration? css = some ("fill:" ++ Node.reference id).toList

/-- One declaration, of another property than the fill. -/
structure DeclaresOther (d : String) : Prop where
  single : ';' ∉ d.toList
  other : declaresFill d.toList = false

theorem DeclaresOther.append {p s : String} (h : DeclaresOther p) (hlength : 5 ≤ p.toList.length)
    (hs : ';' ∉ s.toList) : DeclaresOther (p ++ s) := by
  refine ⟨semicolon_notMem_append h.single hs, ?_⟩
  rw [declaresFill, ← Bool.not_eq_true, List.isPrefixOf_iff_prefix, String.toList_append]
  intro hprefix
  have hp := List.prefix_of_prefix_length_le hprefix (List.prefix_append _ _) hlength
  rw [← List.isPrefixOf_iff_prefix] at hp
  exact absurd (hp.symm.trans h.other) (by decide)

/-- Only the first of several declarations can fall into several. -/
theorem declarations_intercalate (first : String) (rest : List String)
    (h : ∀ d ∈ rest, ';' ∉ d.toList) :
    declarations (String.intercalate ";" (first :: rest)) =
      declarations first ++ rest.map String.toList := by
  cases rest with
  | nil => simp [declarations]
  | cons second rest =>
    -- The first declaration is only cut further, as it ends at a separator.
    have hrest : (";".toList.intercalate ((second :: rest).map String.toList)).splitOn ';' =
        (second :: rest).map String.toList :=
      List.splitOn_intercalate ';' (by simpa using h) (by simp)
    rw [declarations, String.toList_intercalate, List.map_cons, List.intercalate_cons_of_ne_nil
      (by simp), List.append_assoc]
    show (first.toList ++ ';' :: _).splitOn ';' = _
    rw [List.splitOn_append_cons_self]
    exact congrArg _ hrest

/-- Between declarations of other properties the one of the fill holds, whatever stands first. -/
theorem fillDeclaration?_intercalate {first d : String} {before after : List String}
    (hbefore : ∀ e ∈ before, DeclaresOther e) (hafter : ∀ e ∈ after, DeclaresOther e)
    (hsingle : ';' ∉ d.toList) (hfill : declaresFill d.toList = true) :
    fillDeclaration? (String.intercalate ";" (first :: (before ++ d :: after))) =
      some d.toList := by
  have hall : ∀ e ∈ before ++ d :: after, ';' ∉ e.toList := by
    intro e he
    rw [List.mem_append, List.mem_cons] at he
    rcases he with he | rfl | he
    · exact (hbefore e he).single
    · exact hsingle
    · exact (hafter e he).single
  have hother {l : List String} (hl : ∀ e ∈ l, DeclaresOther e) :
      (l.map String.toList).filter declaresFill = [] := by
    rw [List.filter_eq_nil_iff]
    intro _ hmem
    obtain ⟨e, he, rfl⟩ := List.mem_map.1 hmem
    rw [(hl e he).other]
    decide
  -- What stands first may declare fills as well, but the last one holds.
  rw [fillDeclaration?, declarations_intercalate _ _ hall, List.map_append, List.map_cons,
    List.filter_append, List.filter_append, hother hbefore, List.filter_cons_of_pos hfill,
    hother hafter, List.nil_append, List.getLast?_concat]

/-! ### Styles -/

namespace TextStyle

variable {α : Type} [Scalar α] {o : Options α}

/-- The declaration of the fill. -/
def fillText (s : TextStyle α) : String :=
  "fill:" ++
    match s.fillReference, s.fill with
    | some id, _ => Node.reference id
    | none, some (rgb, _) => rgb.css
    | none, none => "none"

theorem declaresOther_opacity {property : String} {alpha : α} {d : String}
    (h : DeclaresOther (property ++ ":")) (hlength : 5 ≤ (property ++ ":").toList.length)
    (hd : d ∈ opacity o property alpha) : DeclaresOther d := by
  unfold opacity at hd
  split_ifs at hd
  · rw [List.mem_singleton.1 hd]
    exact h.append hlength (o.semicolon_notMem_text alpha)
  · cases hd

/-- The fill is declared once, and first. -/
theorem fillDeclarations_eq (s : TextStyle α) :
    ∃ more, s.fillDeclarations o = s.fillText :: more ∧ ∀ d ∈ more, DeclaresOther d := by
  rw [fillDeclarations, fillText]
  cases hid : s.fillReference with
  | some id => exact ⟨[], rfl, by simp⟩
  | none =>
    cases hfill : s.fill with
    | some fill =>
      refine ⟨opacity o "fill-opacity" fill.2, rfl, fun d => ?_⟩
      exact declaresOther_opacity ⟨by decide, by decide⟩ (by decide)
    | none =>
      have htext : "fill:" ++ "none" = "fill:none" := by decide
      exact ⟨[], by rw [← htext], by simp⟩

theorem declaresOther_stroke (s : TextStyle α) : ∀ d ∈ s.strokeDeclarations o, DeclaresOther d := by
  intro d hd
  unfold strokeDeclarations at hd
  split at hd
  · next stroke _ =>
    obtain ⟨digits, hcss, hdigits⟩ := stroke.rgb.toList_css
    have hcolor : ';' ∉ stroke.rgb.css.toList := by
      rw [hcss]
      simpa using hdigits
    rw [List.mem_append] at hd
    rcases hd with hd | hd
    · simp only [List.mem_cons, List.not_mem_nil, or_false] at hd
      rcases hd with rfl | rfl
      · exact DeclaresOther.append ⟨by decide, by decide⟩ (by decide) hcolor
      · exact DeclaresOther.append ⟨by decide, by decide⟩ (by decide)
          (o.semicolon_notMem_text _)
    · exact declaresOther_opacity ⟨by decide, by decide⟩ (by decide) hd
  · cases hd

theorem semicolon_notMem_fillText {s : TextStyle α}
    (h : ∀ id, s.fillReference = some id → ';' ∉ id.toList) : ';' ∉ s.fillText.toList := by
  refine semicolon_notMem_append (by decide) ?_
  split
  · next id hid => exact Node.semicolon_notMem_reference (h id hid)
  · next rgb _ _ _ =>
    obtain ⟨digits, hcss, hdigits⟩ := rgb.toList_css
    rw [hcss]
    simpa using hdigits
  · decide

theorem declaresOther_pixels {property : String} (h : DeclaresOther property)
    (hlength : 5 ≤ property.toList.length) (x : α) :
    DeclaresOther (property ++ o.text x ++ "px") := by
  have hpx : ';' ∉ "px".toList := by decide
  rw [String.append_assoc]
  exact h.append hlength (semicolon_notMem_append (o.semicolon_notMem_text x) hpx)

/-- Behind the family of the font there are only other properties around the declaration of the
fill. -/
theorem exists_css_eq (s : TextStyle α) : ∃ before after,
    s.css o = String.intercalate ";"
      (("font-family:" ++ s.family) :: (before ++ s.fillText :: after)) ∧
    (∀ d ∈ before, DeclaresOther d) ∧ ∀ d ∈ after, DeclaresOther d := by
  obtain ⟨more, hfill, hmore⟩ := s.fillDeclarations_eq (o := o)
  refine ⟨["font-size:" ++ o.text s.size ++ "px"] ++
      (if s.bold then ["font-weight:bold"] else []) ++
      (if s.italic then ["font-style:italic"] else []) ++ ["white-space:pre"],
    more ++ s.strokeDeclarations o ++
      (if s.letterSpacing == 0 then []
        else ["letter-spacing:" ++ o.text s.letterSpacing ++ "px"]),
    by simp [css, hfill], fun d hd => ?_, fun d hd => ?_⟩
  · simp only [List.mem_append, List.mem_singleton] at hd
    rcases hd with ((rfl | hd) | hd) | rfl
    · exact declaresOther_pixels ⟨by decide, by decide⟩ (by decide) _
    · split_ifs at hd
      · rw [List.mem_singleton.1 hd]
        exact ⟨by decide, by decide⟩
      · cases hd
    · split_ifs at hd
      · rw [List.mem_singleton.1 hd]
        exact ⟨by decide, by decide⟩
      · cases hd
    · exact ⟨by decide, by decide⟩
  · simp only [List.mem_append] at hd
    rcases hd with (hd | hd) | hd
    · exact hmore d hd
    · exact s.declaresOther_stroke d hd
    · split_ifs at hd
      · cases hd
      · rw [List.mem_singleton.1 hd]
        exact declaresOther_pixels ⟨by decide, by decide⟩ (by decide) _

theorem declaresFill_fillText (s : TextStyle α) : declaresFill s.fillText.toList = true := by
  rw [declaresFill, List.isPrefixOf_iff_prefix, fillText, String.toList_append]
  exact List.prefix_append _ _

/-- Whatever the family of the font, the fill that holds is the one of the style. -/
theorem fillDeclaration?_css (s : TextStyle α)
    (h : ∀ id, s.fillReference = some id → ';' ∉ id.toList) :
    fillDeclaration? (s.css o) = some s.fillText.toList := by
  obtain ⟨before, after, hcss, hbefore, hafter⟩ := s.exists_css_eq (o := o)
  rw [hcss]
  exact fillDeclaration?_intercalate hbefore hafter (semicolon_notMem_fillText h)
    s.declaresFill_fillText

/-- A rule fills text with the definition that its style is painted with, and with no other. -/
theorem fillReference_of_paintsWith {s : TextStyle α} {id : String}
    (h : ∀ id, s.fillReference = some id → ';' ∉ id.toList) (hpaints : PaintsWith (s.css o) id) :
    s.fillReference = some id := by
  rw [PaintsWith, s.fillDeclaration?_css h, Option.some.injEq, String.toList_inj,
    fillText] at hpaints
  have hpaint := congrArg String.toList hpaints
  rw [String.toList_append, String.toList_append] at hpaint
  replace hpaint := String.toList_inj.1 (List.append_cancel_left hpaint)
  split at hpaint
  · next id' hid => rw [hid, Node.reference_injective hpaint]
  · next rgb _ _ _ => exact absurd hpaint (rgb.css_ne_reference id)
  · exact absurd hpaint (Node.none_ne_reference id)

end TextStyle

end PageSvg
