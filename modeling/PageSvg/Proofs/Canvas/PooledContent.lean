import PageSvg.Proofs.Canvas.Alone
import PageSvg.Proofs.Number.Rational

/-!
# Content of shared definitions

The cell of a tiling and the group of a soft mask are drawn where they are first used; other uses
refer to the definition that is there then. Every use would draw the same: what the content comes to
depends on nothing but the content, its state and its resources, unless it is nested too deep or
draws a form that is being drawn around. Drawing it by itself tells whether it does.
-/

namespace PageSvg

open Draw

variable {α : Type}

namespace Definitions

variable {d e : Definitions} {id : String} {node : Node}

/-- What is stored stays as it is. -/
theorem Grows.get?_eq (h : d.Grows e) (hid : d.get? id = some node) : e.get? id = some node := by
  obtain ⟨more, hnodes⟩ := h.nodes
  unfold get? Keyed.get? at *
  rw [← hnodes, List.lookup_append, hid]
  rfl

theorem get?_insertNew_self (hnew : d.contains id = false) (node : Node) :
    (d.insertNew id node).get? id = some (node.set "id" id) := by
  have hnone : d.nodes.lookup id = none :=
    Option.isNone_iff_eq_none.1 (Option.isSome_eq_false_iff.1 hnew)
  unfold insertNew
  rw [hnew, if_neg Bool.false_ne_true]
  unfold get? Keyed.get?
  rw [List.lookup_append, hnone, List.lookup_cons_self]
  rfl

end Definitions

variable [Scalar α]

/-! ### Content that is drawn into a definition -/

/-- The cell of a tiling at a place and for a paint, or the group of a mask. -/
inductive Pooled (α : Type)
  | cell (t : Tiling α) (placement : Matrix α) (paint : Paint α)
  | mask (m : SoftMask α)

namespace Pooled

/-- Uses the definition, and adds it unless it is there. -/
def define (env : Environment α) : Pooled α → Draw α (Option String)
  | cell t placement paint => t.define env placement paint
  | mask m => m.define env

/-- The identifier of the definition. -/
def id (o : Options α) : Pooled α → String
  | cell t placement paint =>
    stableId "pat" (t.id ++ "|" ++ placement.text o ++ "|" ++ t.color paint)
  | mask m => m.definitionId

/-- There is a definition, unless the steps of a tiling have no extent. -/
def hasExtent : Pooled α → Bool
  | cell t _ _ => !(t.xStep == 0 || t.yStep == 0)
  | mask _ => true

/-- The resources that the content has of its own. -/
def resources : Pooled α → Option SetId
  | cell t _ _ => t.resources
  | mask m => m.group.resources

/-- Draws the content with some resources, that of a mask cut to the box of its group. -/
def draw (s : Setting α) (n : Nesting α) (resources : SetId) :
    Pooled α → Draw α (Option (List Node))
  | cell t _ paint => orSkip (n (t.cellState paint) resources t.content t.uncolored)
  | mask m => do
    let ctm := m.group.matrix.multiply s.base
    let region ← modifyGet (·.formRegion s.viewport none m.group.bbox ctm)
    orSkip (n { GraphicsState.initial ctm with clip := region } resources m.group.content false)

/-- The definition around the elements of the content. -/
def element (s : Setting α) (nodes : List Node) : Pooled α → Node
  | cell t placement _ => t.patternNode s.options (placement.text s.options) nodes
  | mask m => m.maskNode s.options s.viewport nodes

/-- The same content at one place and in one colour, which only an uncoloured tiling takes. -/
inductive Alike (o : Options α) : Pooled α → Pooled α → Prop
  | cell {t : Tiling α} {placement placement' : Matrix α} {paint paint' : Paint α}
      (placed : placement'.text o = placement.text o)
      (colored : t.uncolored = true → paint'.rgb = paint.rgb) :
      Alike o (cell t placement paint) (cell t placement' paint')
  | mask (m : SoftMask α) : Alike o (mask m) (mask m)

/-! ### Uses -/

section Uses

variable {s : Setting α} {n : Nesting α} {x x' : Pooled α} {r : SetId} {c e : Canvas α}
  {nodes : List Node}

/-- Uses of what is alike are the same. -/
theorem Alike.uses_eq (h : x.Alike s.options x') :
    x'.id s.options = x.id s.options ∧ x'.define ⟨s, n⟩ = x.define ⟨s, n⟩ := by
  cases h with
  | mask m => exact ⟨rfl, rfl⟩
  | @cell t placement placement' paint paint' placed colored =>
    have hcolor : t.color paint' = t.color paint := by
      unfold Tiling.color
      split
      · next h => rw [colored h]
      · rfl
    have hstate : t.cellState paint' = t.cellState paint := by
      unfold Tiling.cellState
      dsimp only
      split
      · next h => rw [colored h]
      · rfl
    constructor
    · unfold Pooled.id
      dsimp only
      rw [placed, hcolor]
    · unfold define Tiling.define
      dsimp only
      rw [placed, hcolor, hstate]

theorem define_of_not_hasExtent (hextent : x.hasExtent = false) (env : Environment α)
    (c : Canvas α) : x.define env c = .ok none c := by
  cases x with
  | mask m => cases hextent
  | cell t placement paint =>
    have hsteps : (t.xStep == 0 || t.yStep == 0) = true := by
      unfold hasExtent at hextent
      rwa [Bool.not_eq_false'] at hextent
    unfold define Tiling.define
    dsimp only
    rw [if_pos hsteps]
    rfl

/-- A definition that is there is used as it is. -/
theorem define_of_contains (hextent : x.hasExtent = true)
    (hthere : c.definitions.contains (x.id s.options) = true) :
    x.define ⟨s, n⟩ c = .ok (some (x.id s.options)) c := by
  unfold id at hthere
  cases x with
  | mask m =>
    unfold define SoftMask.define
    dsimp only
    rw [getBind_apply, if_pos hthere]
    rfl
  | cell t placement paint =>
    have hsteps : ¬(t.xStep == 0 || t.yStep == 0) = true := by simpa [hasExtent] using hextent
    unfold define Tiling.define
    dsimp only
    rw [if_neg hsteps, getBind_apply, if_pos hthere]
    rfl

/-- Where there is no definition, the content is drawn into one. -/
theorem define_of_new (hextent : x.hasExtent = true) (hown : x.resources = some r)
    (hnew : c.definitions.contains (x.id s.options) = false)
    (hdraw : x.draw s n r c = .ok (some nodes) e) :
    x.define ⟨s, n⟩ c = .ok (some (x.id s.options)) { e with
      definitions := e.definitions.insertNew (x.id s.options) (x.element s nodes) } := by
  have hnot := Bool.eq_false_iff.1 hnew
  unfold id at hnot
  cases x with
  | mask m =>
    have hr : m.group.resources = some r := hown
    unfold draw at hdraw
    dsimp only at hdraw
    rw [modifyGetBind_apply] at hdraw
    unfold define SoftMask.define
    dsimp only
    rw [getBind_apply, if_neg hnot, modifyGetBind_apply, getBind_apply, hr, Option.getD_some,
      bind_apply, hdraw]
    rfl
  | cell t placement paint =>
    have hr : t.resources = some r := hown
    have hsteps : ¬(t.xStep == 0 || t.yStep == 0) = true := by simpa [hasExtent] using hextent
    unfold draw at hdraw
    unfold define Tiling.define
    dsimp only at hdraw ⊢
    rw [if_neg hsteps, getBind_apply, if_neg hnot, hr, Option.getD_some, bind_apply,
      orNothing_apply, hdraw]
    rfl

end Uses

/-! ### Drawn by itself -/

/-- The canvas after the content was drawn by itself with some resources, where so many levels of
nesting are left. The definition of the content itself is the note. -/
def alone (x : Pooled α) (s : Setting α) (level : Nat) (forms : List String) (r : SetId) : Canvas α :=
  (x.draw s (s.alone (x.id s.options) forms level) r).last (.blank s r)

/-- Where so many levels are left, nothing in the content is nested too deep, and it
draws none of the `forms`. -/
def Clear (x : Pooled α) (s : Setting α) (level : Nat) (forms : List String) (r : SetId) : Prop :=
  (x.alone s level forms r).definitions.contains (x.id s.options) = false

instance (x : Pooled α) (s : Setting α) (level : Nat) (forms : List String) (r : SetId) :
    Decidable (x.Clear s level forms r) := inferInstanceAs (Decidable (_ = _))

section Drawing

variable {s : Setting α} {n n' : Nesting α} {name : String} {forms : List String} {x : Pooled α}
  {r : SetId} {c d : Canvas α}

theorem follows_draw (hn : NestsFollow s name forms n n') (h : c.Hosts s name forms d) :
    Follows name (Canvas.Hosts s name forms) (x.draw s n r) (x.draw s n' r) c d := by
  cases x with
  | cell t placement paint =>
    exact hn.follows _ _ r t.content t.uncolored h (t.cutAlike_cellState paint)
  | mask m =>
    refine .modifyGetBind (.of_unspoilt (.orSkip (framed_nested hn.isolates ..))
      (.orSkip (framed_nested hn.isolates' ..)) fun hgood => ?_)
    obtain ⟨hosts, hregion⟩ := h.formRegion .whole s.viewport m.group.bbox
      (m.group.matrix.multiply s.base) hgood
    exact hn.follows _ _ r m.group.content false hosts ⟨rfl, hregion⟩

/-- There are elements whenever content is drawn by itself. -/
theorem isSome_of_alone {level : Nat} {nodes? : Option (List Node)}
    (h : x.draw s (s.alone name forms level) r c = .ok nodes? d) : nodes?.isSome = true := by
  have hskip (graphics : GraphicsState α) (content : ContentStream α) (locked : Bool)
      {c : Canvas α} (h : orSkip (s.alone name forms level graphics r content locked) c =
        .ok nodes? d) : nodes?.isSome = true := by
    rw [orSkip_apply] at h
    cases level <;> cases h <;> rfl
  cases x with
  | cell t placement paint => exact hskip _ _ _ h
  | mask m => exact hskip _ _ _ h

end Drawing

section Sharing

variable {s : Setting α} {x x' : Pooled α} {r : SetId} {forms : List String} {level level' : Nat}
  {c c' : Canvas α}

theorem orderly_blank (s : Setting α) (r : SetId) : (Canvas.blank s r).Orderly s := by
  refine ⟨rfl, ClipForest.distinct_empty _, fun _ hrule => absurd hrule List.not_mem_nil, ?_, rfl⟩
  rintro k hk
  cases hk

/-- The page that nothing was drawn on has nothing that an orderly one lacks. -/
theorem hosts_blank {name : String} (hc : c.Orderly s) (hnew : c.definitions.contains name = false)
    (hforms : ∀ id ∈ c.activeForms, id ∈ forms) : (Canvas.blank s r).Hosts s name forms c where
  orderly := orderly_blank s r
  orderly' := hc
  known := by
    rintro id hid
    cases hid
  named hname := absurd hname (Bool.eq_false_iff.1 hnew)
  active := ⟨c.activeForms, hforms, rfl⟩

/-- Wherever the content is drawn for the first time, it comes to what it comes to by itself. -/
theorem draw_eq_alone (hlibrary : s.library.Coherent (· = ·)) (hlevel : level ≤ level')
    (hc : c.Orderly s) (hnew : c.definitions.contains (x.id s.options) = false)
    (hforms : ∀ id ∈ c.activeForms, id ∈ forms) (hclear : x.Clear s level forms r)
    (hnames : (x.alone s level forms r).clips.Consistent
      ((x.draw s (s.nested level') r).last c).clips) :
    ∃ nodes b e, x.draw s (s.alone (x.id s.options) forms level) r (.blank s r) = .ok (some nodes) b ∧
      x.draw s (s.nested level') r c = .ok (some nodes) e ∧
      e.definitions.contains (x.id s.options) = false := by
  have hfollows := follows_draw (x := x) (r := r)
    (nestsFollow_alone hlibrary (x.id s.options) forms hlevel)
    (hosts_blank (r := r) hc hnew hforms)
  obtain ⟨nodes?, b, e, halone, hdraw, hosts⟩ := hfollows.run ⟨hclear, hnames⟩
  obtain ⟨nodes, rfl⟩ := Option.isSome_iff_exists.1 (isSome_of_alone halone)
  refine ⟨nodes, b, e, halone, hdraw, Bool.eq_false_iff.2 fun hname => ?_⟩
  refine Bool.eq_false_iff.1 hclear ?_
  unfold alone
  rw [last_of_ok halone]
  exact hosts.named hname

/-- **A definition does not depend on which of its uses comes first.** Two uses on orderly
canvases, on any levels and with any forms around, find no definition. With the levels that are
left at the deeper one, the content is clear of the limit and of all these forms. Then both uses
come to the same, and from either of them on the definition stays as it is: uses of it leave
every later page alone. -/
theorem pooled_content_of_any_use (level level' : Nat) (hlibrary : s.library.Coherent (· = ·))
    (halike : x.Alike s.options x') (hown : x.resources = some r) (hc : c.Orderly s)
    (hc' : c'.Orderly s) (hnew : c.definitions.contains (x.id s.options) = false)
    (hnew' : c'.definitions.contains (x.id s.options) = false)
    (hclear : x.Clear s (min level level') (c.activeForms ++ c'.activeForms) r)
    (hnames : (x.alone s (min level level') (c.activeForms ++ c'.activeForms) r).clips.Consistent
      ((x.draw s (s.nested level) r).last c).clips)
    (hnames' : (x.alone s (min level level') (c.activeForms ++ c'.activeForms) r).clips.Consistent
      ((x.draw s (s.nested level') r).last c').clips) :
    ∃ id? d d', x.define ⟨s, s.nested level⟩ c = .ok id? d ∧
      x'.define ⟨s, s.nested level'⟩ c' = .ok id? d' ∧ (id? = none ↔ x.hasExtent = false) ∧
      ∀ id, id? = some id → id = x.id s.options ∧ ∃ node, ∀ e : Canvas α,
        d.definitions.Grows e.definitions ∨ d'.definitions.Grows e.definitions →
        e.definitions.get? id = some node ∧
          ∀ n, x.define ⟨s, n⟩ e = .ok (some id) e ∧ x'.define ⟨s, n⟩ e = .ok (some id) e := by
  obtain ⟨nodes, b, e, halone, hdraw, he⟩ := draw_eq_alone hlibrary (Nat.min_le_left level level') hc
    hnew (fun id => List.mem_append_left _) hclear hnames
  obtain ⟨nodes', b', e', halone', hdraw', he'⟩ := draw_eq_alone hlibrary
    (Nat.min_le_right level level') hc' hnew' (fun id => List.mem_append_right _) hclear hnames'
  obtain ⟨rfl, rfl⟩ : nodes' = nodes ∧ b' = b := by
    cases halone.symm.trans halone'
    exact ⟨rfl, rfl⟩
  have huse (n : Nesting α) : x'.define ⟨s, n⟩ = x.define ⟨s, n⟩ := halike.uses_eq.2
  simp only [huse]
  cases hextent : x.hasExtent with
  | false =>
    refine ⟨none, c, c', define_of_not_hasExtent hextent _ c, define_of_not_hasExtent hextent _ c',
      by simp, ?_⟩
    rintro id hid
    cases hid
  | true =>
    refine ⟨some (x.id s.options), _, _, define_of_new hextent hown hnew hdraw,
      define_of_new hextent hown hnew' hdraw', by simp, ?_⟩
    rintro id hid
    cases hid
    refine ⟨rfl, (x.element s nodes').set "id" (x.id s.options), fun later hlater => ?_⟩
    have hstored : later.definitions.get? (x.id s.options) =
        some ((x.element s nodes').set "id" (x.id s.options)) := by
      rcases hlater with hlater | hlater
      · exact hlater.get?_eq (Definitions.get?_insertNew_self he _)
      · exact hlater.get?_eq (Definitions.get?_insertNew_self he' _)
    have hthere : later.definitions.contains (x.id s.options) = true :=
      congrArg Option.isSome hstored
    exact ⟨hstored, fun n => ⟨define_of_contains hextent hthere, define_of_contains hextent hthere⟩⟩

end Sharing

/-! ### Limits and forms around -/

section Example

attribute [local instance] Scalar.rational

/-- Fills a square with the paint in force. -/
def square : ContentStream ℚ :=
  [⟨"re", [.integer 0, .integer 0, .integer 5, .integer 5]⟩, ⟨"f", []⟩]

/-- A tiling whose cell draws the form `X`. -/
def formTiling : Tiling ℚ :=
  ⟨"p", [⟨"Do", [.name "X"]⟩], .identity, ⟨0, 0, 10, 10⟩, 10, 10, false, some 1⟩

/-- A form that fills a square, maybe with a pattern of the name `P`. -/
def squareForm (id : String) (resources : SetId) : Form ℚ :=
  ⟨id, square, .identity, none, some resources, none⟩

/-- The page and the form `f` know the tiling, whose cell draws the form `inner`. -/
def tilingLibrary (inner : Form ℚ) : Library ℚ :=
  #[{ patterns := [("P", .tiling formTiling)], xobjects := [("F", .form (squareForm "f" 2))] },
    { xobjects := [("X", .form inner)] }, { patterns := [("P", .tiling formTiling)] }, {}]

def tilingPage (last : ContentStream ℚ) : Page ℚ where
  cropBox := ⟨0, 0, 10, 10⟩
  rotation := 0
  content := [⟨"cs", [.name "Pattern"]⟩, ⟨"scn", [.name "P"]⟩,
    ⟨"re", [.integer 0, .integer 0, .integer 5, .integer 5]⟩] ++ last
  resources := 0
  overlays := []

/-- How many elements the cell has, if there is a definition of it after the page. -/
def cellSize? (v : Converter ℚ) (p : Page ℚ) : Option Nat :=
  let s := p.setting v.options v.library
  let x : Pooled ℚ := .cell formTiling (formTiling.matrix.multiply s.base) Paint.standard
  (((p.draw s).last (v.canvas p)).definitions.get? (x.id s.options)).map (·.children.length)

/-- Nothing in the library has a number, so there is nothing to confuse. -/
theorem coherent_tilingLibrary (inner : Form ℚ) : (tilingLibrary inner).Coherent (· = ·) := by
  have hkeys {set : ResourceSet ℚ} (hset : set ∈ tilingLibrary inner) : set.keys = [] := by
    have hall : ∀ set ∈ (tilingLibrary inner).toList, set.keys = [] := by simp [tilingLibrary]
    exact hall set (Array.mem_toList_iff.2 hset)
  have hkey {set : ResourceSet ℚ} (hset : set ∈ tilingLibrary inner) (kind : SharedKind)
      (name : String) : set.key? kind name = none := by
    unfold ResourceSet.key?
    rw [hkeys hset]
    rfl
  constructor
  · intro set hset set' _ name name' key hnumber
    rw [hkey hset] at hnumber
    cases hnumber
  · intro set hset set' _ name name' key _ _ hnumber
    rw [hkey hset] at hnumber
    cases hnumber

/-- The tiling is used on the page, and on another level inside a form. -/
theorem pooled_content_of_any_use_inside_form :
    ∃ (s : Setting ℚ) (x : Pooled ℚ) (c c' d d' : Canvas ℚ) (id : String) (node : Node),
      s.library.Coherent (· = ·) ∧ x.resources = some 1 ∧ x.Clear s 2 ["f"] 1 ∧ c.Orderly s ∧
      c'.Orderly s ∧ c.activeForms = [] ∧ c'.activeForms = ["f"] ∧
      x.define ⟨s, s.nested 3⟩ c = .ok (some id) d ∧ x.define ⟨s, s.nested 2⟩ c' = .ok (some id) d' ∧
      d.definitions.get? id = some node ∧ d'.definitions.get? id = some node := by
  let s : Setting ℚ := (tilingPage []).setting .standard (tilingLibrary (squareForm "g" 3))
  let x : Pooled ℚ := .cell formTiling s.base .standard
  let c : Canvas ℚ := .blank s 0
  let c' : Canvas ℚ := { Canvas.blank s 2 with depth := 1, activeForms := ["f"] }
  have hlibrary : s.library.Coherent (· = ·) := coherent_tilingLibrary _
  have hc : c.Orderly s := orderly_blank s 0
  have hc' : c'.Orderly s := ⟨hc.precision, hc.distinct, hc.named, hc.found, hc.running⟩
  have hclear : x.Clear s 2 ["f"] 1 := by decide +kernel
  have hsize : (x.alone s 2 ["f"] 1).clips.regions.size = 0 := by decide +kernel
  have hnames (g : ClipForest ℚ) : (x.alone s 2 ["f"] 1).clips.Consistent g := by
    intro i j p q hp
    obtain ⟨hi, _⟩ := Array.getElem?_eq_some_iff.1 hp
    exact absurd hi (hsize ▸ Nat.not_lt_zero i)
  obtain ⟨id?, d, d', hdefine, hdefine', hnone, hall⟩ := pooled_content_of_any_use 3 2
    hlibrary (.cell rfl fun _ => rfl) rfl hc hc' rfl rfl hclear (hnames _) (hnames _)
  cases id? with
  | none => exact absurd (hnone.1 rfl) (by decide +kernel)
  | some id =>
    obtain ⟨_, node, hstored⟩ := hall id rfl
    exact ⟨s, x, c, c', d, d', id, node, hlibrary, rfl, hclear, hc, hc', rfl, rfl, hdefine, hdefine',
      (hstored d (.inl (.refl _))).1, (hstored d' (.inr (.refl _))).1⟩

/-- Which use comes first can matter where the cell is nested too deep in one of them, and where one
of them lies in the form that the cell draws: the square is missing from the cell then. -/
theorem pooled_content_of_first_use :
    ∃ (v w : Converter ℚ) (use form : Operation ℚ),
      v.options.maxNestingDepth = 2 ∧ w.options = .standard ∧
      cellSize? v (tilingPage [use, form]) = some 1 ∧
      cellSize? v (tilingPage [form, use]) = some 0 ∧
      cellSize? w (tilingPage [use, form]) = some 1 ∧
      cellSize? w (tilingPage [form, use]) = some 0 := by
  let v : Converter ℚ :=
    { options := { Options.standard with maxNestingDepth := 2 }
      library := tilingLibrary (squareForm "g" 3) }
  let w : Converter ℚ := { options := .standard, library := tilingLibrary (squareForm "f" 2) }
  let use : Operation ℚ := ⟨"f", []⟩
  let form : Operation ℚ := ⟨"Do", [.name "F"]⟩
  refine ⟨v, w, use, form, rfl, rfl, ?_, ?_, ?_, ?_⟩ <;> decide +kernel

end Example

end Pooled

end PageSvg
