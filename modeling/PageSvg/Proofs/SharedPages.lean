import PageSvg.Proofs.Canvas.SharedCache
import PageSvg.Proofs.Canvas.SpaceIdentity

/-!
# Pages converted together

Pages that share resources come out as those that share none, in every order, and whatever other
pages add to what is shared while they are drawn. Colour spaces are compared by identity and
fonts by theirs: where spaces of one number have different identities, this holds as long as
fonts of one identity look the same.
-/

namespace PageSvg

open Draw

variable {α : Type} [Scalar α]

namespace Converter

/-- The converter with other shared resources, and with another watch for the request to stop. -/
def reshared (v : Converter α) (k : ResourceCache α) (watch : Cancellation) : Converter α :=
  { v with cache := k, cancellation := watch }

/-- The converter with nothing shared. -/
def apart (v : Converter α) : Converter α := v.reshared {} v.cancellation

/-- Converts pages in order, each with nothing shared. The request to stop is for all of them. -/
def convertEachApart (v : Converter α) : List (Page α) → List (Except (Fault α) (Document α))
  | [] => []
  | p :: rest =>
    let (document, v) := v.apart.convert p
    document :: v.convertEachApart rest

/-- A page comes out as in `r`, and leaves resources that were found in the library and have grown
from what was `shared`. -/
structure Leaves (v : Converter α) (shared : ResourceCache α)
    (r r' : Except (Fault α) (Document α) × Converter α) : Prop where
  document : r'.1 = r.1
  watch : r.2.cancellation.Alike v.cancellation.onset r'.2.cancellation
  rest : r.2 = v.reshared r.2.cache r.2.cancellation
  rest' : r'.2 = v.reshared r'.2.cache r'.2.cancellation
  found : r'.2.cache.FoundIn v.library
  grows : shared.Grows r'.2.cache

variable {v : Converter α} {k k' : ResourceCache α} {watch watch' : Cancellation}

/-! ### One page -/

theorem leaves_convert {w : List (Context α) → Draw α Unit}
    (hlibrary : v.library.Coherent (· = ·)) (hw : ∀ outer, (w outer).OnlyShares v.library)
    (hk : k.FoundIn v.library) (hk' : k'.FoundIn v.library)
    (hwatch : watch.Alike v.cancellation.onset watch') (p : Page α) :
    v.Leaves k' ((v.reshared k watch).convert p)
      ((Manner.watching w).convert (v.reshared k' watch') p) := by
  have hstart : Canvas.Reshares v.library k' v.cancellation.onset ((v.reshared k watch).canvas p)
      ((v.reshared k' watch').canvas p) :=
    ⟨⟨k, rfl, hk⟩, ⟨k', rfl, hk', .refl k'⟩, hwatch, rfl⟩
  have hmatch := (simulation_reshares (s := p.setting v.options v.library) hlibrary hw).drawPage p
    hstart
  rw [← Manner.plain_drawPage] at hmatch
  have hleaves {document document' : Except (Fault α) (Document α)} {c c' : Canvas α}
      (hdocument : document' = document) (h : c.Reshares v.library k' v.cancellation.onset c') :
      v.Leaves k' (document, v.reshared (c.cache.getD k) c.cancellation)
        (document', v.reshared (c'.cache.getD k') c'.cancellation) := by
    obtain ⟨l, hl, hfound, hgrows⟩ := h.found'
    refine ⟨hdocument, h.watch, rfl, rfl, ?_, ?_⟩
    · show (c'.cache.getD k').FoundIn v.library
      rwa [hl]
    · show k'.Grows (c'.cache.getD k')
      rwa [hl]
  unfold Matches at hmatch
  rw [← Manner.plain_convert]
  split at hmatch
  · next hplain hwatched =>
    obtain ⟨_, h, _⟩ := hmatch
    rw [Manner.plain.convert_ok (v := v.reshared k watch) hplain,
      (Manner.watching w).convert_ok (v := v.reshared k' watch') hwatched]
    exact hleaves (congrArg Except.ok (h.finish_eq hlibrary)) h
  · next hplain hwatched =>
    obtain ⟨⟨rfl, rfl⟩, h, _⟩ := hmatch
    rw [Manner.plain.convert_error (v := v.reshared k watch) hplain,
      (Manner.watching w).convert_error (v := v.reshared k' watch') hwatched]
    exact hleaves rfl h
  · exact hmatch.elim

/-- No other page is converted at the same time. -/
theorem leaves_convert_alone (hlibrary : v.library.Coherent (· = ·)) (hk : k.FoundIn v.library)
    (hk' : k'.FoundIn v.library) (hwatch : watch.Alike v.cancellation.onset watch') (p : Page α) :
    v.Leaves k' ((v.reshared k watch).convert p) ((v.reshared k' watch').convert p) := by
  have h := leaves_convert hlibrary (fun _ => onlyShares_pure v.library) hk hk' hwatch p
  rwa [show Manner.watching (fun _ => pure ()) = (Manner.plain : Manner α) from rfl,
    Manner.plain_convert] at h

/-! ### Spaces of other identities -/

section Identities

variable [Scalar.ZerosAlike α] (hlibrary : v.library.Coherent ColorSpace.Alike)
  (hfonts : Font.Coherent v.library {})

omit [Scalar.ZerosAlike α] in
theorem remembers_reshared (hk : k.FoundIn v.library) (hwatch : watch.onset = none) (p : Page α) :
    ((v.reshared k watch).canvas p).Remembers (p.setting v.options v.library) {}
      v.options.maxNestingDepth where
  running := by
    unfold Canvas.IsStopped
    rw [show ((v.reshared k watch).canvas p).cancellation.onset = none from hwatch]
    exact Bool.false_ne_true
  nesting := Nat.zero_add _
  font _ e := by cases e
  saved _ hg := absurd hg List.not_mem_nil
  cache _ e entry hentry := by
    cases e
    obtain ⟨set, hset, name, _, hf⟩ := hk.fonts entry hentry
    exact .resource hset (Keyed.mem_of_get? hf)
  style _ e := by cases e

include hlibrary hfonts

/-- With spaces of other identities and with styles made anew the page comes out the same. -/
theorem leaves_convert_rebuilt (hk : k.FoundIn v.library) (hk' : k'.FoundIn v.library)
    (hrunning : v.cancellation.onset = none) (hwatch : watch.onset = none)
    (hwatch' : watch'.onset = none) (p : Page α) :
    v.Leaves k (Manner.rebuilding.convert (v.reshared k' watch') p)
      ((v.reshared k watch).convert p) := by
  have hstart : Canvas.FollowsApart (p.setting v.options v.library) k v.options.maxNestingDepth
      ((v.reshared k watch).canvas p) ((v.reshared k' watch').canvas p) := by
    refine ⟨(v.reshared k watch').canvas p, ⟨⟨rfl, ?_⟩, remembers_reshared hk hwatch p⟩, .refl _,
      .nil, ⟨k, rfl, hk, .refl k⟩, ⟨k', rfl, hk'⟩, rfl⟩
    have hsame : watch' = { watch with looks := watch'.looks } := by
      rw [hwatch, ← hwatch']
    show ({ Canvas.blank _ _ with cache := _, cancellation := watch' } : Canvas α) = _
    rw [hsame]
    rfl
  have hsimulation : Simulation (p.setting v.options v.library) Manner.rebuilding
    (fun level _ => Canvas.FollowsApart (p.setting v.options v.library) k level) _ :=
      simulation_followsApart hlibrary hfonts
  have hmatch := hsimulation.drawPage p hstart
  rw [← Manner.plain_drawPage] at hmatch
  have hleaves {document document' : Except (Fault α) (Document α)} {c c' : Canvas α}
      (hdocument : document = document')
      (h : c.FollowsApart (p.setting v.options v.library) k v.options.maxNestingDepth c') :
      v.Leaves k (document', v.reshared (c'.cache.getD k') c'.cancellation)
        (document, v.reshared (c.cache.getD k) c.cancellation) := by
    obtain ⟨l, hl, hfound, hgrows⟩ := h.found
    refine ⟨hdocument, ⟨h.onset'.trans hrunning.symm, h.remembers.onset.trans hrunning.symm,
      .inr hrunning⟩, rfl, rfl, ?_, ?_⟩
    · show (c.cache.getD k).FoundIn v.library
      rwa [hl]
    · show k.Grows (c.cache.getD k)
      rwa [hl]
  unfold Matches at hmatch
  rw [← Manner.plain_convert (v.reshared k watch)]
  split at hmatch
  · next hplain hrebuilt =>
    obtain ⟨_, h, _⟩ := hmatch
    rw [Manner.plain.convert_ok (v := v.reshared k watch) hplain,
      Manner.rebuilding.convert_ok (v := v.reshared k' watch') hrebuilt]
    exact hleaves (congrArg Except.ok (h.finish_eq hlibrary hfonts).symm) h
  · next hplain hrebuilt =>
    obtain ⟨⟨rfl, rfl⟩, h, _⟩ := hmatch
    rw [Manner.plain.convert_error (v := v.reshared k watch) hplain,
      Manner.rebuilding.convert_error (v := v.reshared k' watch') hrebuilt]
    exact hleaves rfl h
  · exact hmatch.elim

/-- Which resources are shared makes no difference to the page. -/
theorem leaves_convert_respaced (hk : k.FoundIn v.library) (hk' : k'.FoundIn v.library)
    (hrunning : v.cancellation.onset = none) (hwatch : watch.onset = none)
    (hwatch' : watch'.onset = none) (p : Page α) :
    v.Leaves k' ((v.reshared k watch).convert p) ((v.reshared k' watch').convert p) := by
  -- Both come out as the page with styles made anew.
  have h := leaves_convert_rebuilt hlibrary hfonts hk hk hrunning hwatch hwatch p
  have h' := leaves_convert_rebuilt hlibrary hfonts hk' hk hrunning hwatch' hwatch p
  exact ⟨h'.document.trans h.document.symm,
    ⟨h.watch.right, h'.watch.right, .inr hrunning⟩, h.rest', h'.rest', h'.found, h'.grows⟩

end Identities

/-! ### All pages -/

section Pages

omit [Scalar α] in
/-- A converter that a page leaves is the other one with other resources and another watch. -/
theorem Leaves.reshared_eq {shared : ResourceCache α}
    {r r' : Except (Fault α) (Document α) × Converter α} (h : v.Leaves shared r r') :
    r'.2 = r.2.reshared r'.2.cache r'.2.cancellation := by
  rw [h.rest]
  exact h.rest'

omit [Scalar α] in
theorem Leaves.library_eq {shared : ResourceCache α}
    {r r' : Except (Fault α) (Document α) × Converter α} (h : v.Leaves shared r r') :
    r.2.library = v.library := by
  rw [h.rest]
  rfl

/-- Pages that share resources come out as those that share none. -/
theorem convertEach_eq_apart (hlibrary : v.library.Coherent (· = ·)) (hk : k.FoundIn v.library)
    (hwatch : v.cancellation.Alike v.cancellation.onset watch) (pages : List (Page α)) :
    (v.reshared k watch).convertEach pages = v.convertEachApart pages := by
  induction pages generalizing v k watch with
  | nil => rfl
  | cons p rest ih =>
    have h := leaves_convert_alone hlibrary (ResourceCache.foundIn_empty v.library) hk hwatch p
    have hrest := @ih (v.apart.convert p).2 _ ((v.reshared k watch).convert p).2.cancellation
      (h.library_eq ▸ hlibrary) (h.library_eq ▸ h.found) (h.watch.left ▸ h.watch)
    show ((v.reshared k watch).convert p).1 :: ((v.reshared k watch).convert p).2.convertEach rest =
      (v.apart.convert p).1 :: (v.apart.convert p).2.convertEachApart rest
    rw [← hrest, h.document, h.reshared_eq]
    rfl

/-- Each page comes out as if it were the only one, if it does so whatever was found before it. -/
theorem convertEach_eq_map (hrunning : v.cancellation.onset = none)
    (hleaves : ∀ (k : ResourceCache α) (watch : Cancellation) (p : Page α), k.FoundIn v.library →
      watch.onset = none → v.Leaves k (v.apart.convert p) ((v.reshared k watch).convert p))
    (hk : k.FoundIn v.library) (hwatch : watch.onset = none) (pages : List (Page α)) :
    (v.reshared k watch).convertEach pages = pages.map fun p => (v.apart.convert p).1 := by
  induction pages generalizing k watch with
  | nil => rfl
  | cons p rest ih =>
    have h := hleaves k watch p hk hwatch
    show ((v.reshared k watch).convert p).1 :: ((v.reshared k watch).convert p).2.convertEach rest =
      (v.apart.convert p).1 :: rest.map fun p => (v.apart.convert p).1
    rw [← ih h.found (h.watch.right.trans hrunning), h.document, ← h.rest']

end Pages

end Converter

/-- **What pages share is invisible.** Where names with one number always stand for the same thing,
each page of a converter comes out as if nothing were shared, whatever was found on earlier pages,
and whatever other pages add while it is drawn. If the spaces of one number are only the same but
for their identities, this still holds if fonts of one identity look the same, while there is no
request to stop. An entry never changes, fonts and colour spaces have numbers of their own, and a
search that found nothing leaves nothing behind. -/
theorem shared_resources_invisible (v : Converter α) (hfound : v.cache.FoundIn v.library) :
    (v.library.Coherent (· = ·) →
      (∀ (w : List (Context α) → Draw α Unit) (p : Page α),
        (∀ outer, (w outer).OnlyShares v.library) →
        ((Manner.watching w).convert v p).1 = (v.apart.convert p).1 ∧
          v.cache.Grows ((Manner.watching w).convert v p).2.cache ∧
          ((Manner.watching w).convert v p).2.cache.FoundIn v.library) ∧
      (∀ pages : List (Page α), v.convertEach pages = v.convertEachApart pages) ∧
      (v.cancellation.onset = none → ∀ pages : List (Page α),
        v.convertEach pages = pages.map fun p => (v.apart.convert p).1)) ∧
    (∀ [Scalar.ZerosAlike α], v.library.Coherent ColorSpace.Alike → Font.Coherent v.library {} →
      v.cancellation.onset = none →
      (∀ p : Page α, v.cache.Grows (v.convert p).2.cache ∧
        (v.convert p).2.cache.FoundIn v.library) ∧
      ∀ pages : List (Page α), v.convertEach pages = pages.map fun p => (v.apart.convert p).1) ∧
    ∀ (k : ResourceCache α) (key : Nat),
      (∀ found, k.Grows (k.font key found).2 ∧ (k.font key found).2.colorSpaces = k.colorSpaces) ∧
      (∀ found, k.Grows (k.colorSpace key found).2 ∧ (k.colorSpace key found).2.fonts = k.fonts) ∧
      (k.font key none).2 = k ∧ (k.colorSpace key none).2 = k := by
  have hempty := ResourceCache.foundIn_empty v.library
  refine ⟨fun hlibrary => ⟨fun w p hw => ?_, fun pages => ?_, fun hrunning pages => ?_⟩,
    fun hlibrary hfonts hrunning => ?_, fun k key => ?_⟩
  · have h : v.Leaves v.cache (v.apart.convert p) ((Manner.watching w).convert v p) :=
      Converter.leaves_convert hlibrary hw hempty hfound ⟨rfl, rfl, .inl rfl⟩ p
    exact ⟨h.document, h.grows, h.found⟩
  · exact Converter.convertEach_eq_apart hlibrary hfound ⟨rfl, rfl, .inl rfl⟩ pages
  · exact Converter.convertEach_eq_map hrunning (fun k watch p hk hwatch =>
      Converter.leaves_convert_alone hlibrary hempty hk
        ⟨rfl, hwatch.trans hrunning.symm, .inr hrunning⟩ p) hfound hrunning pages
  · have hleaves (k : ResourceCache α) (watch : Cancellation) (p : Page α)
        (hk : k.FoundIn v.library) (hwatch : watch.onset = none) :=
      Converter.leaves_convert_respaced hlibrary hfonts hempty hk hrunning hrunning hwatch p
    refine ⟨fun p => ?_, Converter.convertEach_eq_map hrunning hleaves hfound hrunning⟩
    exact ⟨(hleaves v.cache v.cancellation p hfound hrunning).grows,
      (hleaves v.cache v.cancellation p hfound hrunning).found⟩
  · exact ⟨fun found => ⟨k.grows_font key found, rfl⟩,
      fun found => ⟨k.grows_colorSpace key found, rfl⟩, k.font_none key, k.colorSpace_none key⟩

/-! ### Two pages -/

section Example

attribute [local instance] Scalar.rational Scalar.zerosAlike_rational

/-- A colour space of some identity. -/
def shade (identity : Nat) : ColorSpace ℚ :=
  .custom ⟨identity, "Shade", 1, [0], fun values => .gray (values.headD 0)⟩

/-- A set with a colour space under the number 7, and maybe under more names without a number. -/
def shadeSet (names : List String) (fonts : Keyed (Font ℚ)) (identity : Nat) : ResourceSet ℚ where
  fonts := fonts
  colorSpaces := ("S", shade identity) :: names.map (·, shade identity)
  keys := [((.colorSpace, "S"), 7)]

section Shades

variable {names : List String} {fonts : Keyed (Font ℚ)} {identity : Nat}

/-- Two sets with the space of one number, the second time maybe with another identity. -/
def shadeLibrary (names : List String) (fonts : Keyed (Font ℚ)) (identity : Nat) : Library ℚ :=
  #[shadeSet names fonts 1, shadeSet names fonts identity]

theorem mem_shadeLibrary {set : ResourceSet ℚ} (h : set ∈ shadeLibrary names fonts identity) :
    ∃ i, (i = 1 ∨ i = identity) ∧ set = shadeSet names fonts i := by
  rcases List.mem_cons.1 (Array.mem_toList_iff.2 h) with rfl | h
  · exact ⟨1, .inl rfl, rfl⟩
  · exact ⟨identity, .inr rfl, List.mem_singleton.1 h⟩

theorem shadeSet_key? {key : Nat} {kind : SharedKind} {name : String}
    (h : (shadeSet names fonts identity).key? kind name = some key) :
    kind = .colorSpace ∧ name = "S" := by
  cases List.mem_singleton.1 (ResourceCache.mem_of_lookup h)
  exact ⟨rfl, rfl⟩

theorem coherent_shadeLibrary {same : ColorSpace ℚ → ColorSpace ℚ → Prop}
    (hsame : ∀ i j, (i = 1 ∨ i = identity) → (j = 1 ∨ j = identity) → same (shade i) (shade j)) :
    (shadeLibrary names fonts identity).Coherent same where
  fonts set hset set' _ {name _ _} hkey _ := by
    obtain ⟨i, _, rfl⟩ := mem_shadeLibrary hset
    cases (shadeSet_key? hkey).1
  colorSpaces set hset set' hset' {name name' key} _ _ hkey hkey' := by
    obtain ⟨i, hi, rfl⟩ := mem_shadeLibrary hset
    obtain ⟨j, hj, rfl⟩ := mem_shadeLibrary hset'
    rw [(shadeSet_key? hkey).2, (shadeSet_key? hkey').2]
    exact .some (hsame i j hi hj)

end Shades

/-- A page that fills a rectangle in a shade. -/
def shadePage (resources : SetId) : Page ℚ where
  cropBox := ⟨0, 0, 10, 10⟩
  rotation := 0
  content := [⟨"cs", [.name "S"]⟩, ⟨"sc", [.integer 1]⟩,
    ⟨"re", [.integer 0, .integer 0, .integer 5, .integer 5]⟩, ⟨"f", []⟩]
  resources := resources
  overlays := []

/-- The second page takes the space of the first one, of another identity or of the same. -/
theorem shared_resources_invisible_shade :
    ∃ (v w : Converter ℚ) (pages : List (Page ℚ)),
      v.cache.FoundIn v.library ∧ v.library.Coherent (· = ·) ∧
      v.convertEach pages = v.convertEachApart pages ∧
      w.cache.FoundIn w.library ∧ w.library.Coherent ColorSpace.Alike ∧
      Font.Coherent w.library {} ∧ w.cancellation.onset = none ∧
      (w.convert (shadePage 0)).2.cache.colorSpaces.map (·.1) = [7] ∧ pages.length = 2 ∧
      w.convertEach pages = pages.map fun p => (w.apart.convert p).1 := by
  let v : Converter ℚ := { options := .standard, library := shadeLibrary [] [] 1 }
  let w : Converter ℚ := { options := .standard, library := shadeLibrary [] [] 2 }
  let pages := [shadePage 0, shadePage 1]
  have hv : v.library.Coherent (· = ·) := coherent_shadeLibrary fun i j hi hj => by
    rw [(or_self_iff.1 hi).trans (or_self_iff.1 hj).symm]
  have hw : w.library.Coherent ColorSpace.Alike := coherent_shadeLibrary fun _ j _ _ => .custom _ j
  have hfonts : Font.Coherent w.library {} := by
    have hall (f : Font ℚ) (hf : f.Supplied w.library {}) : f = .standIn := by
      cases hf with
      | standIn => rfl
      | resource hset hentry =>
        obtain ⟨i, _, rfl⟩ := mem_shadeLibrary hset
        exact absurd hentry List.not_mem_nil
      | parameter hset hentry =>
        obtain ⟨i, _, rfl⟩ := mem_shadeLibrary hset
        exact absurd hentry List.not_mem_nil
      | found hentry => exact absurd hentry List.not_mem_nil
    intro f g hf hg _
    rw [hall f hf, hall g hg]
    exact ⟨rfl, rfl, rfl⟩
  have hshared : (w.convert (shadePage 0)).2.cache.colorSpaces.map (·.1) = [7] := by decide +kernel
  have hfound (library : Library ℚ) := ResourceCache.foundIn_empty library
  exact ⟨v, w, pages, hfound _, hv, ((shared_resources_invisible v (hfound _)).1 hv).2.1 pages,
    hfound _, hw, hfonts, rfl, hshared, rfl,
    ((shared_resources_invisible w (hfound _)).2.1 hw hfonts rfl).2 pages⟩

/-- Two fonts of one identity. -/
def twoFonts : Keyed (Font ℚ) :=
  [("F", .fallback "serif" 0), ("G", .fallback "monospace" 0)]

/-- A page that selects the font `F`, saves the state, shows a letter in the font `G`, in the space
`R` and under the name `F`, and shows another one in the restored state. -/
def aliasPage (resources : SetId) : Page ℚ where
  cropBox := ⟨0, 0, 10, 10⟩
  rotation := 0
  content := [⟨"cs", [.name "S"]⟩, ⟨"Tf", [.name "F", .integer 1]⟩, ⟨"q", []⟩,
    ⟨"Tf", [.name "G", .integer 2]⟩, ⟨"Tf", [.name "G", .integer 1]⟩,
    ⟨"Tf", [.name "F", .integer 1]⟩, ⟨"cs", [.name "R"]⟩, ⟨"Tj", [.string [0x62]]⟩, ⟨"Q", []⟩,
    ⟨"Tj", [.string [0x63]]⟩]
  resources := resources
  overlays := []

/-- Where fonts of one identity look different, what is shared can be seen. Alone, the second page
has one space under two names, so restoring the state changes nothing that is compared, and the
letter is shown in the style of the other font. After the first page the name with a number stands
for the space of that page, which is another one, and the style is made anew. -/
theorem shared_space_seen_in_style :
    ∃ (w : Converter ℚ) (pages : List (Page ℚ)),
      w.cache.FoundIn w.library ∧ w.library.Coherent ColorSpace.Alike ∧
      w.cancellation.onset = none ∧
      w.convertEach pages ≠ pages.map fun p => (w.apart.convert p).1 := by
  let w : Converter ℚ := { options := .standard, library := shadeLibrary ["R"] twoFonts 2 }
  let pages := [aliasPage 0, aliasPage 1]
  have hw : w.library.Coherent ColorSpace.Alike := coherent_shadeLibrary fun _ j _ _ => .custom _ j
  let size (r : Except (Fault ℚ) (Document ℚ)) : Option Nat := r.toOption.map (·.root.count)
  have hshared : (w.convertEach pages).map size = [some 5, some 7] := by decide +kernel
  have halone : (pages.map fun p => (w.apart.convert p).1).map size = [some 5, some 5] := by
    decide +kernel
  refine ⟨w, pages, ResourceCache.foundIn_empty _, hw, rfl, fun heq => ?_⟩
  rw [heq, halone] at hshared
  exact absurd hshared (by decide)

end Example

end PageSvg
