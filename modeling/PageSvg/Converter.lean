import PageSvg.Canvas.Document
import PageSvg.Page

/-!
# Conversion

Pages converted together share the fonts and colour spaces they find, which changes nothing but the
work, as long as equal numbers mean equal objects.
-/

namespace PageSvg

variable {α : Type} [Scalar α]

/-- What the pages of one conversion share. -/
structure Converter (α : Type) where
  options : Options α
  library : Library α
  cache : ResourceCache α := {}
  cancellation : Cancellation := {}

namespace Converter

/-- A converter with options that are in their ranges. -/
def ofOptions (o : Options α) (library : Library α) : Except (Fault α) (Converter α) := do
  return { options := ← o.validated, library }

/-- The canvas on which a page begins. -/
def canvas (v : Converter α) (p : Page α) : Canvas α :=
  { Canvas.blank (p.setting v.options v.library) p.resources with
    cache := some v.cache
    cancellation := v.cancellation }

/-- Converts a page. What it found is shared even if the conversion fails. -/
def convert (v : Converter α) (p : Page α) : Except (Fault α) (Document α) × Converter α :=
  let s := p.setting v.options v.library
  let keep (c : Canvas α) : Converter α :=
    { v with cache := c.cache.getD v.cache, cancellation := c.cancellation }
  match p.draw s (v.canvas p) with
  | .ok _ c => (.ok (c.finish s), keep c)
  | .error fault c => (.error fault, keep c)

/-- Converts pages in order. -/
def convertEach (v : Converter α) : List (Page α) → List (Except (Fault α) (Document α))
  | [] => []
  | p :: rest =>
    let (document, v) := v.convert p
    document :: v.convertEach rest

/-- Converts pages in order; fails as the first page that fails. -/
def convertAll (v : Converter α) (pages : List (Page α)) :
    Except (Fault α) (List (Document α)) :=
  (v.convertEach pages).mapM id

end Converter

end PageSvg
