import PageSvg.Resource.Basic

/-!
# Shared resources

Fonts and colour spaces found under the number of an object are kept and found again on later
pages. An entry never changes, fonts and colour spaces have numbers of their own, and a search
that found nothing is not remembered.
-/

namespace PageSvg

/-- Fonts and colour spaces under the numbers of their objects. -/
structure ResourceCache (α : Type) where
  fonts : List (Nat × Font α) := []
  colorSpaces : List (Nat × ColorSpace α) := []

namespace ResourceCache

variable {α β : Type}

/-- How many entries there are. -/
def size (c : ResourceCache α) : Nat := c.fonts.length + c.colorSpaces.length

/-- The entry under a number, or what was found just now, which then becomes the entry. -/
def findOrAdd (entries : List (Nat × β)) (key : Nat) (found : Option β) :
    Option β × List (Nat × β) :=
  match entries.lookup key, found with
  | some entry, _ => (some entry, entries)
  | none, some value => (some value, entries ++ [(key, value)])
  | none, none => (none, entries)

/-- The font under a number; `found` is the font that the page itself has there. -/
def font (c : ResourceCache α) (key : Nat) (found : Option (Font α)) :
    Option (Font α) × ResourceCache α :=
  let (entry, fonts) := findOrAdd c.fonts key found
  (entry, { c with fonts })

/-- The colour space under a number; `found` is the space that the page itself has there. -/
def colorSpace (c : ResourceCache α) (key : Nat) (found : Option (ColorSpace α)) :
    Option (ColorSpace α) × ResourceCache α :=
  let (entry, colorSpaces) := findOrAdd c.colorSpaces key found
  (entry, { c with colorSpaces })

end ResourceCache

end PageSvg
