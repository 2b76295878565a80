/-!
# Keyed entries

Entries under text keys, in the order in which their keys first came in.
-/

namespace PageSvg

/-- Entries in insertion order. -/
abbrev Keyed (β : Type) := List (String × β)

namespace Keyed

variable {β : Type}

/-- The entry under a key. -/
def get? (entries : Keyed β) (key : String) : Option β := List.lookup key entries

/-- Is there an entry under the key? -/
def contains (entries : Keyed β) (key : String) : Bool := (entries.get? key).isSome

/-- Replaces the entry in place, or adds one at the end. -/
def insert (entries : Keyed β) (key : String) (value : β) : Keyed β :=
  match entries with
  | [] => [(key, value)]
  | (k, v) :: rest =>
    if k = key then (k, value) :: rest else (k, v) :: insert rest key value

/-- The entries of a list of pairs; a repeated key keeps its first place and takes its last
value. -/
def ofPairs (pairs : List (String × β)) : Keyed β :=
  pairs.foldl (fun entries (key, value) => entries.insert key value) []

end Keyed

end PageSvg
