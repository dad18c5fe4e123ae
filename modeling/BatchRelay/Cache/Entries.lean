import BatchRelay.Text.Pieces

/-!
# Entries under keys

The contents that both caches are built on: values under keys, each with the
moment from which it no longer counts.  A key occurs at most once in contents
that were built with `put` and `erase`.
-/

namespace BatchRelay

/-- A value and the moment, in milliseconds, from which it no longer counts;
`none` when it counts for ever. -/
structure Entry where
  value : String
  deadline : Option Int
  deriving DecidableEq

/-- Whether an entry still counts. -/
def Entry.isLive (now : Int) (entry : Entry) : Bool :=
  match entry.deadline with
  | some deadline => now < deadline
  | none => true

/-- Values under keys. -/
abbrev Entries := List (String × Entry)

namespace Entries

/-- The entry under a key. -/
def find? (entries : Entries) (key : String) : Option Entry :=
  entries.lookup key

/-- The entry under a key, if it still counts. -/
def findLive? (entries : Entries) (now : Int) (key : String) : Option Entry :=
  (entries.find? key).filter (Entry.isLive now)

/-- The contents without a key. -/
def erase (entries : Entries) (key : String) : Entries :=
  entries.filter fun (other, _) => other ≠ key

/-- The contents with an entry put under a key. -/
def put (entries : Entries) (key : String) (entry : Entry) : Entries :=
  (key, entry) :: entries.erase key

/-- The contents with entries put under their keys, one after the other. -/
def putAll (entries others : Entries) : Entries :=
  others.foldl (fun entries (key, entry) => entries.put key entry) entries

/-- The entries that still count. -/
def live (entries : Entries) (now : Int) : Entries :=
  entries.filter fun (_, entry) => entry.isLive now

/-- The keys in the order of their characters. -/
def sortedKeys (entries : Entries) : List String :=
  (entries.map Prod.fst).mergeSort fun left right => left ≤ right

end Entries

end BatchRelay
