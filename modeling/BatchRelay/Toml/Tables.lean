import BatchRelay.Toml.Basic

/-!
# Filling tables

The lines of a document name places by paths of keys.  A path goes through
tables that are there already, through the last table of an array that grows,
and makes the tables that are missing.  What a line may add depends on the
standing of the table it reaches: a table is opened once, a table that dotted
keys have made takes dotted keys only, and a value is never replaced.
-/

namespace BatchRelay

namespace Toml

/-- The value under a key. -/
def find? (key : String) (members : Members) : Option Toml :=
  members.lookup key

/-- Puts another value under a key that is there. -/
def replace (key : String) (value : Toml) : Members → Members
  | [] => []
  | (other, old) :: members =>
      if other = key then (key, value) :: members
      else (other, old) :: replace key value members

/-- Changes the table that a path leads to.  `dotted` tells whether the path is
part of a dotted key rather than of a header. -/
def change? (dotted : Bool)
    (change : Standing → Members → Option Members) :
    List String → Standing → Members → Option Members
  | [], standing, members => change standing members
  | key :: path, _, members =>
      match find? key members with
      | none => do
          let standing : Standing := if dotted then .dotted else .implied
          let inner ← change? dotted change path standing []
          return members ++ [(key, .table standing inner)]
      | some (.table standing inner) =>
          if standing = .closed ∨ (dotted ∧ standing = .opened) then
            none
          else do
            let inner ← change? dotted change path standing inner
            return replace key (.table standing inner) members
      | some (.array true elements) =>
          match elements.getLast? with
          | some (.table standing inner) => do
              let inner ← change? dotted change path standing inner
              let elements := elements.dropLast ++ [.table standing inner]
              return replace key (.array true elements) members
          | _ => none
      | some _ => none

/-- Gives a value to a dotted key: a path and a name at its end. -/
def assign? (path : List String) (name : String) (value : Toml)
    (members : Members) : Option Members :=
  change? true (fun standing members =>
    if (path ≠ [] ∧ standing ≠ .dotted) ∨ (find? name members).isSome then
      none
    else
      some (members ++ [(name, value)]))
    path .opened members

/-- Opens the table that a header names. -/
def open? (path : List String) (name : String) (members : Members) :
    Option Members :=
  change? false (fun _ members =>
    match find? name members with
    | none => some (members ++ [(name, .table .opened [])])
    | some (.table .implied inner) =>
        some (replace name (.table .opened inner) members)
    | some _ => none)
    path .opened members

/-- Adds a table to the array that a header names. -/
def extend? (path : List String) (name : String) (members : Members) :
    Option Members :=
  change? false (fun _ members =>
    match find? name members with
    | none => some (members ++ [(name, .array true [.table .opened []])])
    | some (.array true elements) =>
        let elements := elements ++ [.table .opened []]
        some (replace name (.array true elements) members)
    | some _ => none)
    path .opened members

/-- Gives a value to a dotted key inside the table that a header has opened
last. -/
def assignUnder? (header path : List String) (name : String) (value : Toml)
    (members : Members) : Option Members :=
  change? false (fun _ members => assign? path name value members)
    header .opened members

end Toml

end BatchRelay
