/-!
# TOML values

Tables and arrays of a TOML document, and the values in them.  Floating point
numbers and moments are checked when they are read but have no use here, so
only their kind is kept.

A table remembers how it came to be, since that decides what later lines of the
document may still add to it.  An array remembers whether it grows with each
`[[header]]`.
-/

namespace BatchRelay

/-- How a table of a document came to be. -/
inductive Standing where
  /-- A header or the document itself opened it. -/
  | opened
  /-- The header of a table inside it implied it. -/
  | implied
  /-- A dotted key implied it. -/
  | dotted
  /-- It was written between braces, and is complete. -/
  | closed
  deriving DecidableEq

inductive Toml where
  | string (value : String)
  | integer (value : Int)
  | bool (value : Bool)
  /-- A floating point number. -/
  | float
  /-- A date, a time or both. -/
  | moment
  | array (growing : Bool) (elements : List Toml)
  | table (standing : Standing) (members : List (String × Toml))

/-- The named values of a table, each name once. -/
abbrev Toml.Members :=
  List (String × Toml)

end BatchRelay
