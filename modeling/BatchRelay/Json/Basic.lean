import BatchRelay.Json.Number

/-!
# JSON values

Objects keep their members in the order of the text, repeated names included,
because a record that names a member twice is refused.  Numbers keep their
form: `1` and `1.0` are different values here, since only the first is an
integer.

Two things can be written that have no value.  A string may hold half of a
surrogate pair; it can be skipped over but has no text.  A text may stop being
JSON somewhere; that place holds `broken`, and what comes before it is there
to be read.
-/

namespace BatchRelay

inductive Json where
  | null
  | bool (value : Bool)
  | number (negative : Bool) (whole : Nat) (scale : Option Scale)
  /-- A string; `none` when it holds half of a surrogate pair. -/
  | string (text : Option String)
  | array (elements : List Json)
  /-- An object; a name is `none` when it holds half of a surrogate pair. -/
  | object (members : List (Option String × Json))
  /-- The place where a text stops being JSON. -/
  | broken

namespace Json

/-- A string that has a text. -/
def text (value : String) : Json :=
  .string (some value)

/-- A natural number. -/
def nat (value : Nat) : Json :=
  .number false value none

/-- An object with these members. -/
def record (members : List (String × Json)) : Json :=
  .object (members.map fun (name, value) => (some name, value))

mutual

/-- Whether the text of a value was JSON up to its end. -/
def wellFormed : Json → Bool
  | .array elements => elementsWellFormed elements
  | .object members => membersWellFormed members
  | .broken => false
  | _ => true

def elementsWellFormed : List Json → Bool
  | [] => true
  | element :: remainder => wellFormed element && elementsWellFormed remainder

def membersWellFormed : List (Option String × Json) → Bool
  | [] => true
  | (_, value) :: remainder => wellFormed value && membersWellFormed remainder

end

/-- Deepest nesting that a value kept for later may have. -/
def deepest : Nat :=
  127

mutual

/-- Whether a value can be kept for later: it is JSON up to its end, all of
its strings have texts, all of its numbers have values, and it is not nested
more than `depth` levels deep. -/
def keepable : Nat → Json → Bool
  | _, .null | _, .bool _ => true
  | _, .number _ whole scale => inRange whole scale
  | _, .string text => text.isSome
  | 0, .array _ | 0, .object _ => false
  | depth + 1, .array elements => elementsKeepable depth elements
  | depth + 1, .object members => membersKeepable depth members
  | _, .broken => false

def elementsKeepable (depth : Nat) : List Json → Bool
  | [] => true
  | element :: remainder =>
      keepable depth element && elementsKeepable depth remainder

def membersKeepable (depth : Nat) : List (Option String × Json) → Bool
  | [] => true
  | (name, value) :: remainder =>
      name.isSome && keepable depth value && membersKeepable depth remainder

end

end Json

end BatchRelay
