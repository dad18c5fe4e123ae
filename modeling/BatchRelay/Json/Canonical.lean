import BatchRelay.Json.Basic

/-!
# Canonical JSON values

Texts that differ in the order of members, in members that a later one of the
same name replaces, or in the spelling of a number stand for the same value.
`Json.canonical` writes the value in one way: members by name, integers by
their digits, and every other number by the exact decimal digits of its binary
magnitude.  Zero has no sign.
-/

namespace BatchRelay

namespace Json

/-- Takes factors of two from a number, at most so many, and counts those that
are left. -/
def halve : Nat → Nat → Nat × Nat
  | 0, value => (value, 0)
  | count + 1, value =>
      if value % 2 = 0 then halve count (value / 2) else (value, count + 1)

/-- The number that a magnitude is, in decimal digits without a point. -/
def ofMagnitude (negative : Bool) (magnitude : Binary64) : Json :=
  let (odd, halvings) := halve (-magnitude.exponent).toNat magnitude.significand
  let digits := Binary64.scaled odd magnitude.exponent * Nat.pow 5 halvings
  .number (negative && digits ≠ 0) digits (some ⟨0, 0, -halvings⟩)

/-- The value of a number.  An integer is less than `2 ^ 64`; a negative one is
not zero and at least `-2 ^ 63`. -/
def canonicalNumber (negative : Bool) (whole : Nat) (scale : Option Scale) : Json :=
  let integer :=
    scale.isNone &&
      (if negative then 0 < whole && 2 * whole ≤ UInt64.size
        else whole < UInt64.size)
  if integer then
    .number negative whole none
  else
    match magnitude? whole (scale.getD .empty) with
    | some magnitude => ofMagnitude negative magnitude
    | none => .broken

/-- Puts a member before the first one whose name comes after its own. -/
def insertMember (member : Option String × Json) :
    List (Option String × Json) → List (Option String × Json)
  | [] => [member]
  | first :: remainder =>
      if member.1.getD "" < first.1.getD "" then member :: first :: remainder
      else first :: insertMember member remainder

mutual

/-- The one way in which a value is written. -/
def canonical : Json → Json
  | .number negative whole scale => canonicalNumber negative whole scale
  | .array elements => .array (canonicalElements elements)
  | .object members => .object (canonicalMembers members)
  | other => other

def canonicalElements : List Json → List Json
  | [] => []
  | element :: remainder => canonical element :: canonicalElements remainder

/-- The members by name; of several with one name the last. -/
def canonicalMembers :
    List (Option String × Json) → List (Option String × Json)
  | [] => []
  | (name, value) :: remainder =>
      let others := canonicalMembers remainder
      if others.any fun other => other.1 = name then others
      else insertMember (name, canonical value) others

end

end Json

end BatchRelay
