/-!
# Tagged binary fields

A message is a run of fields, each led by its number and its kind.  Numbers
are written seven bits at a time, the lowest first; byte strings are led by
their length.  A field that holds zero or no bytes is left out.
-/

namespace BatchRelay

namespace Wire

/-- A number as bytes of seven bits, the lowest first.  All bytes but the last
have their high bit set. -/
def varint (number : Nat) : List UInt8 :=
  if number < 128 then
    [UInt8.ofNat number]
  else
    UInt8.ofNat (number % 128 + 128) :: varint (number / 128)
termination_by number
decreasing_by omega

/-- What a field may hold. -/
inductive Content where
  | number (value : Nat)
  | bytes (value : List UInt8)
  deriving DecidableEq

/-- The bytes of one field. -/
def field (index : Nat) : Content → List UInt8
  | .number value =>
      if value = 0 then [] else varint (index * 8) ++ varint value
  | .bytes value =>
      if value = [] then []
      else varint (index * 8 + 2) ++ varint value.length ++ value

/-- The bytes of a message whose fields are given with their numbers. -/
def message (fields : List (Nat × Content)) : List UInt8 :=
  fields.flatMap fun (index, content) => field index content

end Wire

end BatchRelay
