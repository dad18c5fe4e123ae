import BatchRelay.Text.Scale

/-!
# The values of JSON numbers

A number with neither fraction nor exponent is an integer if it fits into 64
bits.  Every other number is a binary floating point number with 64 bits.  Its
magnitude is not the nearest one to what is written: it is a significand times
or over a power of ten, where the significand holds as many leading digits as
fit into 64 bits, and each of the two and the result is rounded.  A number
whose magnitude would be infinite has no value.
-/

namespace BatchRelay

namespace Json

/-- Appends digits to a significand while it stays below `2 ^ 64`, and counts
the digits that are left over. -/
def appendDigits : Nat → List Char → Nat × Nat
  | significand, [] => (significand, 0)
  | significand, digit :: remainder =>
      let longer := significand * 10 + Decimal.value [digit]
      if longer < UInt64.size then
        appendDigits longer remainder
      else
        (significand, remainder.length + 1)

/-- The significand of a number and the exponent of the power of ten that
belongs to it.  Every whole digit that is left over raises the exponent, and
every digit of the fraction that is not lowers it. -/
def quickParts (whole : Nat) (scale : Scale) : Nat × Int :=
  let (significand, skipped) := appendDigits 0 (Decimal.ofNat whole)
  let (significand, unread) := appendDigits significand scale.digits
  (significand, scale.exponent + skipped + unread - scale.places)

/-- The magnitude of a floating point number, if it is finite.  The powers of
ten go up to the exponent 308; a quotient by a greater one is taken in two
steps, and below the exponent -616 it is zero. -/
def magnitude? (whole : Nat) (scale : Scale) : Option Binary64 := do
  let (significand, exponent) := quickParts whole scale
  let start ← Binary64.ofNat? significand
  if significand = 0 ∨ exponent < -616 then
    return ⟨0, 0⟩
  else if 308 < exponent then
    none
  else if 0 ≤ exponent then
    start.mul? (← Binary64.ofNat? (Nat.pow 10 exponent.toNat))
  else if -308 ≤ exponent then
    start.div? (← Binary64.ofNat? (Nat.pow 10 (-exponent).toNat))
  else
    let small ← start.div? (← Binary64.ofNat? (Nat.pow 10 308))
    small.div? (← Binary64.ofNat? (Nat.pow 10 (-exponent - 308).toNat))

/-- Whether a number has a value. -/
def inRange (whole : Nat) (scale : Option Scale) : Bool :=
  (magnitude? whole (scale.getD .empty)).isSome

end Json

end BatchRelay
