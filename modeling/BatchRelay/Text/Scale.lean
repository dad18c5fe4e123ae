import BatchRelay.Text.Binary64
import BatchRelay.Text.Decimal

/-!
# The part of a number after its whole digits

A decimal numeral may go on after its whole digits with a fraction and an
exponent.  Whether such a numeral stands for a finite number of 64 bit binary
floating point depends on its magnitude alone.
-/

namespace BatchRelay

/-- What follows the whole part of a number: the digits of a fraction, read as
a number of so many places, and an exponent. -/
structure Scale where
  fraction : Nat
  places : Nat
  exponent : Int
  deriving DecidableEq

namespace Scale

/-- Neither fraction nor exponent. -/
def empty : Scale :=
  ⟨0, 0, 0⟩

/-- The digits of the fraction. -/
def digits (scale : Scale) : List Char :=
  (Decimal.padded scale.places scale.fraction).take scale.places

/-- Whether a number that is written this way does not round to infinity.  A
number of at most 308 digits before its point is below the bound, and one of
at least 310 digits is above it. -/
def finite (whole : Nat) (scale : Scale) : Bool :=
  let digits := whole * Nat.pow 10 scale.places + scale.fraction
  let exponent := scale.exponent - scale.places
  let size := (Decimal.ofNat digits).length + exponent
  if digits = 0 ∨ size ≤ 308 then
    true
  else if 310 ≤ size then
    false
  else
    (Binary64.ofRatio? (digits * Nat.pow 10 exponent.toNat)
      (Nat.pow 10 (-exponent).toNat)).isSome

end Scale

end BatchRelay
