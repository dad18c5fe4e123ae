/-!
# Binary numbers of 64 bits

The magnitudes of binary floating point numbers with 64 bits.  A ratio of
natural numbers is rounded to the nearest of them, and a tie goes to the one
with the even significand.  A ratio at or above `2 ^ 1024 - 2 ^ 970` has no
finite neighbour to go to.
-/

namespace BatchRelay

/-- The magnitude `significand * 2 ^ exponent`. -/
structure Binary64 where
  significand : Nat
  exponent : Int
  deriving DecidableEq

namespace Binary64

/-- A number multiplied by a power of two, when the exponent is not negative.
A ratio is scaled by scaling its numerator by the exponent and its denominator
by the opposite one. -/
def scaled (number : Nat) (exponent : Int) : Nat :=
  number * Nat.pow 2 exponent.toNat

/-- The natural number that is nearest to a ratio; a tie goes to the even
one. -/
def nearest (numerator denominator : Nat) : Nat :=
  let quotient := numerator / denominator
  let twice := 2 * (numerator % denominator)
  if twice < denominator ∨ (twice = denominator ∧ quotient % 2 = 0) then
    quotient
  else
    quotient + 1

/-- The greatest exponent whose power of two does not exceed a ratio, when the
ratio is positive. -/
def leading (numerator denominator : Nat) : Int :=
  let guess : Int := (Nat.log2 numerator : Int) - Nat.log2 denominator
  if scaled denominator guess ≤ scaled numerator (-guess) then guess else guess - 1

/-- The magnitude that is nearest to a ratio, unless that is infinity.  It has
53 binary digits, or fewer near zero, where no exponent is below `-1074`. -/
def ofRatio? (numerator denominator : Nat) : Option Binary64 :=
  let exponent := max (leading numerator denominator - 52) (-1074)
  let significand :=
    nearest (scaled numerator (-exponent)) (scaled denominator exponent)
  if scaled significand exponent < Nat.pow 2 1024 then
    some ⟨significand, exponent⟩
  else
    none

/-- The nearest magnitude to a natural number. -/
def ofNat? (number : Nat) : Option Binary64 :=
  ofRatio? number 1

/-- The product of two magnitudes, rounded. -/
def mul? (left right : Binary64) : Option Binary64 :=
  let exponent := left.exponent + right.exponent
  ofRatio? (scaled (left.significand * right.significand) exponent)
    (scaled 1 (-exponent))

/-- The quotient of two magnitudes, rounded. -/
def div? (left right : Binary64) : Option Binary64 :=
  let exponent := left.exponent - right.exponent
  ofRatio? (scaled left.significand exponent)
    (scaled right.significand (-exponent))

end Binary64

end BatchRelay
