import Mathlib.Algebra.Group.Nat.Defs
import BatchRelay.Json.Number

/-!
# Integers of 64 bits have a magnitude

The magnitude of a number is computed through floating point numbers, and none of
them gets near infinity as long as the digits fit into 64 bits.  The bounds are
crude: a significand is not taken to have 53 digits, but to be what its numerator
and its denominator let it be.
-/

namespace BatchRelay

namespace Binary64

variable {numerator denominator : Nat} {above below : Nat}

theorem scaled_lt {number : Nat} {exponent : Int} {bits shift : Nat}
    (small : number < 2 ^ bits) (bounded : exponent ≤ shift) :
    scaled number exponent < 2 ^ (bits + shift) := by
  have power : 2 ^ exponent.toNat ≤ 2 ^ shift :=
    Nat.pow_le_pow_right (by decide) (by omega)
  calc number * 2 ^ exponent.toNat
      ≤ number * 2 ^ shift := Nat.mul_le_mul_left _ power
    _ < 2 ^ bits * 2 ^ shift := Nat.mul_lt_mul_of_pos_right small (Nat.two_pow_pos _)
    _ = 2 ^ (bits + shift) := (Nat.pow_add ..).symm

theorem nearest_le (numerator denominator : Nat) :
    nearest numerator denominator ≤ numerator + 1 := by
  have quotient := Nat.div_le_self numerator denominator
  simp only [nearest]
  split <;> omega

theorem log2_lt {number bits : Nat} (positive : 0 < bits)
    (small : number < 2 ^ bits) : Nat.log2 number < bits := by
  by_cases zero : number = 0
  · subst zero
    exact positive
  · exact (Nat.log2_lt zero).2 small

theorem leading_le (small : numerator < 2 ^ above) (positive : 0 < above) :
    leading numerator denominator ≤ above := by
  have bound := log2_lt positive small
  simp only [leading]
  split <;> omega

theorem le_leading (small : denominator < 2 ^ below) (positive : 0 < below) :
    -(below : Int) ≤ leading numerator denominator := by
  have bound := log2_lt positive small
  simp only [leading]
  split <;> omega

theorem ofRatio?_eq_some {significand bits : Nat} {exponent : Int}
    (isExponent : max (leading numerator denominator - 52) (-1074) = exponent)
    (isSignificand : nearest (scaled numerator (-exponent))
      (scaled denominator exponent) = significand)
    (small : scaled significand exponent < 2 ^ bits) (fits : bits ≤ 1024) :
    ofRatio? numerator denominator = some ⟨significand, exponent⟩ := by
  subst isExponent
  subst isSignificand
  unfold ofRatio?
  -- The bound is not to be computed.
  generalize 1024 = top at fits ⊢
  exact if_pos (Nat.lt_of_lt_of_le small (Nat.pow_le_pow_right (by decide) fits))

/-- A ratio of bounded numbers has a finite neighbour, which is bounded too. -/
theorem ofRatio?_bounded (numeratorSmall : numerator < 2 ^ above)
    (denominatorSmall : denominator < 2 ^ below)
    (positive : 0 < above ∧ 0 < below) (fits : 2 * above + below + 53 ≤ 1024) :
    ∃ magnitude, ofRatio? numerator denominator = some magnitude ∧
      magnitude.significand < 2 ^ (above + below + 53) ∧
      magnitude.exponent ≤ above ∧ -(below + 52 : Int) ≤ magnitude.exponent := by
  have upper : leading numerator denominator ≤ above :=
    leading_le numeratorSmall positive.1
  have lower : -(below : Int) ≤ leading numerator denominator :=
    le_leading denominatorSmall positive.2
  obtain ⟨exponent, isExponent⟩ :
      ∃ exponent, max (leading numerator denominator - 52) (-1074) = exponent :=
    ⟨_, rfl⟩
  obtain ⟨significand, isSignificand⟩ :
      ∃ significand, nearest (scaled numerator (-exponent))
        (scaled denominator exponent) = significand :=
    ⟨_, rfl⟩
  have exponentUpper : exponent ≤ above := by omega
  have exponentLower : -(below + 52 : Int) ≤ exponent := by omega
  have shifted : scaled numerator (-exponent) < 2 ^ (above + (below + 52)) :=
    scaled_lt numeratorSmall (by omega)
  have significandSmall : significand < 2 ^ (above + below + 53) := by
    calc significand
        ≤ scaled numerator (-exponent) + 1 := isSignificand ▸ nearest_le _ _
      _ < 2 ^ (above + (below + 52)) + 1 := Nat.succ_lt_succ shifted
      _ ≤ 2 ^ (above + (below + 52)) + 2 ^ (above + (below + 52)) :=
          Nat.add_le_add_left (Nat.two_pow_pos _) _
      _ = 2 ^ (above + below + 53) := by
          rw [← Nat.two_mul, ← Nat.pow_succ']
          rfl
  have finite := scaled_lt significandSmall exponentUpper
  exact ⟨_, ofRatio?_eq_some isExponent isSignificand finite (by omega),
    significandSmall, exponentUpper, exponentLower⟩

/-- An integer of 64 bits has a finite neighbour, and so has its product with
one. -/
theorem ofNat?_mul?_one {number : Nat} (small : number < 2 ^ 64) :
    ∃ start unit product, ofNat? number = some start ∧ ofNat? 1 = some unit ∧
      start.mul? unit = some product := by
  have oneSmall : 1 < 2 ^ 1 := by decide
  obtain ⟨start, isStart, significand, upper, lower⟩ :=
    ofRatio?_bounded small oneSmall (by decide) (by decide)
  have one : ofNat? 1 = some ⟨2 ^ 52, -52⟩ := by decide +kernel
  have product : start.significand * 2 ^ 52 < 2 ^ 170 := by
    calc start.significand * 2 ^ 52
        < 2 ^ 118 * 2 ^ 52 := Nat.mul_lt_mul_of_pos_right significand (by decide)
      _ = 2 ^ 170 := by decide
  have numeratorSmall : scaled (start.significand * 2 ^ 52) (start.exponent + -52) <
      2 ^ (170 + 12) :=
    scaled_lt product (by omega)
  have denominatorSmall : scaled 1 (-(start.exponent + -52)) < 2 ^ (1 + 105) :=
    scaled_lt oneSmall (by omega)
  obtain ⟨result, isResult, -⟩ :=
    ofRatio?_bounded numeratorSmall denominatorSmall (by decide) (by decide)
  exact ⟨start, ⟨2 ^ 52, -52⟩, result, isStart, one, isResult⟩

end Binary64

namespace Json

/-- The digits of a number that fits are all taken. -/
theorem appendDigits_of_lt {digits : List Char} {significand : Nat}
    (fits : Nat.ofDigitChars 10 digits significand < UInt64.size) :
    appendDigits significand digits =
      (Nat.ofDigitChars 10 digits significand, 0) := by
  induction digits generalizing significand with
  | nil => rfl
  | cons digit digits induction =>
      have value : Decimal.value [digit] = digit.toNat - '0'.toNat := by
        rw [Decimal.value, Nat.ofDigitChars_cons, Nat.ofDigitChars_nil, Nat.mul_zero,
          Nat.zero_add]
      rw [Nat.ofDigitChars_cons, Nat.mul_comm, ← value] at fits ⊢
      have longer : significand * 10 + Decimal.value [digit] < UInt64.size := by
        rw [Nat.ofDigitChars_eq_ofDigitChars_zero] at fits
        have power := Nat.pow_pos (by decide : 0 < 10) (n := digits.length)
        have grows := Nat.le_mul_of_pos_left
          (significand * 10 + Decimal.value [digit]) power
        omega
      rw [appendDigits, if_pos longer]
      exact induction fits

theorem quickParts_empty {whole : Nat} (fits : whole < UInt64.size) :
    quickParts whole .empty = (whole, 0) := by
  have isWhole : Nat.ofDigitChars 10 (Decimal.ofNat whole) 0 = whole :=
    Decimal.value_ofNat whole
  have taken : appendDigits 0 (Decimal.ofNat whole) = (whole, 0) := by
    rw [appendDigits_of_lt (by rwa [isWhole]), isWhole]
  have noDigits : Scale.empty.digits = [] := rfl
  simp only [quickParts, taken, noDigits, appendDigits]
  rfl

/-- An integer of 64 bits has a value, also where it is kept as a number of
another kind. -/
theorem inRange_of_lt {whole : Nat} (fits : whole < UInt64.size) :
    inRange whole none = true := by
  obtain ⟨start, unit, product, isStart, isUnit, isProduct⟩ :=
    Binary64.ofNat?_mul?_one fits
  simp only [inRange, Option.getD_none, magnitude?, quickParts_empty fits, isStart,
    Option.bind_eq_bind, Option.bind_some]
  split
  · rfl
  · simp [isUnit, isProduct]

end Json

end BatchRelay
