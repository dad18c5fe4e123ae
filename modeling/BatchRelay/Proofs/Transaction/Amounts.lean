import Mathlib.Algebra.Group.Nat.Defs
import BatchRelay.Text.Decimal
import BatchRelay.Transaction.Encoding

/-!
# Amounts as numbers

An amount is read digit by digit into a word of fixed size and written as the
bytes of that word without leading zeros.  Neither the word nor its overflow is
seen from outside: the numerals that are read are those of numbers below
`Amount.bound`, and what is written are the digits of the number to the base 256.
-/

namespace BatchRelay

namespace Amount

/-- Amounts are below this bound. -/
def bound : Nat :=
  Nat.pow 2 256

/-- The bytes of a number, the highest first and none of them a leading zero. -/
def bigEndian (number : Nat) : List UInt8 :=
  if number = 0 then
    []
  else
    bigEndian (number / 256) ++ [UInt8.ofNat (number % 256)]
termination_by number
decreasing_by omega

/-- A sign byte and the bytes of the number; zero has one zero byte. -/
def ofNat (number : Nat) : List UInt8 :=
  if number = 0 then [0, 0] else 0 :: bigEndian number

/-- The number that bytes stand for, the highest first. -/
def ofBytes (bytes : List UInt8) : Nat :=
  bytes.foldl (fun number byte => number * 256 + byte.toNat) 0

theorem ofBytes_bigEndian (number : Nat) : ofBytes (bigEndian number) = number := by
  induction number using Nat.strongRecOn with
  | _ number induction =>
      rw [bigEndian]
      split
      case isTrue isZero => exact isZero.symm
      case isFalse positive =>
        have front := induction (number / 256) (by omega)
        rw [ofBytes] at front
        rw [ofBytes, List.foldl_append, front, List.foldl_cons, List.foldl_nil,
          UInt8.toNat_ofNat']
        omega

theorem ofBytes_ofNat (number : Nat) : ofBytes (ofNat number) = number := by
  unfold ofNat
  split
  case isTrue isZero => exact isZero.symm
  case isFalse => exact ofBytes_bigEndian number

theorem ofNat_inj {left right : Nat} (same : ofNat left = ofNat right) :
    left = right := by
  rw [← ofBytes_ofNat left, same, ofBytes_ofNat]

section Reading

variable {amount next : Word} {character : Char} {digits : List Char}

/-- The number of an amount with one more digit. -/
def appended (amount : Word) (character : Char) : Nat :=
  10 * amount.toNat + (character.toNat - '0'.toNat)

theorem digit_lt (isDigit : character.isDigit = true) :
    character.toNat - '0'.toNat < 10 := by
  simp only [Char.isDigit, Bool.and_eq_true, decide_eq_true_eq, ge_iff_le,
    UInt32.le_iff_toNat_le] at isDigit
  have last : character.toNat ≤ 57 := isDigit.2
  have first : '0'.toNat = 48 := rfl
  omega

/-- A digit is appended as long as the number stays below the bound. -/
theorem append?_eq_some_iff (isDigit : character.isDigit = true) :
    append? amount character = some next ↔
      appended amount character < bound ∧ next.toNat = appended amount character := by
  have small := digit_lt isDigit
  have width : 2 ^ (8 * size) = bound := rfl
  have wide : 10 < bound := by decide
  have ten : (10 : Word).toNat = 10 := rfl
  have last : (digit character).toNat = character.toNat - '0'.toNat := by
    rw [digit, BitVec.toNat_ofNat, width, Nat.mod_eq_of_lt (by omega)]
  simp only [append?, BitVec.umulOverflow, BitVec.uaddOverflow, BitVec.toNat_mul, ten,
    last, width, appended, decide_eq_true_eq]
  by_cases times : bound ≤ amount.toNat * 10
  · rw [if_pos times]
    simp only [reduceCtorEq, false_iff, not_and]
    omega
  · rw [if_neg times, Nat.mod_eq_of_lt (by omega)]
    split
    case isTrue plus =>
      simp only [reduceCtorEq, false_iff, not_and]
      omega
    case isFalse plus =>
      have sum : (amount * 10 + digit character).toNat =
          10 * amount.toNat + (character.toNat - '0'.toNat) := by
        rw [BitVec.toNat_add, BitVec.toNat_mul, ten, last, width,
          Nat.mod_eq_of_lt (a := amount.toNat * 10) (by omega),
          Nat.mod_eq_of_lt (by omega), Nat.mul_comm]
      rw [Option.some.injEq, ← BitVec.toNat_inj, sum]
      omega

theorem le_ofDigitChars (start : Nat) : start ≤ Nat.ofDigitChars 10 digits start := by
  induction digits generalizing start with
  | nil => exact Nat.le_refl start
  | cons first others induction =>
      rw [Nat.ofDigitChars_cons]
      exact Nat.le_trans (by omega) (induction _)

/-- Digits are read as long as their number stays below the bound. -/
theorem foldlM_append?_eq_some_iff (areDigits : ∀ character ∈ digits, character.isDigit = true) :
    digits.foldlM append? amount = some next ↔
      Nat.ofDigitChars 10 digits amount.toNat < bound ∧
        next.toNat = Nat.ofDigitChars 10 digits amount.toNat := by
  induction digits generalizing amount with
  | nil =>
      have small : amount.toNat < bound := amount.isLt
      simp [← BitVec.toNat_inj, small, eq_comm]
  | cons first others induction =>
      rw [List.foldlM_cons, Option.bind_eq_bind, Option.bind_eq_some_iff,
        Nat.ofDigitChars_cons]
      simp only [append?_eq_some_iff (areDigits first List.mem_cons_self),
        induction fun character member =>
          areDigits character (List.mem_cons_of_mem first member)]
      constructor
      · intro read
        obtain ⟨middle, ⟨-, isMiddle⟩, small, isNext⟩ := read
        rw [isMiddle] at small isNext
        exact ⟨small, isNext⟩
      · intro read
        have small : appended amount first < bound :=
          Nat.lt_of_le_of_lt (le_ofDigitChars _) read.1
        have isMiddle : (BitVec.ofNat (8 * size) (appended amount first)).toNat =
            appended amount first :=
          Nat.mod_eq_of_lt small
        refine ⟨_, ⟨small, isMiddle⟩, ?_⟩
        rw [isMiddle]
        exact read

end Reading

section Writing

/-- The lowest bytes of a number, the highest of them first. -/
def lowBytes (count number : Nat) : List UInt8 :=
  (List.range count).map fun place =>
    UInt8.ofNat (number >>> (8 * (count - 1 - place)))

theorem lowBytes_succ (count number : Nat) :
    lowBytes (count + 1) number =
      lowBytes count (number / 256) ++ [UInt8.ofNat (number % 256)] := by
  have last : UInt8.ofNat number = UInt8.ofNat (number % 256) := by
    rw [← UInt8.toNat_inj, UInt8.toNat_ofNat', UInt8.toNat_ofNat']
    omega
  have shifted : ∀ place ∈ List.range count,
      UInt8.ofNat (number >>> (8 * (count + 1 - 1 - place))) =
        UInt8.ofNat ((number / 256) >>> (8 * (count - 1 - place))) := by
    intro place member
    have before := List.mem_range.1 member
    have eight : 8 * (count + 1 - 1 - place) = 8 + 8 * (count - 1 - place) := by
      omega
    rw [eight, Nat.shiftRight_add, Nat.shiftRight_eq_div_pow number 8]
  rw [lowBytes, List.range_succ, List.map_append, List.map_congr_left shifted]
  simp [lowBytes, last]

/-- Without leading zeros the lowest bytes are all bytes, if there are enough. -/
theorem dropWhile_lowBytes {count number : Nat} (enough : number < 256 ^ count) :
    (lowBytes count number).dropWhile (· = 0) = bigEndian number := by
  induction count generalizing number with
  | zero =>
      have isZero : number = 0 := by
        rw [Nat.pow_zero] at enough
        omega
      rw [isZero, bigEndian]
      rfl
  | succ count induction =>
      have fewer : number / 256 < 256 ^ count := by
        rw [Nat.pow_succ] at enough
        omega
      have front := induction fewer
      rw [lowBytes_succ, List.dropWhile_append, front, bigEndian.eq_1 number]
      by_cases isZero : number = 0
      · rw [if_pos isZero, isZero, bigEndian]
        rfl
      · rw [if_neg isZero]
        by_cases isSmall : number / 256 = 0
        · have lastOnly : UInt8.ofNat (number % 256) ≠ 0 := by
            rw [Ne, ← UInt8.toNat_inj, UInt8.toNat_ofNat']
            simp only [UInt8.toNat_zero]
            omega
          rw [isSmall, bigEndian]
          simp [lastOnly]
        · have nonempty : bigEndian (number / 256) ≠ [] := by
            rw [bigEndian, if_neg isSmall]
            simp
          simp [nonempty]

theorem ofWord_eq_ofNat (amount : Word) : ofWord amount = ofNat amount.toNat := by
  have bytes : bytes amount = lowBytes size amount.toNat := by
    simp only [bytes, lowBytes, BitVec.toNat_ushiftRight]
  have enough : amount.toNat < 256 ^ size := amount.isLt
  have zero : (0 : Word).toNat = 0 := rfl
  rw [ofWord, ofNat, bytes, dropWhile_lowBytes enough]
  simp only [← BitVec.toNat_inj, zero]

end Writing

/-- What is not encoded is named in the error. -/
theorem eq_value_of_encode_eq_error {value : String} {error : EncodingError}
    (refused : encode value = .error error) : error = .value value := by
  unfold encode at refused
  split at refused
  · exact (Except.error.inj refused).symm
  · split at refused
    · cases refused
    · exact (Except.error.inj refused).symm

/-- The amounts that are encoded are the numerals of numbers below the bound. -/
theorem encode_eq_ok_iff {value : String} {bytes : List UInt8} :
    encode value = .ok bytes ↔
      ∃ number, Decimal.read? value.toList = some number ∧ number < bound ∧
        bytes = ofNat number := by
  unfold encode Decimal.read?
  have empty : value = "" ↔ value.toList = [] := String.toList_eq_nil_iff.symm
  by_cases numeral : value.toList ≠ [] ∧ value.toList.all Char.isDigit
  · have areDigits := List.all_eq_true.1 numeral.2
    have refused : ¬(value = "" ∨ ¬value.toList.all Char.isDigit) := by
      simp [empty, numeral.1, numeral.2]
    have read (amount : Word) : ofDigits? value.toList = some amount ↔
        Decimal.value value.toList < bound ∧
          amount.toNat = Decimal.value value.toList :=
      foldlM_append?_eq_some_iff areDigits
    rw [if_neg refused, if_pos numeral]
    simp only [Option.some.injEq, exists_eq_left']
    cases result : ofDigits? value.toList with
    | some amount =>
        obtain ⟨small, isNumber⟩ := (read amount).1 result
        simp only [Except.ok.injEq, ofWord_eq_ofNat, isNumber, eq_comm]
        exact (and_iff_right small).symm
    | none =>
        simp only [reduceCtorEq, false_iff, not_and]
        intro small
        have isWord := (read (BitVec.ofNat (8 * size) (Decimal.value value.toList))).2
          ⟨small, Nat.mod_eq_of_lt small⟩
        exact absurd (result.symm.trans isWord) (by simp)
  · have refused : value = "" ∨ ¬value.toList.all Char.isDigit := by
      rw [empty]
      exact (Decidable.not_and_iff_not_or_not.1 numeral).imp_left Decidable.not_not.1
    rw [if_pos refused, if_neg numeral]
    simp

end Amount

end BatchRelay
