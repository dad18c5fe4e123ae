import BatchRelay.Proofs.Transaction.Amounts
import Mathlib.Data.Nat.Digits.Defs

/-!
# The encoding of amounts

The amounts that can be encoded are the decimal numerals of numbers below
`2 ^ 256`, with leading zeros or without.  The bytes depend on the number alone,
and the number on the bytes.
-/

namespace BatchRelay

namespace Amount

/-- The number of a numeral to the base ten. -/
def number (numeral : String) : Nat :=
  Nat.ofDigits 10
    (numeral.toList.reverse.map fun character => character.toNat - '0'.toNat)

/-- A zero for the sign and the digits of a number to the base 256, the highest
first; zero has one digit. -/
def written (number : Nat) : List UInt8 :=
  0 :: if number = 0 then [0] else (Nat.digits 256 number).reverse.map UInt8.ofNat

/-- A text of ASCII digits, at least one of them, whose number is small enough. -/
structure Acceptable (value : String) : Prop where
  nonempty : value ≠ ""
  digits : ∀ character ∈ value.toList, '0' ≤ character ∧ character ≤ '9'
  small : number value < 2 ^ 256

theorem ofDigits_eq_ofDigitChars (digits : List Char) :
    Nat.ofDigits 10
        (digits.reverse.map fun character => character.toNat - '0'.toNat) =
      Decimal.value digits := by
  rw [Nat.ofDigits_eq_foldr, List.foldr_map, List.foldr_reverse, Decimal.value,
    Nat.ofDigitChars_eq_foldl]
  simp only [Nat.cast_id, Nat.add_comm]

theorem bigEndian_eq_digits (number : Nat) :
    bigEndian number = (Nat.digits 256 number).reverse.map UInt8.ofNat := by
  induction number using Nat.strongRecOn with
  | _ number induction =>
      rw [bigEndian]
      split
      case isTrue isZero => simp [isZero]
      case isFalse positive =>
        rw [Nat.digits_def' (by decide) (Nat.pos_of_ne_zero positive),
          List.reverse_cons, List.map_append, ← induction _ (by omega)]
        rfl

theorem ofNat_eq_written (number : Nat) : ofNat number = written number := by
  unfold ofNat written
  split
  case isTrue => rfl
  case isFalse => rw [bigEndian_eq_digits]

theorem read?_eq_some_iff {value : String} {found : Nat} :
    Decimal.read? value.toList = some found ↔
      (value ≠ "" ∧ ∀ character ∈ value.toList, '0' ≤ character ∧ character ≤ '9') ∧
        found = number value := by
  have isValue : Decimal.value value.toList = number value :=
    (ofDigits_eq_ofDigitChars value.toList).symm
  have digits : value.toList.all Char.isDigit = true ↔
      ∀ character ∈ value.toList, '0' ≤ character ∧ character ≤ '9' := by
    simp [List.all_eq_true, Char.isDigit, Char.le_def]
  rw [Decimal.read?, isValue, Option.ite_none_right_eq_some, Option.some.injEq, digits,
    ne_eq, ne_eq, String.toList_eq_nil_iff, eq_comm (a := number value)]

/-- What is encoded, and how. -/
structure EncodedExactly (value : String) : Prop where
  accepted : ∀ bytes, encode value = .ok bytes ↔
    Acceptable value ∧ bytes = written (number value)
  refused : encode value = .error (.value value) ↔ ¬Acceptable value
  /-- Two texts have the same encoding exactly if they have the same number. -/
  alike : ∀ other,
    (∃ bytes, encode value = .ok bytes ∧ encode other = .ok bytes) ↔
      Acceptable value ∧ Acceptable other ∧ number value = number other

theorem encode_eq_ok_iff_written {value : String} {bytes : List UInt8} :
    encode value = .ok bytes ↔ Acceptable value ∧ bytes = written (number value) := by
  rw [encode_eq_ok_iff]
  simp only [read?_eq_some_iff, ofNat_eq_written]
  constructor
  · intro encoded
    obtain ⟨_, ⟨⟨nonempty, digits⟩, rfl⟩, small, rfl⟩ := encoded
    exact ⟨⟨nonempty, digits, small⟩, rfl⟩
  · intro encoded
    obtain ⟨acceptable, rfl⟩ := encoded
    exact ⟨number value, ⟨⟨acceptable.nonempty, acceptable.digits⟩, rfl⟩,
      acceptable.small, rfl⟩

/-- Amounts are encoded exactly. -/
theorem encodings_exact (value : String) : EncodedExactly value := by
  refine ⟨fun bytes => encode_eq_ok_iff_written, ?_, ?_⟩
  · constructor
    · intro refused acceptable
      have encoded := encode_eq_ok_iff_written.2 ⟨acceptable, rfl⟩
      exact absurd (refused.symm.trans encoded) (by simp)
    · intro unacceptable
      cases result : encode value with
      | ok bytes => exact absurd (encode_eq_ok_iff_written.1 result).1 unacceptable
      | error error => rw [eq_value_of_encode_eq_error result]
  · intro other
    constructor
    · intro same
      obtain ⟨bytes, first, second⟩ := same
      obtain ⟨acceptable, isFirst⟩ := encode_eq_ok_iff_written.1 first
      obtain ⟨otherAcceptable, isSecond⟩ := encode_eq_ok_iff_written.1 second
      refine ⟨acceptable, otherAcceptable, ofNat_inj ?_⟩
      rw [ofNat_eq_written, ofNat_eq_written, ← isFirst, isSecond]
    · intro same
      obtain ⟨acceptable, otherAcceptable, isNumber⟩ := same
      exact ⟨_, encode_eq_ok_iff_written.2 ⟨acceptable, rfl⟩,
        encode_eq_ok_iff_written.2 ⟨otherAcceptable, by rw [isNumber]⟩⟩

example : (encode "00256").toOption = some [0, 1, 0] := by
  decide +kernel

end Amount

end BatchRelay
