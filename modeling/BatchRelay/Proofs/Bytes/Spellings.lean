import BatchRelay.Bytes.Base64
import BatchRelay.Bytes.Hex

/-!
# The spellings of byte sequences

A byte sequence has exactly one text to the base 64.  Its hexadecimal texts are
those that differ from the one in lower case only in the case of letters.
-/

namespace BatchRelay

namespace Base64

theorem letterValue?_letter {value : Nat} (small : value < 64) :
    letterValue? (letter value) = some value := by
  revert value
  decide +kernel

theorem letterValue?_eq_some_iff {character : Char} {value : Nat} :
    letterValue? character = some value ↔ value < 64 ∧ character = letter value := by
  constructor
  · intro found
    obtain ⟨small, isLetter, -⟩ := List.idxOf?_eq_some_iff.1 found
    refine ⟨small, ?_⟩
    rw [letter, List.getD_eq_getElem?_getD, List.getElem?_eq_getElem small,
      Option.getD_some, isLetter]
  · intro isLetter
    obtain ⟨small, rfl⟩ := isLetter
    exact letterValue?_letter small

theorem letterValue?_padding : letterValue? '=' = none := by
  decide

theorem letter_ne_padding {value : Nat} (small : value < 64) : letter value ≠ '=' := by
  intro same
  have found := letterValue?_letter small
  rw [same, letterValue?_padding] at found
  cases found

/-- The letters of three bytes have their six bits each. -/
theorem threeBytes_letters (first second third : UInt8) :
    threeBytes (first.toNat / 4) (first.toNat % 4 * 16 + second.toNat / 16)
      (second.toNat % 16 * 4 + third.toNat / 64) (third.toNat % 64) =
        [first, second, third] := by
  have firstSmall := first.toNat_lt
  have secondSmall := second.toNat_lt
  have thirdSmall := third.toNat_lt
  simp only [threeBytes, List.cons.injEq, ← UInt8.toNat_inj, UInt8.toNat_ofNat',
    and_true]
  omega

theorem decode?_encode (bytes : List UInt8) : decode? (encode bytes) = some bytes := by
  fun_induction encode bytes with
  | case1 => rfl
  | case2 first =>
      have small := first.toNat_lt
      have three := threeBytes_letters first 0 0
      simp only [UInt8.toNat_zero, Nat.zero_div, Nat.zero_mod, Nat.zero_mul, Nat.add_zero]
        at three
      have lowZero : first.toNat % 4 * 16 % 16 = 0 := by omega
      rw [decode?, letterValue?_letter (by omega), letterValue?_letter (by omega)]
      simp [lowZero, three]
  | case3 first second =>
      have small := first.toNat_lt
      have secondSmall := second.toNat_lt
      have three := threeBytes_letters first second 0
      simp only [UInt8.toNat_zero, Nat.zero_div, Nat.zero_mod, Nat.add_zero] at three
      have lowZero : second.toNat % 16 * 4 % 4 = 0 := by omega
      have third : letter (second.toNat % 16 * 4) ≠ '=' := letter_ne_padding (by omega)
      rw [decode?.eq_3 _ _ _ (fun same => third same), letterValue?_letter (by omega),
        letterValue?_letter (by omega), letterValue?_letter (by omega)]
      simp [lowZero, three]
  | case4 first second third remainder induction =>
      have small := first.toNat_lt
      have secondSmall := second.toNat_lt
      have thirdSmall := third.toNat_lt
      have three := threeBytes_letters first second third
      have fourth : letter (third.toNat % 64) ≠ '=' := letter_ne_padding (by omega)
      rw [decode?.eq_4 _ _ _ _ _ (fun _ same _ => fourth same) (fun same _ => fourth same),
        letterValue?_letter (by omega), letterValue?_letter (by omega),
        letterValue?_letter (by omega), letterValue?_letter (by omega)]
      simp [three, induction]

theorem threeBytes_values {first second third fourth : Nat} (firstSmall : first < 64)
    (secondSmall : second < 64) (thirdSmall : third < 64) (fourthSmall : fourth < 64) :
    ∃ high middle low : UInt8,
      threeBytes first second third fourth = [high, middle, low] ∧
        high.toNat = first * 4 + second / 16 ∧
        middle.toNat = second % 16 * 16 + third / 4 ∧
        low.toNat = third % 4 * 64 + fourth := by
  refine ⟨_, _, _, rfl, ?_, ?_, ?_⟩
  all_goals
    rw [UInt8.toNat_ofNat']
    omega

theorem eq_encode_of_decode? {text : List Char} {bytes : List UInt8}
    (decoded : decode? text = some bytes) : text = encode bytes := by
  fun_induction decode? text generalizing bytes with
  | case1 =>
      cases decoded
      rfl
  | case2 first second =>
      simp only [Option.bind_eq_bind, Option.bind_eq_some_iff, letterValue?_eq_some_iff,
        Option.pure_def, Option.ite_none_right_eq_some, Option.some.injEq] at decoded
      obtain ⟨high, ⟨highSmall, rfl⟩, low, ⟨lowSmall, rfl⟩, lowZero, isBytes⟩ := decoded
      obtain ⟨byte, _, _, three, isByte, -⟩ :=
        threeBytes_values highSmall lowSmall (by decide : 0 < 64) (by decide : 0 < 64)
      rw [three] at isBytes
      have highLetter : byte.toNat / 4 = high := by omega
      have lowLetter : byte.toNat % 4 * 16 = low := by omega
      rw [← isBytes, List.take_succ_cons, List.take_zero, encode, highLetter, lowLetter]
  | case3 first second third notPadding =>
      simp only [Option.bind_eq_bind, Option.bind_eq_some_iff, letterValue?_eq_some_iff,
        Option.pure_def, Option.ite_none_right_eq_some, Option.some.injEq] at decoded
      obtain ⟨high, ⟨highSmall, rfl⟩, middle, ⟨middleSmall, rfl⟩, low, ⟨lowSmall, rfl⟩,
        lowZero, isBytes⟩ := decoded
      obtain ⟨byte, other, _, three, isByte, isOther, -⟩ :=
        threeBytes_values highSmall middleSmall lowSmall (by decide : 0 < 64)
      rw [three] at isBytes
      have highLetter : byte.toNat / 4 = high := by omega
      have middleLetter : byte.toNat % 4 * 16 + other.toNat / 16 = middle := by omega
      have lowLetter : other.toNat % 16 * 4 = low := by omega
      rw [← isBytes, List.take_succ_cons, List.take_succ_cons, List.take_zero, encode,
        highLetter, middleLetter, lowLetter]
  | case4 first second third fourth remainder noPair noSingle induction =>
      simp only [Option.bind_eq_bind, Option.bind_eq_some_iff, letterValue?_eq_some_iff,
        Option.pure_def, Option.some.injEq] at decoded
      obtain ⟨one, ⟨oneSmall, rfl⟩, two, ⟨twoSmall, rfl⟩, three, ⟨threeSmall, rfl⟩, four,
        ⟨fourSmall, rfl⟩, others, isRemainder, isBytes⟩ := decoded
      obtain ⟨high, middle, low, group, isHigh, isMiddle, isLow⟩ :=
        threeBytes_values oneSmall twoSmall threeSmall fourSmall
      rw [group] at isBytes
      have oneLetter : high.toNat / 4 = one := by omega
      have twoLetter : high.toNat % 4 * 16 + middle.toNat / 16 = two := by omega
      have threeLetter : middle.toNat % 16 * 4 + low.toNat / 64 = three := by omega
      have fourLetter : low.toNat % 64 = four := by omega
      rw [← isBytes, induction isRemainder]
      simp only [List.cons_append, List.nil_append, encode, oneLetter, twoLetter,
        threeLetter, fourLetter]
  | case5 text => cases decoded

/-- The text of a byte sequence is the one that is read as it. -/
theorem decode?_eq_some_iff {text : List Char} {bytes : List UInt8} :
    decode? text = some bytes ↔ text = encode bytes := by
  constructor
  · exact eq_encode_of_decode?
  · rintro rfl
    exact decode?_encode bytes

end Base64

namespace Hex

theorem digit_lt (number : Nat) (small : number < 16) : (digit number).toNat < 128 := by
  revert number
  decide

/-- Beyond ASCII there are neither digits nor letters with a lower case. -/
theorem digitValue?_of_not_ascii {character : Char} (beyond : 128 ≤ character.toNat) :
    digitValue? character = none ∧ character.toLower = character := by
  have above (last : Char) (small : last.toNat < 128) : ¬character ≤ last := by
    intro order
    have below : character.toNat ≤ last.toNat := order
    omega
  refine ⟨?_, dif_neg fun upper => above 'Z' (by decide) upper.2⟩
  simp only [digitValue?, above '9' (by decide), above 'f' (by decide),
    above 'F' (by decide), and_false, if_false]

/-- A digit of either case is read as the number of its lower-case form. -/
theorem digitValue?_eq_some_iff {character : Char} {number : Nat} :
    digitValue? character = some number ↔
      number < 16 ∧ character.toLower = digit number := by
  have read : ∀ code < 128, ∀ number ∈ digitValue? (Char.ofNat code),
      number < 16 ∧ (Char.ofNat code).toLower = digit number := by
    decide +kernel
  have found : ∀ code < 128, ∀ number < 16,
      (Char.ofNat code).toLower = digit number →
        digitValue? (Char.ofNat code) = some number := by
    decide +kernel
  by_cases ascii : character.toNat < 128
  · have isCharacter := Char.ofNat_toNat character
    constructor
    · intro isRead
      rw [← isCharacter] at isRead
      simpa only [isCharacter] using read _ ascii number isRead
    · intro isDigit
      obtain ⟨small, lower⟩ := isDigit
      rw [← isCharacter] at lower
      simpa only [isCharacter] using found _ ascii number small lower
  · obtain ⟨unread, unchanged⟩ := digitValue?_of_not_ascii (Nat.le_of_not_lt ascii)
    rw [unread, unchanged]
    constructor
    · intro isRead
      cases isRead
    · intro isDigit
      obtain ⟨small, rfl⟩ := isDigit
      exact absurd (digit_lt number small) ascii

/-- The texts of a byte sequence are those with the same letters as its text in
lower case. -/
theorem decode?_eq_some_iff {text : List Char} {bytes : List UInt8} :
    decode? text = some bytes ↔ text.map Char.toLower = encode bytes := by
  fun_induction decode? text generalizing bytes with
  | case1 =>
      cases bytes with
      | nil => simp [encode]
      | cons byte others => simp [encode, ofByte]
  | case2 =>
      cases bytes with
      | nil => simp [encode]
      | cons byte others => simp [encode, ofByte]
  | case3 high low remainder induction =>
      simp only [Option.bind_eq_bind, Option.bind_eq_some_iff, digitValue?_eq_some_iff,
        Option.pure_def, Option.some.injEq, induction]
      constructor
      · intro decoded
        obtain ⟨upper, ⟨upperSmall, isUpper⟩, lower, ⟨lowerSmall, isLower⟩, others,
          isOthers, rfl⟩ := decoded
        have byte : (UInt8.ofNat (upper * 16 + lower)).toNat = upper * 16 + lower := by
          rw [UInt8.toNat_ofNat']
          omega
        have isHigh : (upper * 16 + lower) / 16 = upper := by omega
        have isLow : (upper * 16 + lower) % 16 = lower := by omega
        simp only [List.map_cons, isUpper, isLower, isOthers, encode, List.flatMap_cons,
          ofByte, byte, isHigh, isLow, List.cons_append, List.nil_append]
      · intro spelled
        cases bytes with
        | nil => simp [encode] at spelled
        | cons byte others =>
            have small := byte.toNat_lt
            simp only [List.map_cons, encode, List.flatMap_cons, ofByte, List.cons_append,
              List.nil_append, List.cons.injEq] at spelled
            obtain ⟨isUpper, isLower, isOthers⟩ := spelled
            refine ⟨_, ⟨by omega, isUpper⟩, _, ⟨by omega, isLower⟩, others, isOthers, ?_⟩
            rw [List.cons.injEq, ← UInt8.toNat_inj, UInt8.toNat_ofNat']
            exact ⟨by omega, rfl⟩

end Hex

end BatchRelay
