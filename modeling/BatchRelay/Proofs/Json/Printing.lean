import BatchRelay.Json.Printer
import BatchRelay.Json.Record

/-!
# Printed JSON is read back

`readFront_print` says that the reader finds a printed value at the front of a
text and stops where it ends.  It holds for plain values: those whose strings
have texts and whose numbers are integers, which is all that records hold.
-/

namespace BatchRelay

namespace Json

mutual

/-- Whether a value holds only strings with texts and numbers without fraction
and exponent. -/
def plain : Json → Bool
  | .number _ _ scale => scale.isNone
  | .string text => text.isSome
  | .array elements => elementsPlain elements
  | .object members => membersPlain members
  | .broken => false
  | _ => true

def elementsPlain : List Json → Bool
  | [] => true
  | element :: remainder => plain element && elementsPlain remainder

def membersPlain : List (Option String × Json) → Bool
  | [] => true
  | (name, value) :: remainder =>
      name.isSome && plain value && membersPlain remainder

end

/-! ## Strings -/

/-- The mark under which a printed character is read. -/
def mark (character : Char) : Mark :=
  if character.toNat < 32 ∧ character ≠ '\x08' ∧ character ≠ '\x0c' ∧
      character ≠ '\n' ∧ character ≠ '\r' ∧ character ≠ '\t' then
    .unit character.toNat
  else
    .plain character

private theorem digitValue?_digit :
    ∀ number < 16, Hex.digitValue? (Hex.digit number) = some number := by
  decide

private theorem unit?_control {code : Nat} (small : code < 32) :
    unit? '0' '0' (Hex.digit (code / 16)) (Hex.digit (code % 16)) =
      some code := by
  have high := digitValue?_digit (code / 16) (by omega)
  have low := digitValue?_digit (code % 16) (by omega)
  have zero : Hex.digitValue? '0' = some 0 := by decide
  simp only [unit?, high, low, zero, Option.bind_eq_bind, Option.bind_some,
    Option.pure_def, Option.some.injEq]
  omega

private theorem readMarks?_ordinary {character : Char}
    (large : ¬ character.toNat < 32) (noQuote : character ≠ '"')
    (noBackslash : character ≠ '\\') (remainder : List Char) :
    readMarks? (character :: remainder) =
      (readMarks? remainder).map fun (marks, source) =>
        (.plain character :: marks, source) := by
  rw [readMarks?]
  · simp only [large, noBackslash, or_self, if_false]
    cases readMarks? remainder <;> rfl
  · exact noQuote
  · intro _ _ _ _ _ isEscape
    exact absurd isEscape noBackslash
  · intro _ _ isEscape
    exact absurd isEscape noBackslash

theorem readMarks?_printCharacter (character : Char) (remainder : List Char) :
    readMarks? (printCharacter character ++ remainder) =
      (readMarks? remainder).map fun (marks, source) =>
        (mark character :: marks, source) := by
  unfold printCharacter
  split
  case h_8 noQuote noBackslash _ _ _ _ _ =>
    split
    case isTrue small =>
      have isUnit : mark character = .unit character.toNat := by
        simp_all [mark]
      simp only [List.cons_append, List.nil_append, readMarks?,
        unit?_control small, isUnit]
      cases readMarks? remainder <;> rfl
    case isFalse large =>
      have isPlain : mark character = .plain character := by
        simp [mark, large]
      simp only [List.cons_append, List.nil_append, isPlain]
      exact readMarks?_ordinary large noQuote noBackslash remainder
  all_goals
    simp [readMarks?, shortEscape?, mark]
    cases readMarks? remainder <;> rfl

theorem readMarks?_printed (characters remainder : List Char) :
    readMarks? (characters.flatMap printCharacter ++ '"' :: remainder) =
      some (characters.map mark, remainder) := by
  induction characters with
  | nil => simp [readMarks?]
  | cons character characters induction =>
      rw [List.flatMap_cons, List.append_assoc, readMarks?_printCharacter,
        induction]
      rfl

private theorem assemble_unit {code : Nat} (small : code < 32)
    (remainder : List Mark) :
    assemble (.unit code :: remainder) =
      (assemble remainder).map (Char.ofNat code :: ·) := by
  have notHigh : ¬ 0xd800 ≤ code := by omega
  have notLow : ¬ 0xdc00 ≤ code := by omega
  rcases remainder with _ | ⟨first, remainder⟩
  · simp [assemble, notHigh]
  · cases first with
    | plain character =>
        simp only [assemble, notHigh, false_and, if_false]
        cases assemble remainder <;> rfl
    | unit low =>
        rw [assemble]
        simp only [notHigh, notLow, false_and, if_false]
        cases assemble (.unit low :: remainder) <;> rfl

theorem assemble_map_mark (characters : List Char) :
    assemble (characters.map mark) = some characters := by
  induction characters with
  | nil => rfl
  | cons character characters induction =>
      by_cases control : mark character = .plain character
      · simp [control, assemble, induction]
      · unfold mark at control
        split at control
        case isTrue special =>
          have isUnit : mark character = .unit character.toNat :=
            if_pos special
          simp [isUnit, assemble_unit special.1, induction]
        case isFalse => exact absurd rfl control

theorem readText?_printed (text : String) (remainder : List Char) :
    readText? (text.toList.flatMap printCharacter ++ '"' :: remainder) =
      some (some text, remainder) := by
  simp [readText?, readMarks?_printed, assemble_map_mark]

/-! ## Numbers -/

/-- Whether a text cannot be taken for the continuation of a number. -/
def endsNumber : List Char → Bool
  | [] => true
  | head :: _ => !head.isDigit && head ≠ '.' && head ≠ 'e' && head ≠ 'E'

private theorem ofNat_eq_cons (number : Nat) :
    ∃ digit digits, Decimal.ofNat number = digit :: digits ∧
      digit.isDigit = true := by
  obtain ⟨digit, digits, split⟩ := List.exists_cons_of_ne_nil
    (show Decimal.ofNat number ≠ [] from Nat.toDigits_ne_nil)
  have first : digit ∈ Decimal.ofNat number := by
    rw [split]
    exact List.mem_cons_self
  exact ⟨digit, digits, split, Decimal.isDigit_of_mem_ofNat first⟩

private theorem ofNat_head_zero {number : Nat}
    (leading : (Decimal.ofNat number).head? = some '0') :
    Decimal.ofNat number = ['0'] := by
  induction number using Nat.strongRecOn with
  | _ number induction =>
      by_cases small : number < 10
      · simp only [Decimal.ofNat, Nat.toDigits_of_lt_base small,
          List.head?_cons, Option.some.injEq] at leading ⊢
        rw [leading]
      · have split : Decimal.ofNat number =
            Decimal.ofNat (number / 10) ++ [(number % 10).digitChar] :=
          Nat.toDigits_of_base_le (by decide) (by omega)
        have leadingFront : (Decimal.ofNat (number / 10)).head? = some '0' := by
          rw [split, List.head?_append] at leading
          cases front : (Decimal.ofNat (number / 10)).head? with
          | none => exact absurd (List.head?_eq_none_iff.mp front) Nat.toDigits_ne_nil
          | some character => simpa [front] using leading
        have front := induction (number / 10) (by omega) leadingFront
        have isZero : number / 10 = 0 := by
          have value := Decimal.value_ofNat (number / 10)
          rw [front] at value
          exact value.symm
        omega

private theorem endsNumber_head {character : Char} {remainder : List Char}
    (ends : endsNumber (character :: remainder) = true) :
    character.isDigit = false ∧ character ≠ '.' ∧ character ≠ 'e' ∧
      character ≠ 'E' := by
  simpa [endsNumber, and_assoc] using ends

private theorem takeWhile_digits {digits remainder : List Char}
    (allDigits : ∀ character ∈ digits, character.isDigit = true)
    (ends : endsNumber remainder = true) :
    (digits ++ remainder).takeWhile Char.isDigit = digits ∧
      (digits ++ remainder).dropWhile Char.isDigit = remainder := by
  rw [List.takeWhile_append_of_pos allDigits,
    List.dropWhile_append_of_pos allDigits]
  cases remainder with
  | nil => simp
  | cons character remainder => simp [(endsNumber_head ends).1]

private theorem readScale?_none {source : List Char}
    (ends : endsNumber source = true) :
    readScale? source = some (none, source) := by
  cases source with
  | nil => rfl
  | cons character source =>
      obtain ⟨-, noPoint, noSmall, noLarge⟩ := endsNumber_head ends
      unfold readScale?
      split <;> simp_all

theorem readNumber_printed (negative : Bool) (number : Nat)
    {remainder : List Char} (ends : endsNumber remainder = true) :
    readNumber negative (Decimal.ofNat number ++ remainder) =
      (.number negative number none, remainder) := by
  have areDigits (character : Char)
      (member : character ∈ Decimal.ofNat number) : character.isDigit = true :=
    Decimal.isDigit_of_mem_ofNat member
  obtain ⟨digits, afterDigits⟩ := takeWhile_digits areDigits ends
  have nonempty : Decimal.ofNat number ≠ [] := Nat.toDigits_ne_nil
  have noLeadingZero : ¬ ((Decimal.ofNat number).head? = some '0' ∧
      Decimal.ofNat number ≠ ['0']) := fun ⟨leading, more⟩ =>
    more (ofNat_head_zero leading)
  simp only [readNumber, digits, afterDigits, nonempty, noLeadingZero,
    or_self, if_false, readScale?_none ends, Decimal.value_ofNat]

/-! ## Values -/

theorem skipBlanks_of_head {character : Char} {source : List Char}
    (visible : isBlank character = false) :
    skipBlanks (character :: source) = character :: source := by
  simp [skipBlanks, visible]

private theorem isBlank_of_isDigit {character : Char}
    (digit : character.isDigit = true) : isBlank character = false := by
  have visible : character ≠ ' ' ∧ character ≠ '\t' ∧ character ≠ '\n' ∧
      character ≠ '\r' := by
    refine ⟨?_, ?_, ?_, ?_⟩ <;> rintro rfl <;> exact absurd digit (by decide)
  simp [isBlank, visible]

private theorem readValue_digit (fuel : Nat) {character : Char}
    {source : List Char} (digit : character.isDigit = true) :
    readValue (fuel + 1) (character :: source) =
      readNumber false (character :: source) := by
  rw [readValue, skipBlanks_of_head (isBlank_of_isDigit digit)]
  split <;> first | rfl | simp_all

/-- The printed form of a plain value begins with a character that is neither
blank nor the end of an array. -/
private theorem print_head {value : Json} (isPlain : plain value = true) :
    ∃ character source, print value = character :: source ∧
      isBlank character = false ∧ character ≠ ']' := by
  cases value with
  | null => exact ⟨'n', _, rfl, by decide, by decide⟩
  | bool value =>
      cases value
      · exact ⟨'f', _, rfl, by decide, by decide⟩
      · exact ⟨'t', _, rfl, by decide, by decide⟩
  | number negative whole scale =>
      cases negative with
      | true =>
          exact ⟨'-', _, by simp only [print]; rfl, by decide, by decide⟩
      | false =>
          obtain ⟨digit, digits, split, isDigit⟩ := ofNat_eq_cons whole
          refine ⟨digit, _, by simp only [print, split]; rfl,
            isBlank_of_isDigit isDigit, ?_⟩
          rintro rfl
          exact absurd isDigit (by decide)
  | string text =>
      exact ⟨'"', _, by simp only [print, printText]; rfl, by decide, by decide⟩
  | array elements =>
      cases elements <;>
        exact ⟨'[', _, by simp only [print]; rfl, by decide, by decide⟩
  | object members =>
      cases members <;>
        exact ⟨'{', _, by simp only [print]; rfl, by decide, by decide⟩
  | broken => simp [plain] at isPlain

private theorem endsNumber_printElements (elements : List Json)
    (source : List Char) :
    endsNumber (printElements elements ++ source) = true := by
  cases elements <;> simp [printElements, endsNumber]

private theorem endsNumber_printMembers
    (members : List (Option String × Json)) (source : List Char) :
    endsNumber (printMembers members ++ source) = true := by
  cases members <;> simp [printMembers, endsNumber]

mutual

theorem readValue_print : ∀ (value : Json) (fuel : Nat) (source : List Char),
    plain value = true → (print value).length ≤ fuel →
    endsNumber source = true →
    readValue fuel (print value ++ source) = (value, source)
  | value, 0, _, isPlain, enough, _ => by
      obtain ⟨_, _, split, _⟩ := print_head isPlain
      simp [split] at enough
  | .null, fuel + 1, source, _, _, _ => by
      simp [print, readValue, skipBlanks, isBlank, readWord]
  | .bool true, fuel + 1, source, _, _, _ => by
      simp [print, readValue, skipBlanks, isBlank, readWord]
  | .bool false, fuel + 1, source, _, _, _ => by
      simp [print, readValue, skipBlanks, isBlank, readWord]
  | .number negative whole none, fuel + 1, source, _, _, ends => by
      cases negative with
      | true =>
          simp [print, readValue, skipBlanks, isBlank,
            readNumber_printed true whole ends]
      | false =>
          have read := readNumber_printed false whole ends
          obtain ⟨digit, digits, split, isDigit⟩ := ofNat_eq_cons whole
          simp only [print, Bool.false_eq_true, if_false, List.nil_append,
            List.append_nil]
          rw [split, List.cons_append] at read ⊢
          rw [readValue_digit fuel isDigit, read]
  | .number _ _ (some _), _ + 1, _, isPlain, _, _ => by
      simp [plain] at isPlain
  | .string (some text), fuel + 1, source, _, _, _ => by
      simp [print, printText, readValue, skipBlanks, isBlank,
        readText?_printed]
  | .string none, _ + 1, _, isPlain, _, _ => by simp [plain] at isPlain
  | .array [], fuel + 1, source, _, _, _ => by
      simp [print, readValue, skipBlanks, isBlank]
  | .array (element :: elements), fuel + 1, source, isPlain, enough, _ => by
      simp only [plain, elementsPlain, Bool.and_eq_true] at isPlain
      have read := readElements_print element elements fuel source isPlain.1
        isPlain.2 (by simpa [print] using enough)
      obtain ⟨character, tail, split, visible, notEnd⟩ := print_head isPlain.1
      simp only [print, List.cons_append, List.append_assoc] at read ⊢
      rw [readValue, skipBlanks_of_head (by decide)]
      rw [split, List.cons_append] at read ⊢
      simp only [skipBlanks_of_head visible]
      split
      case h_1 equality =>
        cases equality
        exact absurd rfl notEnd
      case h_2 => rw [read]
  | .object [], fuel + 1, source, _, _, _ => by
      simp [print, readValue, skipBlanks, isBlank]
  | .object ((none, _) :: _), _ + 1, _, isPlain, _, _ => by
      simp [plain, membersPlain] at isPlain
  | .object ((some name, value) :: members), fuel + 1, source, isPlain,
      enough, _ => by
      simp only [plain, membersPlain, Option.isSome_some, Bool.true_and,
        Bool.and_eq_true] at isPlain
      have read := readMembers_print name value members fuel source isPlain.1
        isPlain.2 (by simpa [print] using enough)
      simp only [print, Option.getD_some, printText, List.cons_append,
        List.append_assoc] at read ⊢
      rw [readValue, skipBlanks_of_head (by decide)]
      simp only [skipBlanks_of_head (by decide : isBlank '"' = false)]
      split
      case h_1 equality => cases equality
      case h_2 => rw [read]
  | .broken, _ + 1, _, isPlain, _, _ => by simp [plain] at isPlain

theorem readElements_print : ∀ (element : Json) (elements : List Json)
    (fuel : Nat) (source : List Char), plain element = true →
    elementsPlain elements = true →
    (print element ++ printElements elements).length ≤ fuel →
    readElements fuel (print element ++ printElements elements ++ source) =
      (element :: elements, source)
  | element, _, 0, _, isPlain, _, enough => by
      obtain ⟨_, _, split, _⟩ := print_head isPlain
      simp [split] at enough
  | element, [], fuel + 1, source, isPlain, _, enough => by
      have read := readValue_print element fuel (']' :: source) isPlain
        (by simp [printElements] at enough; omega) rfl
      simp [readElements, printElements, read, skipBlanks, isBlank]
  | element, next :: elements, fuel + 1, source, isPlain, othersPlain,
      enough => by
      simp only [elementsPlain, Bool.and_eq_true] at othersPlain
      simp only [printElements, List.length_append, List.length_cons]
        at enough
      have read := readValue_print element fuel
        (printElements (next :: elements) ++ source) isPlain (by omega)
        (endsNumber_printElements _ _)
      have others := readElements_print next elements fuel source
        othersPlain.1 othersPlain.2 (by simp; omega)
      rw [List.append_assoc] at others
      rw [List.append_assoc, readElements, read]
      simp [printElements, skipBlanks, isBlank, others]

theorem readMembers_print : ∀ (name : String) (value : Json)
    (members : List (Option String × Json)) (fuel : Nat)
    (source : List Char), plain value = true → membersPlain members = true →
    (printText name ++ ':' :: print value ++
      printMembers members).length ≤ fuel →
    readMembers fuel (printText name ++ ':' :: print value ++
      printMembers members ++ source) = ((some name, value) :: members, source)
  | name, _, _, 0, _, _, _, enough => by simp [printText] at enough
  | name, value, [], fuel + 1, source, isPlain, _, enough => by
      have read := readValue_print value fuel ('}' :: source) isPlain
        (by simp [printMembers, printText] at enough; omega) rfl
      simp [readMembers, printMembers, printText, skipBlanks, isBlank,
        readText?_printed, read]
  | name, value, (none, _) :: _, _ + 1, _, _, othersPlain, _ => by
      simp [membersPlain] at othersPlain
  | name, value, (some next, other) :: members, fuel + 1, source, isPlain,
      othersPlain, enough => by
      simp only [membersPlain, Option.isSome_some, Bool.true_and,
        Bool.and_eq_true] at othersPlain
      simp only [printMembers, Option.getD_some, List.length_append,
        List.length_cons] at enough
      have read := readValue_print value fuel
        (printMembers ((some next, other) :: members) ++ source) isPlain
        (by omega) (endsNumber_printMembers _ _)
      have others := readMembers_print next other members fuel source
        othersPlain.1 othersPlain.2 (by simp; omega)
      rw [List.append_assoc, List.append_assoc, List.cons_append] at others
      simp only [List.append_assoc, List.cons_append, List.nil_append,
        printText, readMembers,
        skipBlanks_of_head (by decide : isBlank '"' = false),
        readText?_printed]
      simp only [skipBlanks_of_head (by decide : isBlank ':' = false), read]
      simp [printMembers, skipBlanks, isBlank, others]

end

/-- The reader finds a printed value at the front of a text. -/
theorem readFront_print {value : Json} (isPlain : plain value = true)
    {source : List Char} (ends : endsNumber source = true) :
    readFront (print value ++ source) = (value, source) :=
  readValue_print value _ source isPlain (by simp; omega) ends

/-- Printed text is decoded as the value itself would be. -/
theorem decodeText_render {α : Type} (decode : Json → Except Defect α)
    {value : Json} (isPlain : plain value = true) :
    decodeText decode value.render = decode value := by
  have read := @readFront_print value isPlain [] rfl
  rw [List.append_nil] at read
  simp only [decodeText, render, String.toList_ofList, read]
  cases decode value <;> rfl

end Json

end BatchRelay
