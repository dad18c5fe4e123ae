import Mathlib.Algebra.Group.Nat.Defs
import BatchRelay.Proofs.Time.Calendar
import BatchRelay.Time.Timestamp

/-!
# Timestamps are read back

Every field of a timestamp has a fixed width, so each is read off the front of what
follows.  An instant whose year has four digits is read back to the millisecond; one
inside a leap second must lie in the last second of its minute, since second 60
belongs to no other.
-/

namespace BatchRelay

namespace Decimal

theorem length_padded {width number : Nat} (positive : 0 < width)
    (small : number < 10 ^ width) : (padded width number).length = width := by
  have short : (ofNat number).length ≤ width :=
    (Nat.length_toDigits_le_iff (by decide) positive).2 small
  rw [padded, List.length_append, List.length_replicate]
  omega

theorem value_padded (width number : Nat) : value (padded width number) = number := by
  have zeros : Nat.ofDigitChars 10
      (List.replicate (width - (ofNat number).length) '0') 0 = 0 := by
    rw [Nat.ofDigitChars_replicate_zero, Nat.mul_zero]
  rw [value, padded, Nat.ofDigitChars_append, zeros]
  exact value_ofNat number

theorem isDigit_of_mem_padded {width number : Nat} {character : Char}
    (member : character ∈ padded width number) : character.isDigit = true := by
  rw [padded, List.mem_append] at member
  obtain zero | digit := member
  · rw [(List.mem_replicate.1 zero).2]
    rfl
  · exact isDigit_of_mem_ofNat digit

/-- A numeral of fixed width is read off the front of a text. -/
theorem take?_padded {width number : Nat} (positive : 0 < width)
    (small : number < 10 ^ width) (rest : List Char) :
    take? width (padded width number ++ rest) = some (number, rest) := by
  have length := length_padded positive small
  have digits : (padded width number).all Char.isDigit = true :=
    List.all_eq_true.2 fun _ member => isDigit_of_mem_padded member
  have front : (padded width number ++ rest).take width = padded width number :=
    List.take_left' length
  have back : (padded width number ++ rest).drop width = rest :=
    List.drop_left' length
  unfold take?
  simp only [front, back, length, digits, value_padded, and_self, if_true]

end Decimal

namespace Instant

/-- The date of an instant. -/
def date (instant : Instant) : CivilDate :=
  CivilDate.ofDays (instant.seconds / dayLength)

/-- Whether an instant has a year of four digits and lies inside a leap second at
most at the end of a minute. -/
structure Writable (instant : Instant) : Prop where
  year : 0 ≤ instant.date.year ∧ instant.date.year ≤ 9999
  nanos : instant.nanos < perSecond ∨
    (instant.nanos < 2 * perSecond ∧ instant.seconds % 60 = 59)

end Instant

namespace Timestamp

@[simp] theorem expect?_cons (character : Char) (rest : List Char) :
    expect? character (character :: rest) = some rest := by
  simp [expect?]

/-- A date in digits, as a timestamp begins. -/
def printDate (date : CivilDate) : List Char :=
  printYear date.year ++ '-' :: Decimal.padded 2 date.month ++
    '-' :: Decimal.padded 2 date.day

/-- The digits of a time of day, as they follow in a timestamp. -/
def printTime (second leap millis : Nat) : List Char :=
  Decimal.padded 2 (second / 3600) ++ ':' :: Decimal.padded 2 (second / 60 % 60) ++
    ':' :: Decimal.padded 2 (second % 60 + leap) ++ '.' :: Decimal.padded 3 millis

theorem print_eq (instant : Instant) :
    print instant =
      printDate instant.date ++ 'T' ::
        printTime instant.secondOfDay.toNat (instant.nanos / Instant.perSecond)
          (instant.nanos % Instant.perSecond / 1000000) ++ ['Z'] := by
  simp [print, printDate, printTime, Instant.date]

theorem readDate?_printDate {date : CivilDate} (valid : date.exists? = true)
    (lower : 0 ≤ date.year) (upper : date.year ≤ 9999) (rest : List Char) :
    readDate? (printDate date ++ rest) = some (date, rest) := by
  have year : date.year.toNat < 10 ^ 4 := by omega
  have inRange := valid
  simp only [CivilDate.exists?, Bool.and_eq_true, decide_eq_true_eq] at inRange
  have month : date.month < 10 ^ 2 := by omega
  have day : date.day < 10 ^ 2 := by
    have length : CivilDate.monthLength date.year date.month ≤ 31 := by
      unfold CivilDate.monthLength
      split
      · split <;> omega
      · split <;> omega
    omega
  have sameYear : ((date.year.toNat : Nat) : Int) = date.year :=
    Int.toNat_of_nonneg lower
  simp [readDate?, printDate, printYear, lower, upper, sameYear, valid,
    Decimal.take?_padded _ year, Decimal.take?_padded _ month,
    Decimal.take?_padded _ day]

theorem fractionNanos_padded {millis : Nat} (small : millis < 10 ^ 3) :
    fractionNanos (Decimal.padded 3 millis) = millis * 1000000 := by
  have length := Decimal.length_padded (by decide) small
  have kept : (Decimal.padded 3 millis).take 9 = Decimal.padded 3 millis :=
    List.take_of_length_le (by omega)
  simp only [fractionNanos, kept, length, Decimal.value_padded]

/-- A fraction ends where its digits do. -/
theorem readFraction?_padded {millis : Nat} (small : millis < 10 ^ 3)
    (rest : List Char) :
    readFraction? ('.' :: (Decimal.padded 3 millis ++ 'Z' :: rest)) =
      some (millis * 1000000, 'Z' :: rest) := by
  have digits : ∀ character ∈ Decimal.padded 3 millis, character.isDigit = true :=
    fun _ => Decimal.isDigit_of_mem_padded
  have notEmpty : Decimal.padded 3 millis ≠ [] := by
    intro empty
    have length := Decimal.length_padded (by decide) small
    rw [empty] at length
    cases length
  have front : (Decimal.padded 3 millis ++ 'Z' :: rest).takeWhile Char.isDigit =
      Decimal.padded 3 millis := by
    rw [List.takeWhile_append_of_pos digits]
    exact List.append_nil _
  have back : (Decimal.padded 3 millis ++ 'Z' :: rest).dropWhile Char.isDigit =
      'Z' :: rest := by
    rw [List.dropWhile_append_of_pos digits]
    rfl
  simp only [readFraction?, front, back, if_neg notEmpty, fractionNanos_padded small]

/-- Second 60 is read as a leap second of the second before. -/
theorem readTime?_printTime {second leap millis : Nat} (inDay : second < 86400)
    (atEnd : leap = 0 ∨ (leap = 1 ∧ second % 60 = 59)) (small : millis < 10 ^ 3)
    (rest : List Char) :
    readTime? (printTime second leap millis ++ 'Z' :: rest) =
      some ((second, millis * 1000000 + leap * Instant.perSecond), 'Z' :: rest) := by
  have hour : second / 3600 < 10 ^ 2 := by omega
  have minute : second / 60 % 60 < 10 ^ 2 := by omega
  have ofMinute : second % 60 + leap < 10 ^ 2 := by omega
  have bounds : second / 3600 ≤ 23 ∧ second / 60 % 60 ≤ 59 ∧
      second % 60 + leap ≤ 60 := by
    omega
  have start : second / 3600 * 3600 + second / 60 % 60 * 60 + second % 60 = second := by
    omega
  simp only [readTime?, printTime, List.append_assoc, List.cons_append,
    Decimal.take?_padded (by decide) hour, Decimal.take?_padded (by decide) minute,
    Decimal.take?_padded (by decide) ofMinute, readFraction?_padded small, expect?_cons,
    Option.bind_eq_bind, Option.bind_some, if_pos bounds]
  obtain rfl | ⟨rfl, last⟩ := atEnd
  · rw [if_neg (by omega)]
    simp [start]
  · rw [if_pos (by omega)]
    have lastSecond : second / 3600 * 3600 + second / 60 % 60 * 60 + 59 = second := by
      omega
    simp [lastSecond]

/-- A timestamp stands for its instant to the millisecond. -/
theorem read?_print {instant : Instant} (writable : instant.Writable) :
    read? (print instant) = some instant.truncate := by
  have ofDay : 0 ≤ instant.secondOfDay ∧ instant.secondOfDay < 86400 := by
    unfold Instant.secondOfDay Instant.dayLength
    omega
  have second : ((instant.secondOfDay.toNat : Nat) : Int) = instant.secondOfDay :=
    Int.toNat_of_nonneg ofDay.1
  have nanos := writable.nanos
  have atEnd : instant.nanos / Instant.perSecond = 0 ∨
      (instant.nanos / Instant.perSecond = 1 ∧
        instant.secondOfDay.toNat % 60 = 59) := by
    unfold Instant.secondOfDay Instant.dayLength Instant.perSecond at *
    omega
  have millis : instant.nanos % Instant.perSecond / 1000000 < 10 ^ 3 := by
    unfold Instant.perSecond
    omega
  have seconds : instant.date.toDays * Instant.dayLength + instant.secondOfDay =
      instant.seconds := by
    rw [Instant.date, CivilDate.toDays_ofDays]
    unfold Instant.secondOfDay Instant.dayLength
    omega
  have kept : instant.nanos % Instant.perSecond / 1000000 * 1000000 +
      instant.nanos / Instant.perSecond * Instant.perSecond =
        instant.nanos / 1000000 * 1000000 := by
    unfold Instant.perSecond
    omega
  have valid : instant.date.exists? = true := CivilDate.exists?_ofDays _
  rw [print_eq, List.append_assoc, read?,
    readDate?_printDate valid writable.year.1 writable.year.2]
  simp only [List.cons_append, readDivider?, Option.bind_eq_bind, Option.bind_some,
    readTime?_printTime (by omega) atEnd millis, readOffset?, Int.sub_zero, if_true,
    second, seconds, kept]
  rfl

end Timestamp

end BatchRelay
