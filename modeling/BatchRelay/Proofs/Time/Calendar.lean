import BatchRelay.Time.Civil

/-!
# Dates and days

Every number of days falls on a date that exists, and counting the days up to that
date gives the number back.  Four centuries that begin in March all have the same
days, so the day of the four centuries tells how many of their years are over, and
the day of the year tells how many of its months are.
-/

namespace BatchRelay

namespace CivilDate

/-- The years of four centuries that are over on one of their days. -/
def yearOfEra (dayOfEra : Int) : Int :=
  (dayOfEra - dayOfEra / 1460 + dayOfEra / 36524 - dayOfEra / 146096) / 365

/-- The days of four centuries before one of their years. -/
def daysBeforeYear (year : Int) : Int :=
  365 * year + year / 4 - year / 100

/-- The months of a year from March on that are over on one of its days. -/
def monthOfYear (dayOfYear : Int) : Int :=
  (5 * dayOfYear + 2) / 153

/-- The days of a year from March on before one of its months. -/
def daysBeforeMonth (month : Int) : Int :=
  (153 * month + 2) / 5

/-! ## Years -/

section Year

variable {dayOfEra : Int}

/-- All centuries but the last have the same days. -/
private theorem yearOfEra_century (lower : 0 ≤ dayOfEra)
    (upper : dayOfEra < 146096) :
    yearOfEra dayOfEra / 100 = dayOfEra / 36524 := by
  have centuries : dayOfEra / 36524 = 0 ∨ dayOfEra / 36524 = 1 ∨
      dayOfEra / 36524 = 2 ∨ dayOfEra / 36524 = 3 := by
    omega
  have beforeLast : dayOfEra / 146096 = 0 := by omega
  unfold yearOfEra
  rw [beforeLast]
  obtain century | century | century | century := centuries <;>
    rw [century] <;> omega

/-- The year of a day that is not the last of the four centuries, in terms of the
four years to which it belongs. -/
private theorem yearOfEra_bounds (lower : 0 ≤ dayOfEra)
    (upper : dayOfEra < 146096) :
    365 * yearOfEra dayOfEra ≤
        dayOfEra - dayOfEra / 1460 + yearOfEra dayOfEra / 100 ∧
      dayOfEra - dayOfEra / 1460 + yearOfEra dayOfEra / 100 <
        365 * yearOfEra dayOfEra + 365 := by
  have beforeLast : dayOfEra / 146096 = 0 := by omega
  rw [yearOfEra_century lower upper]
  unfold yearOfEra
  rw [beforeLast]
  omega

theorem yearOfEra_range (lower : 0 ≤ dayOfEra) (upper : dayOfEra < 146097) :
    0 ≤ yearOfEra dayOfEra ∧ yearOfEra dayOfEra < 400 := by
  unfold yearOfEra
  omega

/-- A day lies in its year. -/
theorem daysBeforeYear_le (lower : 0 ≤ dayOfEra) (upper : dayOfEra < 146097) :
    daysBeforeYear (yearOfEra dayOfEra) ≤ dayOfEra ∧
      dayOfEra ≤ daysBeforeYear (yearOfEra dayOfEra) + 365 := by
  by_cases last : dayOfEra = 146096
  · subst last
    decide
  · have century := yearOfEra_century lower (by omega)
    have bounds := yearOfEra_bounds lower (by omega)
    unfold daysBeforeYear
    omega

/-- A year with a last day of its own has its leap day in the following
February. -/
theorem isLeap_of_last (lower : 0 ≤ dayOfEra) (upper : dayOfEra < 146097)
    (last : dayOfEra = daysBeforeYear (yearOfEra dayOfEra) + 365) :
    isLeap (yearOfEra dayOfEra + 1) = true := by
  by_cases end? : dayOfEra = 146096
  · subst end?
    decide
  · have century := yearOfEra_century lower (by omega)
    have bounds := yearOfEra_bounds lower (by omega)
    have range := yearOfEra_range lower upper
    unfold daysBeforeYear at last
    have remainders : yearOfEra dayOfEra % 4 = 0 ∨ yearOfEra dayOfEra % 4 = 1 ∨
        yearOfEra dayOfEra % 4 = 2 ∨ yearOfEra dayOfEra % 4 = 3 := by
      omega
    have four : (yearOfEra dayOfEra + 1) % 4 = 0 := by
      obtain remainder | remainder | remainder | remainder := remainders <;> omega
    have century : (yearOfEra dayOfEra + 1) % 100 ≠ 0 := by omega
    simp [isLeap, four, century]

theorem isLeap_add_era (year era : Int) :
    isLeap (year + era * 400) = isLeap year := by
  have four : (year + era * 400) % 4 = year % 4 := by omega
  have century : (year + era * 400) % 100 = year % 100 := by omega
  have cycle : (year + era * 400) % 400 = year % 400 := by omega
  rw [isLeap, four, century, cycle, isLeap]

end Year

/-! ## Months -/

section Month

variable {dayOfYear : Int}

theorem monthOfYear_range (lower : 0 ≤ dayOfYear) (upper : dayOfYear ≤ 365) :
    0 ≤ monthOfYear dayOfYear ∧ monthOfYear dayOfYear < 12 := by
  unfold monthOfYear
  omega

/-- A day lies in its month. -/
theorem daysBeforeMonth_le (dayOfYear : Int) :
    daysBeforeMonth (monthOfYear dayOfYear) ≤ dayOfYear ∧
      dayOfYear < daysBeforeMonth (monthOfYear dayOfYear + 1) := by
  unfold daysBeforeMonth monthOfYear
  omega

/-- The months from March to December have the days between their beginnings. -/
theorem monthLength_add_three (year : Int) {month : Nat} (before : month < 10) :
    (monthLength year (month + 3) : Int) =
      daysBeforeMonth (month + 1) - daysBeforeMonth month := by
  have days : ∀ month < 10, daysBeforeMonth ((month : Nat) + 1) - daysBeforeMonth month =
      if month + 3 = 4 ∨ month + 3 = 6 ∨ month + 3 = 9 ∨ month + 3 = 11 then 30
      else 31 := by
    decide
  rw [days month before, monthLength, if_neg (by omega)]
  split <;> rfl

end Month

/-! ## Dates -/

/-- Whether years, months and days, all counted from zero and from the beginning of
March, make a day of four centuries. -/
structure IsDay (year : Int) (month day : Nat) : Prop where
  inEra : 0 ≤ year ∧ year < 400
  isMonth : month < 12
  inMonth : (day : Int) < daysBeforeMonth (month + 1) - daysBeforeMonth month
  inYear : daysBeforeMonth month + day ≤ 365
  leap : daysBeforeMonth month + day = 365 → isLeap (year + 1) = true

/-- The date of a day of the four centuries of an era. -/
def ofParts (era year : Int) (month day : Nat) : CivilDate :=
  if month < 10 then ⟨year + era * 400, month + 3, day + 1⟩
  else ⟨year + era * 400 + 1, month - 9, day + 1⟩

section Date

variable {era year : Int} {month day : Nat}

theorem toDays_ofParts (isDay : IsDay year month day) :
    (ofParts era year month day).toDays =
      era * 146097 + (daysBeforeYear year + daysBeforeMonth month + day) - 719468 := by
  have range := isDay.inEra
  have monthRange := isDay.isMonth
  unfold ofParts daysBeforeYear daysBeforeMonth
  split
  case isTrue spring =>
    simp only [toDays, if_neg (by omega : ¬month + 3 ≤ 2)]
    omega
  case isFalse winter =>
    simp only [toDays, if_pos (by omega : month - 9 ≤ 2)]
    omega

theorem exists?_ofParts (isDay : IsDay year month day) :
    (ofParts era year month day).exists? = true := by
  have inMonth := isDay.inMonth
  have inYear := isDay.inYear
  unfold ofParts
  split
  case isTrue spring =>
    have length := monthLength_add_three (year + era * 400) spring
    simp only [exists?, Bool.and_eq_true, decide_eq_true_eq]
    omega
  case isFalse winter =>
    have months : month = 10 ∨ month = 11 := by
      have range := isDay.isMonth
      omega
    simp only [exists?, Bool.and_eq_true, decide_eq_true_eq]
    obtain january | february := months
    · subst january
      have length : monthLength (year + era * 400 + 1) (10 - 9) = 31 := rfl
      have days : (day : Int) < 31 := inMonth
      omega
    · subst february
      have days : 337 + (day : Int) ≤ 365 := inYear
      have leap : 337 + (day : Int) = 365 → isLeap (year + 1) = true := isDay.leap
      have sameLeap : isLeap (year + era * 400 + 1) = isLeap (year + 1) := by
        rw [Int.add_right_comm, isLeap_add_era]
      by_cases last : 337 + (day : Int) = 365
      · have length : monthLength (year + era * 400 + 1) (11 - 9) = 29 := by
          rw [monthLength, if_pos rfl, sameLeap, leap last, if_pos rfl]
        omega
      · have length : 28 ≤ monthLength (year + era * 400 + 1) (11 - 9) := by
          rw [monthLength, if_pos rfl]
          split <;> omega
        omega

/-- Every day has its year, month and day in an era. -/
theorem ofDays_eq_ofParts (days : Int) :
    ∃ (era year : Int) (month day : Nat),
      IsDay year month day ∧
        days = era * 146097 +
          (daysBeforeYear year + daysBeforeMonth month + day) - 719468 ∧
        ofDays days = ofParts era year month day := by
  let dayOfEra := (days + 719468) % 146097
  let era := (days + 719468) / 146097
  let year := yearOfEra dayOfEra
  let dayOfYear := dayOfEra - daysBeforeYear year
  let month := monthOfYear dayOfYear
  let day := dayOfYear - daysBeforeMonth month
  have lower : 0 ≤ dayOfEra := by omega
  have upper : dayOfEra < 146097 := by omega
  have inYear : daysBeforeYear year ≤ dayOfEra ∧
      dayOfEra ≤ daysBeforeYear year + 365 :=
    daysBeforeYear_le lower upper
  have months : 0 ≤ month ∧ month < 12 := monthOfYear_range (by omega) (by omega)
  have inMonth : daysBeforeMonth month ≤ dayOfYear ∧
      dayOfYear < daysBeforeMonth (month + 1) :=
    daysBeforeMonth_le dayOfYear
  have leap : dayOfEra = daysBeforeYear year + 365 → isLeap (year + 1) = true :=
    isLeap_of_last lower upper
  have monthNat : (month.toNat : Int) = month := Int.toNat_of_nonneg months.1
  have dayNat : (day.toNat : Int) = day := Int.toNat_of_nonneg (by omega)
  refine ⟨era, year, month.toNat, day.toNat, ?_, ?_, ?_⟩
  · constructor
    · exact yearOfEra_range lower upper
    · omega
    · rw [monthNat, dayNat]
      omega
    · rw [monthNat, dayNat]
      omega
    · rw [monthNat, dayNat]
      intro last
      exact leap (by omega)
  · rw [monthNat, dayNat]
    omega
  · have isDate : ofDays days =
        if month < 10 then ⟨year + era * 400, (month + 3).toNat, (day + 1).toNat⟩
        else ⟨year + era * 400 + 1, (month - 9).toNat, (day + 1).toNat⟩ := rfl
    rw [isDate, ofParts]
    have isDay : (day + 1).toNat = day.toNat + 1 := by omega
    by_cases spring : month < 10
    · rw [if_pos spring, if_pos (by omega), isDay]
      have isMonth : (month + 3).toNat = month.toNat + 3 := by omega
      rw [isMonth]
    · rw [if_neg spring, if_neg (by omega), isDay]
      have isMonth : (month - 9).toNat = month.toNat - 9 := by omega
      rw [isMonth]

/-- Every day falls on a date that exists. -/
theorem exists?_ofDays (days : Int) : (ofDays days).exists? = true := by
  obtain ⟨era, year, month, day, isDay, -, date⟩ := ofDays_eq_ofParts days
  rw [date]
  exact exists?_ofParts isDay

/-- Counting the days up to the date of a day gives the day back. -/
theorem toDays_ofDays (days : Int) : (ofDays days).toDays = days := by
  obtain ⟨era, year, month, day, isDay, total, date⟩ := ofDays_eq_ofParts days
  rw [date, toDays_ofParts isDay, ← total]

end Date

end CivilDate

end BatchRelay
