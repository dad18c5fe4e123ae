/-!
# Calendar dates

Days counted from 1 January 1970 and dates of the Gregorian calendar, extended
to all years.  The count goes through years that begin in March, so that the
leap day is the last day of its year; 146097 days make four centuries.
-/

namespace BatchRelay

/-- A date of the calendar. -/
structure CivilDate where
  year : Int
  month : Nat
  day : Nat
  deriving DecidableEq

namespace CivilDate

/-- Whether a year has a leap day. -/
def isLeap (year : Int) : Bool :=
  year % 4 = 0 && (year % 100 ≠ 0 || year % 400 = 0)

/-- Number of days of a month. -/
def monthLength (year : Int) (month : Nat) : Nat :=
  if month = 2 then
    if isLeap year then 29 else 28
  else if month = 4 ∨ month = 6 ∨ month = 9 ∨ month = 11 then
    30
  else
    31

/-- Whether a date exists. -/
def exists? (date : CivilDate) : Bool :=
  1 ≤ date.month && date.month ≤ 12 && 1 ≤ date.day &&
    date.day ≤ monthLength date.year date.month

/-- The number of days from 1 January 1970 to a date. -/
def toDays (date : CivilDate) : Int :=
  let year := if date.month ≤ 2 then date.year - 1 else date.year
  let month : Int := if date.month ≤ 2 then date.month + 9 else date.month - 3
  let era := year / 400
  let yearOfEra := year % 400
  let dayOfYear := (153 * month + 2) / 5 + date.day - 1
  let dayOfEra := yearOfEra * 365 + yearOfEra / 4 - yearOfEra / 100 + dayOfYear
  era * 146097 + dayOfEra - 719468

/-- The date that comes so many days after 1 January 1970. -/
def ofDays (days : Int) : CivilDate :=
  let shifted := days + 719468
  let era := shifted / 146097
  let dayOfEra := shifted % 146097
  let yearOfEra :=
    (dayOfEra - dayOfEra / 1460 + dayOfEra / 36524 - dayOfEra / 146096) / 365
  let dayOfYear := dayOfEra - (365 * yearOfEra + yearOfEra / 4 - yearOfEra / 100)
  let month := (5 * dayOfYear + 2) / 153
  let day := dayOfYear - (153 * month + 2) / 5 + 1
  let year := yearOfEra + era * 400
  if month < 10 then
    ⟨year, (month + 3).toNat, day.toNat⟩
  else
    ⟨year + 1, (month - 9).toNat, day.toNat⟩

end CivilDate

end BatchRelay
