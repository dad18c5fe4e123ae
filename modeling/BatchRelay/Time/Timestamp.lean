import BatchRelay.Text.Decimal
import BatchRelay.Time.Civil
import BatchRelay.Time.Instant

/-!
# Timestamps

The Internet date and time format.  Instants are written in universal time with
three places after the point; a leap second is second 60.  Years outside 0 to
9999 are written with a sign and are not read back.

Reading takes four digits for the year and two for every other field, any
number of places after a point, and an offset with a colon.  Second 60 is taken
in every minute.
-/

namespace BatchRelay

namespace Timestamp

/-- A year in four digits, or with its sign when it needs more. -/
def printYear (year : Int) : List Char :=
  if 0 ≤ year ∧ year ≤ 9999 then
    Decimal.padded 4 year.toNat
  else
    (if year < 0 then '-' else '+') :: Decimal.padded 4 year.natAbs

/-- A text for an instant, in whole milliseconds. -/
def print (instant : Instant) : List Char :=
  let date := CivilDate.ofDays (instant.seconds / Instant.dayLength)
  let second := instant.secondOfDay.toNat
  let leap := instant.nanos / Instant.perSecond
  let millis := instant.nanos % Instant.perSecond / 1000000
  printYear date.year ++ '-' :: Decimal.padded 2 date.month ++
    '-' :: Decimal.padded 2 date.day ++ 'T' :: Decimal.padded 2 (second / 3600) ++
    ':' :: Decimal.padded 2 (second / 60 % 60) ++
    ':' :: Decimal.padded 2 (second % 60 + leap) ++
    '.' :: Decimal.padded 3 millis ++ ['Z']

/-- Takes a fixed character off the front of a text. -/
def expect? (character : Char) : List Char → Option (List Char)
  | head :: tail => if head = character then some tail else none
  | [] => none

/-- The nanoseconds behind the digits of a fraction; digits after the ninth do
not count. -/
def fractionNanos (digits : List Char) : Nat :=
  let kept := digits.take 9
  Decimal.value kept * Nat.pow 10 (9 - kept.length)

/-- A fraction of a second, if there is one. -/
def readFraction? : List Char → Option (Nat × List Char)
  | '.' :: source =>
      let digits := source.takeWhile Char.isDigit
      if digits = [] then none
      else some (fractionNanos digits, source.dropWhile Char.isDigit)
  | source => some (0, source)

/-- The sign of an offset. -/
def readSign? : List Char → Option (Int × List Char)
  | '+' :: source => some (1, source)
  | '-' :: source => some (-1, source)
  | '\u2212' :: source => some (-1, source)
  | _ => none

/-- The seconds by which local time is ahead of universal time. -/
def readOffset? (source : List Char) : Option (Int × List Char) :=
  match source with
  | 'Z' :: source | 'z' :: source => some (0, source)
  | source => do
      let (sign, source) ← readSign? source
      let (hours, source) ← Decimal.take? 2 source
      let source ← expect? ':' source
      let (minutes, source) ← Decimal.take? 2 source
      if hours ≤ 23 ∧ minutes ≤ 59 then
        return (sign * (hours * 3600 + minutes * 60), source)
      else
        none

/-- The letter or blank between the date and the time. -/
def readDivider? : List Char → Option (List Char)
  | 'T' :: source | 't' :: source | ' ' :: source => some source
  | _ => none

/-- A date in digits. -/
def readDate? (source : List Char) : Option (CivilDate × List Char) := do
  let (year, source) ← Decimal.take? 4 source
  let source ← expect? '-' source
  let (month, source) ← Decimal.take? 2 source
  let source ← expect? '-' source
  let (day, source) ← Decimal.take? 2 source
  let date : CivilDate := ⟨year, month, day⟩
  if date.exists? then return (date, source) else none

/-- The seconds since midnight and the nanoseconds of a time in digits. -/
def readTime? (source : List Char) : Option ((Nat × Nat) × List Char) := do
  let (hour, source) ← Decimal.take? 2 source
  let source ← expect? ':' source
  let (minute, source) ← Decimal.take? 2 source
  let source ← expect? ':' source
  let (second, source) ← Decimal.take? 2 source
  let (nanos, source) ← readFraction? source
  if hour ≤ 23 ∧ minute ≤ 59 ∧ second ≤ 60 then
    let start := hour * 3600 + minute * 60
    if second = 60 then
      return ((start + 59, nanos + Instant.perSecond), source)
    else
      return ((start + second, nanos), source)
  else
    none

/-- The instant that a whole text stands for. -/
def read? (source : List Char) : Option Instant := do
  let (date, source) ← readDate? source
  let source ← readDivider? source
  let ((second, nanos), source) ← readTime? source
  let (offset, source) ← readOffset? source
  if source = [] then
    return ⟨date.toDays * Instant.dayLength + second - offset, nanos⟩
  else
    none

end Timestamp

end BatchRelay
