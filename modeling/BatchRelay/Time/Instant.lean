/-!
# Instants

An instant is a number of seconds since the beginning of 1970 and a number of
nanoseconds.  Inside a leap second the nanoseconds are a billion or more and
the seconds are those of the second before.
-/

namespace BatchRelay

structure Instant where
  /-- Whole seconds since the beginning of 1970. -/
  seconds : Int
  /-- Nanoseconds in the second; a billion or more inside a leap second. -/
  nanos : Nat
  deriving DecidableEq

namespace Instant

/-- Nanoseconds of one second. -/
def perSecond : Nat :=
  1000000000

/-- Seconds of one day. -/
def dayLength : Int :=
  86400

/-- The seconds since midnight. -/
def secondOfDay (instant : Instant) : Int :=
  instant.seconds % dayLength

/-- Whether an instant lies inside a leap second. -/
def inLeapSecond (instant : Instant) : Bool :=
  perSecond ≤ instant.nanos

/-- The nanoseconds from one instant to another.  A leap second in which either
of them lies is counted by the times of day alone: one second more when the
earlier time of day lies in it, one second less when the earlier time of day is
that of the later instant. -/
def since (later earlier : Instant) : Int :=
  let leap : Int :=
    if earlier.secondOfDay < later.secondOfDay ∧ earlier.inLeapSecond then 1
    else if later.secondOfDay < earlier.secondOfDay ∧ later.inLeapSecond then -1
    else 0
  (later.seconds - earlier.seconds + leap) * perSecond +
    (later.nanos - earlier.nanos)

/-- Whole milliseconds since the beginning of 1970. -/
def toMillis (instant : Instant) : Int :=
  instant.seconds * 1000 + instant.nanos / 1000000

/-- The instant with the part below a millisecond cut off. -/
def truncate (instant : Instant) : Instant :=
  { instant with nanos := instant.nanos / 1000000 * 1000000 }

end Instant

end BatchRelay
