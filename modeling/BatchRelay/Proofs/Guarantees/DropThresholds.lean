import BatchRelay.Proofs.Engine.Sweeps
import BatchRelay.Settings.Basic
import BatchRelay.Time.Civil

/-!
# Thresholds at the limits

A sweep asks about the routes that are at least as old as its threshold.  The
threshold is set as a number of 64 bits without a sign and taken as one with a
sign, and it becomes a duration in a narrower range.  So there are three kinds of
settings: those that are kept, those without a threshold, and those from which a
negative threshold is made.

An age is the difference of two instants, and inside a leap second such a
difference may be a second off.
-/

namespace BatchRelay

namespace Instant

/-- Nanoseconds since the beginning of 1970. -/
def toNanos (instant : Instant) : Int :=
  instant.seconds * perSecond + instant.nanos

/-- Whether an instant comes before another one. -/
def Precedes (earlier later : Instant) : Prop :=
  earlier.seconds < later.seconds ∨
    (earlier.seconds = later.seconds ∧ earlier.nanos < later.nanos)

/-- The instants of the calendar, from the first second of the year -262143 to the
last one of the year 262142. -/
structure InCalendar (instant : Instant) : Prop where
  first : -8334601228800 ≤ instant.seconds
  last : instant.seconds ≤ 8210266876799
  nanos : instant.nanos < 2 * perSecond

example : (CivilDate.mk (-262143) 1 1).toDays * dayLength = -8334601228800 ∧
    (CivilDate.mk 262142 12 31).toDays * dayLength + 86399 = 8210266876799 := by
  decide

/-- The leap second between two instants. -/
def leap (later earlier : Instant) : Int :=
  if earlier.secondOfDay < later.secondOfDay ∧ earlier.inLeapSecond then 1
  else if later.secondOfDay < earlier.secondOfDay ∧ later.inLeapSecond then -1
  else 0

variable {now submitted : Instant}

theorem since_eq (later earlier : Instant) :
    later.since earlier =
      later.toNanos - earlier.toNanos + later.leap earlier * perSecond := by
  change (later.seconds - earlier.seconds + later.leap earlier) * perSecond +
    (later.nanos - earlier.nanos) = _
  rw [toNanos, toNanos]
  simp only [Int.add_mul, Int.sub_mul]
  omega

theorem leap_bounds (later earlier : Instant) :
    -1 ≤ later.leap earlier ∧ later.leap earlier ≤ 1 := by
  unfold leap
  split
  · decide
  · split <;> decide

theorem since_of_plain (plain : now.inLeapSecond = false)
    (plainToo : submitted.inLeapSecond = false) :
    now.since submitted = now.toNanos - submitted.toNanos := by
  have none : now.leap submitted = 0 := by
    simp [leap, plain, plainToo]
  rw [since_eq, none, Int.zero_mul, Int.add_zero]

/-- Into a leap second, a difference may fall as time goes on. -/
theorem since_falls_into_leap_second :
    ∃ submitted before inside : Instant,
      submitted.inLeapSecond = false ∧ before.inLeapSecond = false ∧
        inside.inLeapSecond = true ∧ before.Precedes inside ∧
        inside.since submitted < before.since submitted :=
  ⟨⟨36000, 400000000⟩, ⟨122399, 900000000⟩, ⟨122399, 1100000000⟩, by decide, by decide,
    by decide, .inr (by decide), by decide⟩

theorem since_of_precedes (inCalendar : now.InCalendar)
    (early : now.Precedes submitted) : now.since submitted < perSecond := by
  have nanos := inCalendar.nanos
  rw [since_eq, toNanos, toNanos]
  obtain earlier | ⟨same, less⟩ := early
  · have bounds := leap_bounds now submitted
    by_cases counted : submitted.inLeapSecond = true
    · have late : perSecond ≤ submitted.nanos := of_decide_eq_true counted
      unfold perSecond at *
      omega
    · have uncounted : now.leap submitted ≤ 0 := by
        unfold leap
        rw [if_neg fun both => counted both.2]
        split <;> decide
      unfold perSecond at *
      omega
  · have none : now.leap submitted = 0 := by
      simp [leap, secondOfDay, same]
    rw [none, same]
    omega

theorem since_fits (inCalendar : now.InCalendar) (alsoIn : submitted.InCalendar) :
    -(Sweep.longestThreshold * perSecond) ≤ now.since submitted ∧
      now.since submitted ≤ Sweep.longestThreshold * perSecond := by
  have bounds := leap_bounds now submitted
  obtain ⟨first, last, nanos⟩ := inCalendar
  obtain ⟨firstToo, lastToo, nanosToo⟩ := alsoIn
  rw [since_eq, toNanos, toNanos]
  unfold perSecond Sweep.longestThreshold at *
  omega

end Instant

/-- How a sweep with this threshold judges the age of routes when so many seconds
are asked for. -/
structure Sweep.Measures (threshold seconds : Int) : Prop where
  /-- Outside of leap seconds a route is due when it is at least so old. -/
  exact : ∀ (now : Instant) (route : Route), now.inLeapSecond = false →
    route.submittedAt.inLeapSecond = false →
    (isDue threshold now route = true ↔
      seconds * Instant.perSecond ≤ now.toNanos - route.submittedAt.toNanos)
  /-- A leap second moves an age by a second at most. -/
  near : ∀ (now : Instant) (route : Route),
    ((seconds + 1) * Instant.perSecond ≤ now.toNanos - route.submittedAt.toNanos →
      isDue threshold now route = true) ∧
    (isDue threshold now route = true →
      (seconds - 1) * Instant.perSecond ≤ now.toNanos - route.submittedAt.toNanos)
  /-- A route that is still to be submitted is too young. -/
  future : 0 < seconds → ∀ (now : Instant) (route : Route), now.InCalendar →
    now.Precedes route.submittedAt → isDue threshold now route = false
  /-- What is due remains due. -/
  later : ∀ (now next : Instant) (route : Route), now.inLeapSecond = false →
    next.inLeapSecond = false → route.submittedAt.inLeapSecond = false →
    now.toNanos ≤ next.toNanos → isDue threshold now route = true →
    isDue threshold next route = true
  /-- A sweep looks up the routes that are so old, and no others. -/
  asks : ∀ (surroundings : Surroundings) (lifetimes : Lifetimes) (now : Instant)
    (found : List (String × Route)) (steps : List Step) (attempts : List Attempt),
    now.inLeapSecond = false →
    (∀ pair ∈ found, pair.2.submittedAt.inLeapSecond = false) →
    surroundings.Performs (applyDue lifetimes threshold now found) steps attempts →
    steps.filterMap Step.lookedUp? =
      (found.filter fun pair => decide (seconds * Instant.perSecond ≤
        now.toNanos - pair.2.submittedAt.toNanos)).map Prod.fst

namespace Sweep

theorem isDue_iff {threshold : Int} {now : Instant} {route : Route} :
    isDue threshold now route = true ↔ threshold ≤ now.since route.submittedAt :=
  decide_eq_true_iff

theorem isDue_iff_of_plain {threshold : Int} {now : Instant} {route : Route}
    (plain : now.inLeapSecond = false)
    (plainToo : route.submittedAt.inLeapSecond = false) :
    isDue threshold now route = true ↔
      threshold ≤ now.toNanos - route.submittedAt.toNanos := by
  rw [isDue_iff, Instant.since_of_plain plain plainToo]

theorem measures (seconds : Int) : Measures (seconds * Instant.perSecond) seconds where
  exact _ _ := isDue_iff_of_plain
  near now route := by
    have bounds := Instant.leap_bounds now route.submittedAt
    rw [isDue_iff, Instant.since_eq]
    unfold Instant.perSecond
    omega
  future positive now route inCalendar early := by
    have recent := Instant.since_of_precedes inCalendar early
    rw [← Bool.not_eq_true, isDue_iff]
    unfold Instant.perSecond at *
    omega
  later now next route plain plainNext plainToo order due := by
    rw [isDue_iff_of_plain plain plainToo] at due
    rw [isDue_iff_of_plain plainNext plainToo]
    omega
  asks surroundings lifetimes now found steps attempts plain plainToo performs := by
    obtain ⟨trials, sweeps, -⟩ := performs.applyDue
    rw [sweeps.lookups, due]
    apply congrArg (List.map Prod.fst)
    apply List.filter_congr
    intro pair member
    rw [Bool.eq_iff_iff, decide_eq_true_iff]
    exact isDue_iff_of_plain plain (plainToo pair member)

theorem Measures.unique {threshold seconds others : Int}
    (measures : Measures threshold seconds) (also : Measures threshold others) :
    seconds = others := by
  have order {left right : Int} (measures : Measures threshold left)
      (also : Measures threshold right) : right ≤ left := by
    let route : Route := ⟨"", "", ⟨0, 0⟩⟩
    have age : (⟨left, 0⟩ : Instant).toNanos - route.submittedAt.toNanos =
        left * Instant.perSecond := by
      simp [Instant.toNanos, route]
    have due : isDue threshold ⟨left, 0⟩ route = true :=
      (measures.exact _ _ rfl rfl).2 (Int.le_of_eq age.symm)
    have old := (also.exact _ _ rfl rfl).1 due
    rw [age] at old
    exact Int.le_of_mul_le_mul_right old (by decide)
  exact Int.le_antisymm (order also measures) (order measures also)

theorem limits : longestThreshold = 9223372036854775 ∧
    UInt64.size = 18446744073709551616 :=
  ⟨rfl, rfl⟩

theorem toInt_toInt64 (seconds : UInt64) :
    seconds.toInt64.toInt =
      if 2 * seconds.toNat < UInt64.size then (seconds.toNat : Int)
      else seconds.toNat - UInt64.size :=
  BitVec.toInt_eq_toNat_cond _

section Casting

variable {seconds : UInt64}

theorem threshold?_of_le (kept : (seconds.toNat : Int) ≤ longestThreshold) :
    threshold? seconds = some (seconds.toNat * (Instant.perSecond : Int)) := by
  have limits := limits
  have cast : seconds.toInt64.toInt = seconds.toNat :=
    (toInt_toInt64 seconds).trans (if_pos (by omega))
  rw [threshold?, cast]
  exact if_pos ⟨by omega, kept⟩

theorem threshold?_of_lt (large : longestThreshold < (seconds.toNat : Int))
    (small : (seconds.toNat : Int) < UInt64.size - longestThreshold) :
    threshold? seconds = none := by
  have limits := limits
  rw [threshold?, toInt_toInt64]
  apply if_neg
  intro fits
  split at fits <;> omega

/-- The largest settings lose the size of the word. -/
theorem threshold?_of_wraps
    (wraps : UInt64.size - longestThreshold ≤ (seconds.toNat : Int)) :
    threshold? seconds = some ((seconds.toNat - UInt64.size : Int) * Instant.perSecond) := by
  have limits := limits
  have below := seconds.toNat_lt
  have cast : seconds.toInt64.toInt = seconds.toNat - UInt64.size :=
    (toInt_toInt64 seconds).trans (if_neg (by omega))
  rw [threshold?, cast]
  exact if_pos ⟨by omega, by omega⟩

end Casting

end Sweep

namespace Settings

/-- What becomes of a threshold that is set to so many seconds. -/
structure Thresholds (settings : Settings) (seconds : Int) : Prop where
  /-- Settings up to the longest threshold are kept, and only those. -/
  kept : (∃ sweep, settings.sweep? = some sweep ∧
      Sweep.Measures sweep.threshold seconds) ↔
    seconds ≤ Sweep.longestThreshold
  refused : settings.sweep? = none ↔
    Sweep.longestThreshold < seconds ∧ seconds < UInt64.size - Sweep.longestThreshold
  /-- The largest settings make a threshold below zero, and every route is due from
  the start. -/
  wraps : UInt64.size - Sweep.longestThreshold ≤ seconds →
    ∃ sweep, settings.sweep? = some sweep ∧
      Sweep.Measures sweep.threshold (seconds - UInt64.size) ∧
      ∀ route, Sweep.isDue sweep.threshold route.submittedAt route = true
  /-- Whatever is set, no age of a route overflows. -/
  ages : ∀ now submitted : Instant, now.InCalendar → submitted.InCalendar →
    -(Sweep.longestThreshold * Instant.perSecond) ≤ now.since submitted ∧
      now.since submitted ≤ Sweep.longestThreshold * Instant.perSecond

variable {settings : Settings}

theorem sweep?_measures {seconds : Int}
    (isSet : Sweep.threshold? settings.reaper.thresholdSeconds =
      some (seconds * Instant.perSecond)) :
    ∃ sweep, settings.sweep? = some sweep ∧ Sweep.Measures sweep.threshold seconds := by
  rw [sweep?, isSet]
  exact ⟨_, rfl, Sweep.measures seconds⟩

theorem sweep?_eq_none
    (unset : Sweep.threshold? settings.reaper.thresholdSeconds = none) :
    settings.sweep? = none := by
  rw [sweep?, unset]
  rfl

/-- Every setting of the threshold up to the longest one is kept; beyond it there is
either no threshold or one that has wrapped around. -/
theorem drop_thresholds (settings : Settings) :
    settings.Thresholds settings.reaper.thresholdSeconds.toNat where
  kept := by
    constructor
    · intro ⟨sweep, isSet, measures⟩
      apply Int.not_lt.1
      intro large
      obtain small | wraps := Int.lt_or_le
        settings.reaper.thresholdSeconds.toNat (UInt64.size - Sweep.longestThreshold)
      · have unset := Sweep.threshold?_of_lt large small
        rw [sweep?_eq_none unset] at isSet
        cases isSet
      · obtain ⟨other, alsoSet, wrapped⟩ := sweep?_measures (Sweep.threshold?_of_wraps wraps)
        cases isSet.symm.trans alsoSet
        have same := measures.unique wrapped
        have limits := Sweep.limits
        omega
    · intro kept
      exact sweep?_measures (Sweep.threshold?_of_le kept)
  refused := by
    constructor
    · intro unset
      refine ⟨Int.not_le.1 fun kept => ?_, Int.not_le.1 fun wraps => ?_⟩
      · obtain ⟨sweep, isSet, -⟩ := sweep?_measures (Sweep.threshold?_of_le kept)
        cases unset.symm.trans isSet
      · obtain ⟨sweep, isSet, -⟩ := sweep?_measures (Sweep.threshold?_of_wraps wraps)
        cases unset.symm.trans isSet
    · intro ⟨large, small⟩
      exact sweep?_eq_none (Sweep.threshold?_of_lt large small)
  wraps wraps := by
    obtain ⟨sweep, isSet, measures⟩ := sweep?_measures (Sweep.threshold?_of_wraps wraps)
    refine ⟨sweep, isSet, measures, fun route => ?_⟩
    apply (measures.near route.submittedAt route).1
    have below := settings.reaper.thresholdSeconds.toNat_lt
    have limits := Sweep.limits
    unfold Instant.perSecond
    omega
  ages _ _ := Instant.since_fits

end Settings

namespace Sample

/-- The settings with a threshold of so many seconds. -/
def withThreshold (seconds : UInt64) : Settings :=
  { reaper := { thresholdSeconds := seconds } }

/-- Just as many seconds as a duration has room for, and one more. -/
example :
    (withThreshold 9223372036854775).sweep?.map SweepSettings.threshold =
        some 9223372036854775000000000 ∧
      (withThreshold 9223372036854776).sweep? = none := by
  decide

/-- With the largest setting a route that is submitted in this very second is due,
and with half of it there is no threshold. -/
theorem fresh_route_due :
    let now : Instant := ⟨1704067200, 0⟩
    let route : Route := ⟨"b1", "x", now⟩
    (∃ sweep, (withThreshold 18446744073709551615).sweep? = some sweep ∧
        Sweep.isDue sweep.threshold now route = true) ∧
      now.toNanos - route.submittedAt.toNanos <
        18446744073709551615 * Instant.perSecond ∧
      (withThreshold 9223372036854775807).sweep? = none := by
  intro now route
  exact ⟨⟨_, rfl, by decide⟩, by decide, by decide⟩

end Sample

end BatchRelay
