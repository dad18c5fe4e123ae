import BatchRelay.Engine.Lease
import BatchRelay.Engine.Pass

/-!
# Sweeping up transactions that are long unseen

A sweep asks the network about every transaction that has been on its way for
some time.  One that the network does not know is dropped; one with a final
word takes it; one that is still pending, or that could not be asked about,
waits for the next sweep.  Sweeps are kept apart by a lease.
-/

namespace BatchRelay

structure SweepSettings where
  /-- The age in nanoseconds from which a transaction is asked about. -/
  threshold : Int
  lease : Lease
  deriving DecidableEq

namespace Sweep

/-- The longest threshold in seconds, and the shortest with its sign changed. -/
def longestThreshold : Int :=
  9223372036854775

/-- The threshold in nanoseconds for a setting in seconds.  The setting is
taken as a number with a sign of 64 bits; there is no threshold for one that is
too large in either direction. -/
def threshold? (seconds : UInt64) : Option Int :=
  let signed := seconds.toInt64.toInt
  if -longestThreshold ≤ signed ∧ signed ≤ longestThreshold then
    some (signed * Instant.perSecond)
  else
    none

/-- Whether a transaction has been on its way for long enough. -/
def isDue (threshold : Int) (now : Instant) (route : Route) : Bool :=
  threshold ≤ now.since route.submittedAt

/-- The outcome that the network's answer leads to. -/
def outcome? :
    Except GatewayError (Option ObservedTransaction) → Option ItemStatus
  | .ok (some transaction) => transaction.status.outcome?
  | .ok none => some .dropped
  | .error _ => none

/-- Asks about the transactions that are due and applies their outcomes. -/
def applyDue (lifetimes : Lifetimes) (threshold : Int) (now : Instant) :
    List (String × Route) → Activity (List Attempt)
  | [] => return []
  | (hash, route) :: routes => do
      if isDue threshold now route then
        match outcome? (← Activity.request (.lookup hash)) with
        | some outcome =>
            let attempt ← Attempt.make lifetimes hash route outcome
            let attempts ← applyDue lifetimes threshold now routes
            return attempt :: attempts
        | none => applyDue lifetimes threshold now routes
      else
        applyDue lifetimes threshold now routes

/-- One pass over all routes, with its announcements. -/
def pass (lifetimes : Lifetimes) (threshold : Int) (now : Instant) :
    Activity (Except CacheError (List Attempt)) := do
  match ← Routes.all with
  | .error error => return .error error
  | .ok routes =>
      let attempts ← applyDue lifetimes threshold now routes
      publishAll (announcements attempts)
      return .ok attempts

/-- A sweep at an instant: the number of items that have changed, or `none`
when the lease is taken or something failed. -/
def runAt (lifetimes : Lifetimes) (settings : SweepSettings) (now : Instant) :
    Activity (Option Nat) := do
  match ← settings.lease.run (pass lifetimes settings.threshold now) with
  | .ok (some (.ok attempts)) =>
      return some (attempts.countP Attempt.isChange)
  | _ => return none

/-- A sweep at the current instant. -/
def run (lifetimes : Lifetimes) (settings : SweepSettings) :
    Activity (Option Nat) := do
  runAt lifetimes settings (← Activity.request .now)

end Sweep

end BatchRelay
