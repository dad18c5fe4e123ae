import BatchRelay.Engine.Activity

/-!
# Leases

A lease is a lock that frees itself: an entry of the cache that holds its
holder's token and stops counting after a while.  A holder gives a lease back
only while the entry still holds its own token.
-/

namespace BatchRelay

structure Lease where
  name : String
  /-- Time to live in milliseconds. -/
  ttl : Nat
  deriving DecidableEq

namespace Lease

/-- The key of a lease. -/
def key (lease : Lease) : String :=
  "lock:" ++ lease.name

/-- Tries to take a lease for a token. -/
def acquire (lease : Lease) (token : String) :
    Activity (Except CacheError Bool) :=
  Activity.request (.writeIfAbsent lease.key token lease.ttl)

/-- Gives a lease back. -/
def release (lease : Lease) (token : String) :
    Activity (Except CacheError Bool) :=
  Activity.request (.deleteIfEquals lease.key token)

/-- Does some work while holding a lease.  The work is not begun when someone
else holds it, and a lease that cannot be given back is left to run out. -/
def run {α : Type} (lease : Lease) (work : Activity α) :
    Activity (Except CacheError (Option α)) := do
  let token ← Activity.request .token
  match ← lease.acquire token with
  | .error error => return .error error
  | .ok false => return .ok none
  | .ok true =>
      let result ← work
      let _ ← lease.release token
      return .ok (some result)

end Lease

end BatchRelay
