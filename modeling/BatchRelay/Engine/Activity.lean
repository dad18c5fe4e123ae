import BatchRelay.Failure
import BatchRelay.Observation
import BatchRelay.Time.Instant

/-!
# Activities

The engine never touches its surroundings itself.  It describes what to do as
an activity: a result, or one request and what to do with the answer to it.
Each request is answered in one step, so two activities that run at the same
time take turns between requests and nowhere else.
-/

namespace BatchRelay

/-- The place for which a transaction is sent. -/
structure Origin where
  address : String
  batchId : String
  position : Position
  deriving DecidableEq

/-- What an activity asks of its surroundings. -/
inductive Request where
  /-- The value under a key of the cache. -/
  | read (key : String)
  /-- The values under many keys, in their order. -/
  | readMany (keys : List String)
  /-- Puts a value under a key. -/
  | write (key value : String) (ttl : Option Nat)
  /-- Puts a value under a key that has none. -/
  | writeIfAbsent (key value : String) (ttl : Nat)
  /-- Deletes a key. -/
  | delete (key : String)
  /-- Deletes a key while it has this value. -/
  | deleteIfEquals (key value : String)
  /-- The keys that start with a text. -/
  | scan (leading : String)
  /-- Hands a transaction to the network, which answers with its hash. -/
  | send (origin : Origin) (payload : Transaction)
  /-- The nonce of the latest block of a shard. -/
  | latestNonce (shard : UInt32)
  /-- The transactions of a block. -/
  | block (shard : UInt32) (nonce : UInt64)
  /-- What the network knows of a hash. -/
  | lookup (hash : String)
  /-- Tells subscribers of a change. -/
  | publish (event : BatchUpdated)
  /-- The current instant. -/
  | now
  /-- A text that no other lease holder has. -/
  | token
  /-- Marks a watcher tick as running, unless one is. -/
  | beginTick
  /-- Ends the running watcher tick. -/
  | endTick

/-- The answer to a request. -/
@[reducible] def Request.Answer : Request → Type
  | .read _ => Except CacheError (Option String)
  | .readMany _ => Except CacheError (List (Option String))
  | .write _ _ _ => Except CacheError Unit
  | .writeIfAbsent _ _ _ => Except CacheError Bool
  | .delete _ => Except CacheError Unit
  | .deleteIfEquals _ _ => Except CacheError Bool
  | .scan _ => Except CacheError (List String)
  | .send _ _ => Except GatewayError String
  | .latestNonce _ => Except GatewayError UInt64
  | .block _ _ => Except GatewayError (List ObservedTransaction)
  | .lookup _ => Except GatewayError (Option ObservedTransaction)
  | .publish _ => Unit
  | .now => Instant
  | .token => String
  | .beginTick => Bool
  | .endTick => Unit

/-- A result, or a request and what to do with its answer. -/
inductive Activity (α : Type) where
  | done (result : α)
  | ask (request : Request) (next : request.Answer → Activity α)

namespace Activity

/-- Goes on with the result of an activity. -/
def bind {α β : Type} : Activity α → (α → Activity β) → Activity β
  | .done result, next => next result
  | .ask request answered, next =>
      .ask request fun answer => (answered answer).bind next

instance : Monad Activity where
  pure := Activity.done
  bind := Activity.bind

/-- Asks one request. -/
def request (request : Request) : Activity request.Answer :=
  .ask request .done

theorem bind_done {α : Type} (activity : Activity α) :
    activity.bind .done = activity := by
  induction activity with
  | done result => rfl
  | ask request next induction => simp [bind, induction]

theorem bind_assoc {α β γ : Type} (activity : Activity α)
    (first : α → Activity β) (second : β → Activity γ) :
    (activity.bind first).bind second =
      activity.bind fun result => (first result).bind second := by
  induction activity with
  | done result => rfl
  | ask request next induction => simp [bind, induction]

instance : LawfulMonad Activity :=
  LawfulMonad.mk' Activity bind_done (fun _ _ => rfl) bind_assoc

end Activity

end BatchRelay
