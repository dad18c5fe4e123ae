import BatchRelay.Cache.Basic
import BatchRelay.Engine.Activity

/-!
# Surroundings

What answers the requests of activities.  The `World` is what activities
change: the cache, the mark of a running tick and a journal of what was sent,
asked and announced.  The `Surroundings` are what they cannot change: the
network, the clock, and which accesses to the cache fail.  Every answer of the
surroundings may depend on how many requests came before, so they can be any
surroundings at all.

A write whose deadline overflows ends the work that asks for it: `answer?` and
`run?` tell whether that happens, and `answer` and `run` are for when it does not.
-/

namespace BatchRelay

/-- An access to the cache, as far as it decides whether the access fails. -/
inductive Access where
  | read (key : String)
  | write (key : String)
  | delete (key : String)
  | scan (leading : String)
  deriving DecidableEq

structure Surroundings where
  /-- The failure of an access to the cache, if it fails. -/
  fault : Nat → Access → Option CacheError
  send : Nat → Transaction → Except GatewayError String
  latestNonce : Nat → UInt32 → Except GatewayError UInt64
  block : Nat → UInt32 → UInt64 → Except GatewayError (List ObservedTransaction)
  lookup : Nat → String → Except GatewayError (Option ObservedTransaction)
  now : Nat → Instant
  token : Nat → String

/-- Something that happened between an activity and its surroundings. -/
inductive Happening where
  | sent (origin : Origin) (payload : Transaction)
      (answer : Except GatewayError String)
  | askedLatest (shard : UInt32)
  | askedBlock (shard : UInt32) (nonce : UInt64)
  | lookedUp (hash : String)
  | published (event : BatchUpdated)

structure World where
  cache : Cache
  /-- Whether a watcher tick is running. -/
  ticking : Bool
  /-- Number of requests answered so far. -/
  moment : Nat
  /-- What has happened, the latest first. -/
  journal : List Happening

namespace World

/-- A world in which nothing has happened yet. -/
def start (cache : Cache) : World :=
  ⟨cache, false, 0, []⟩

/-- The world after one more request. -/
def pass (world : World) : World :=
  { world with moment := world.moment + 1 }

/-- The world after something has happened. -/
def note (world : World) (happening : Happening) : World :=
  { world.pass with journal := happening :: world.journal }

/-- The world after a request that left another cache behind. -/
def withCache (world : World) (cache : Cache) : World :=
  { world.pass with cache := cache }

end World

namespace Surroundings

variable (surroundings : Surroundings)

/-- The current moment of the cache, in milliseconds. -/
def millis (world : World) : Int :=
  (surroundings.now world.moment).toMillis

/-- Answers an access to the cache, unless it fails. -/
def access {α : Type} (world : World) (access : Access)
    (perform : Cache → α × Cache) : Except CacheError α × World :=
  match surroundings.fault world.moment access with
  | some error => (.error error, world.pass)
  | none =>
      let (answer, cache) := perform world.cache
      (.ok answer, world.withCache cache)

/-- Answers one request. -/
def answer (world : World) : (request : Request) → request.Answer × World
  | .read key =>
      surroundings.access world (.read key) fun cache =>
        (cache.get (surroundings.millis world) key, cache)
  | .readMany keys =>
      match keys.findSome? fun key =>
          surroundings.fault world.moment (.read key) with
      | some error => (.error error, world.pass)
      | none =>
          (.ok (world.cache.getMany (surroundings.millis world) keys), world.pass)
  | .write key value ttl =>
      surroundings.access world (.write key) fun cache =>
        ((), cache.set (surroundings.millis world) key value ttl)
  | .writeIfAbsent key value ttl =>
      surroundings.access world (.write key) fun cache =>
        cache.setIfAbsent (surroundings.millis world) key value ttl
  | .delete key =>
      surroundings.access world (.delete key) fun cache =>
        ((), cache.delete key)
  | .deleteIfEquals key value =>
      surroundings.access world (.delete key) fun cache =>
        cache.deleteIfEquals (surroundings.millis world) key value
  | .scan leading =>
      surroundings.access world (.scan leading) fun cache =>
        (cache.keys (surroundings.millis world) leading, cache)
  | .send origin payload =>
      let hash := surroundings.send world.moment payload
      (hash, world.note (.sent origin payload hash))
  | .latestNonce shard =>
      (surroundings.latestNonce world.moment shard,
        world.note (.askedLatest shard))
  | .block shard nonce =>
      (surroundings.block world.moment shard nonce,
        world.note (.askedBlock shard nonce))
  | .lookup hash =>
      (surroundings.lookup world.moment hash, world.note (.lookedUp hash))
  | .publish event => ((), world.note (.published event))
  | .now => (surroundings.now world.moment, world.pass)
  | .token => (surroundings.token world.moment, world.pass)
  | .beginTick => (!world.ticking, { world.pass with ticking := true })
  | .endTick => ((), { world.pass with ticking := false })

/-- Answers an access to the cache that may overflow. -/
def access? {α : Type} (world : World) (access : Access)
    (perform : Cache → Except Overflow (α × Cache)) :
    Except Overflow (Except CacheError α × World) :=
  match surroundings.fault world.moment access with
  | some error => .ok (.error error, world.pass)
  | none => (perform world.cache).map fun (answer, cache) =>
      (.ok answer, world.withCache cache)

/-- Answers one request, unless it overflows. -/
def answer? (world : World) :
    (request : Request) → Except Overflow (request.Answer × World)
  | .write key value ttl =>
      surroundings.access? world (.write key) fun cache =>
        (cache.set? (surroundings.millis world) key value ttl).map fun cache =>
          ((), cache)
  | .writeIfAbsent key value ttl =>
      surroundings.access? world (.write key) fun cache =>
        cache.setIfAbsent? (surroundings.millis world) key value ttl
  | request => .ok (surroundings.answer world request)

/-- Runs an activity to its end, unless one of its requests overflows. -/
def run? {α : Type} : Activity α → World → Except Overflow (α × World)
  | .done result, world => .ok (result, world)
  | .ask request next, world => do
      let (reply, world) ← surroundings.answer? world request
      run? (next reply) world

/-- Runs an activity to its end. -/
def run {α : Type} : Activity α → World → α × World
  | .done result, world => (result, world)
  | .ask request next, world =>
      let (reply, world) := surroundings.answer world request
      run (next reply) world

end Surroundings

end BatchRelay
