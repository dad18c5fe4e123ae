import BatchRelay.Engine.Sweep
import BatchRelay.Engine.Watch

/-!
# Settings

One structure for each part of the service, each field with its default, and
what the engine works with under given settings.
-/

namespace BatchRelay

/-- Where the service listens. -/
structure ApiSettings where
  host : String := "127.0.0.1"
  tcpPort : UInt16 := 3001
  deriving DecidableEq

/-- How the network is reached, and the shards to watch. -/
structure GatewaySettings where
  url : String := "http://127.0.0.1:8079"
  shards : List UInt32 := [0, 1, 2, 4294967295]
  timeoutMillis : UInt64 := 10000
  deriving DecidableEq

/-- Where the cache is kept. -/
structure CacheSettings where
  url : String := "sqlite://tx-batcher.db"
  deriving DecidableEq

/-- When the watcher runs. -/
structure WatcherSettings where
  enabled : Bool := true
  intervalMillis : UInt64 := 1000
  lookBehind : UInt64 := 100
  deriving DecidableEq

/-- When sweeps run. -/
structure ReaperSettings where
  enabled : Bool := true
  intervalMillis : UInt64 := 60000
  thresholdSeconds : UInt64 := 600
  leaseSeconds : UInt64 := 90
  deriving DecidableEq

/-- How long entries live, in seconds.  Zero is for ever. -/
structure LifetimeSettings where
  routeSeconds : UInt64 := 900
  batchSeconds : UInt64 := 14400
  checkpointSeconds : UInt64 := 0
  deriving DecidableEq

structure Settings where
  api : ApiSettings := {}
  gateway : GatewaySettings := {}
  cache : CacheSettings := {}
  watcher : WatcherSettings := {}
  reaper : ReaperSettings := {}
  lifetime : LifetimeSettings := {}
  deriving DecidableEq

namespace CacheSettings

/-- Whether the cache is kept in memory. -/
def isMemory (settings : CacheSettings) : Bool :=
  settings.url = "memory"

end CacheSettings

namespace LifetimeSettings

/-- A lifetime in seconds; `none` is for ever. -/
def ofSeconds (seconds : UInt64) : Option Nat :=
  if seconds = 0 then none else some seconds.toNat

/-- The lifetime of batches in seconds. -/
def batch (settings : LifetimeSettings) : Option Nat :=
  ofSeconds settings.batchSeconds

/-- The lifetime of routes in seconds. -/
def route (settings : LifetimeSettings) : Option Nat :=
  ofSeconds settings.routeSeconds

/-- The lifetime of checkpoints in seconds. -/
def checkpoint (settings : LifetimeSettings) : Option Nat :=
  ofSeconds settings.checkpointSeconds

/-- The lifetimes that the engine writes its entries with. -/
def toLifetimes (settings : LifetimeSettings) : Lifetimes where
  batch := settings.batch.map (· * 1000)
  route := settings.route.map (· * 1000)
  checkpoint := settings.checkpoint.map (· * 1000)

end LifetimeSettings

namespace Settings

/-- What the watcher works with. -/
def watch (settings : Settings) : WatchSettings where
  shards := settings.gateway.shards
  lookBehind := settings.watcher.lookBehind

/-- What sweeps work with; `none` when the threshold is out of range. -/
def sweep? (settings : Settings) : Option SweepSettings := do
  let threshold ← Sweep.threshold? settings.reaper.thresholdSeconds
  return ⟨threshold,
    ⟨"dropped-reaper", settings.reaper.leaseSeconds.toNat * 1000⟩⟩

end Settings

end BatchRelay
