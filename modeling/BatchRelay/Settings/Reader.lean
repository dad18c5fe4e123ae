import BatchRelay.Settings.Basic
import BatchRelay.Text.Utf8
import BatchRelay.Toml.Reader

/-!
# Reading settings

Settings come from a TOML document with one table for each part of the service.
Every table and every field may be missing and then has its default.  A name
that is not known is passed over; a value of the wrong kind, or a number that
its field cannot hold, makes the document unusable.
-/

namespace BatchRelay

/-- Why there are no settings. -/
inductive SettingsError where
  /-- There is no file, or it is not text. -/
  | unreadable
  /-- The text is not TOML, or does not hold settings. -/
  | malformed
  deriving DecidableEq

namespace Settings

/-- A string. -/
def asText? : Toml → Option String
  | .string value => some value
  | _ => none

/-- A truth value. -/
def asBool? : Toml → Option Bool
  | .bool value => some value
  | _ => none

/-- A natural number below a bound. -/
def asNat? (bound : Nat) : Toml → Option Nat
  | .integer value =>
      if 0 ≤ value ∧ value < bound then some value.toNat else none
  | _ => none

/-- A number of 64 bits. -/
def asWord64? (value : Toml) : Option UInt64 :=
  (asNat? UInt64.size value).map UInt64.ofNat

/-- Numbers of shards. -/
def asShards? : Toml → Option (List UInt32)
  | .array _ elements =>
      elements.mapM fun element =>
        (asNat? UInt32.size element).map UInt32.ofNat
  | _ => none

/-- What is given for the fields of a part, each of which has a place and a
name.  A part is a table, or an array of its fields in their order.  A moment
has none of the names. -/
def given? : Toml → Option (Nat → String → Option Toml)
  | .table _ members => some fun _ name => Toml.find? name members
  | .array _ elements => some fun place _ => elements[place]?
  | .moment => some fun _ _ => none
  | _ => none

/-- The value of a field, or its default when nothing is given. -/
def field? {α : Type} (read : Toml → Option α) (default : α) :
    Option Toml → Option α
  | none => some default
  | some value => read value

/-- The part on the listening address. -/
def readApi? (value : Toml) : Option ApiSettings := do
  let given ← given? value
  let default : ApiSettings := {}
  let host ← field? asText? default.host (given 0 "host")
  let tcpPort ←
    field? (fun value => (asNat? UInt16.size value).map UInt16.ofNat)
      default.tcpPort (given 1 "port")
  return ⟨host, tcpPort⟩

/-- The part on the network. -/
def readGateway? (value : Toml) : Option GatewaySettings := do
  let given ← given? value
  let default : GatewaySettings := {}
  let url ← field? asText? default.url (given 0 "url")
  let shards ← field? asShards? default.shards (given 1 "shards")
  let timeout ←
    field? asWord64? default.timeoutMillis (given 2 "request_timeout_ms")
  return ⟨url, shards, timeout⟩

/-- The part on the cache. -/
def readCache? (value : Toml) : Option CacheSettings := do
  let given ← given? value
  let default : CacheSettings := {}
  let url ← field? asText? default.url (given 0 "url")
  return ⟨url⟩

/-- The part on the watcher. -/
def readWatcher? (value : Toml) : Option WatcherSettings := do
  let given ← given? value
  let default : WatcherSettings := {}
  let enabled ← field? asBool? default.enabled (given 0 "enabled")
  let interval ←
    field? asWord64? default.intervalMillis (given 1 "interval_ms")
  let lookBehind ←
    field? asWord64? default.lookBehind (given 2 "max_look_behind")
  return ⟨enabled, interval, lookBehind⟩

/-- The part on sweeps. -/
def readReaper? (value : Toml) : Option ReaperSettings := do
  let given ← given? value
  let default : ReaperSettings := {}
  let enabled ← field? asBool? default.enabled (given 0 "enabled")
  let interval ←
    field? asWord64? default.intervalMillis (given 1 "interval_ms")
  let threshold ←
    field? asWord64? default.thresholdSeconds (given 2 "drop_threshold_secs")
  let lease ← field? asWord64? default.leaseSeconds (given 3 "lock_ttl_secs")
  return ⟨enabled, interval, threshold, lease⟩

/-- The part on lifetimes. -/
def readLifetime? (value : Toml) : Option LifetimeSettings := do
  let given ← given? value
  let default : LifetimeSettings := {}
  let route ←
    field? asWord64? default.routeSeconds (given 0 "correlation_secs")
  let batch ← field? asWord64? default.batchSeconds (given 1 "batch_secs")
  let checkpoint ←
    field? asWord64? default.checkpointSeconds (given 2 "checkpoint_secs")
  return ⟨route, batch, checkpoint⟩

/-- The settings in the outermost table of a document. -/
def ofMembers? (members : Toml.Members) : Option Settings := do
  let api ← field? readApi? {} (Toml.find? "api" members)
  let gateway ← field? readGateway? {} (Toml.find? "gateway" members)
  let cache ← field? readCache? {} (Toml.find? "cache" members)
  let watcher ← field? readWatcher? {} (Toml.find? "watcher" members)
  let reaper ← field? readReaper? {} (Toml.find? "reaper" members)
  let lifetime ← field? readLifetime? {} (Toml.find? "ttl" members)
  return ⟨api, gateway, cache, watcher, reaper, lifetime⟩

/-- The settings in a text. -/
def parse? (text : String) : Option Settings := do
  ofMembers? (← Toml.parse? text)

/-- The settings in a file, given by its bytes if it exists. -/
def load : Option (List UInt8) → Except SettingsError Settings
  | none => .error .unreadable
  | some bytes =>
      match Utf8.decode? bytes with
      | none => .error .unreadable
      | some text =>
          match parse? text with
          | none => .error .malformed
          | some settings => .ok settings

end Settings

end BatchRelay
