import BatchRelay.Batch.Record
import BatchRelay.Engine.Activity

/-!
# Stored batches

A batch is stored under its address and its identifier, and a write replaces
what was there.  A stored text that is not a batch makes `get` fail; `list`
passes over it.
-/

namespace BatchRelay

/-- How long the engine's entries live, in milliseconds; `none` is for ever. -/
structure Lifetimes where
  batch : Option Nat
  route : Option Nat
  checkpoint : Option Nat
  deriving DecidableEq

namespace Records

/-- The key of a batch. -/
def key (address id : String) : String :=
  "batch:" ++ address ++ ":" ++ id

/-- The batch in a stored text. -/
def decode (value : String) : Except CacheError Batch :=
  match Batch.parse value with
  | .ok batch => .ok batch
  | .error .malformed => .error (.serialization "the record is not JSON")
  | .error .shape => .error (.serialization "the record is not a batch")

/-- The batch that is stored under an address and an identifier. -/
def get (address id : String) :
    Activity (Except CacheError (Option Batch)) := do
  match ← Activity.request (.read (key address id)) with
  | .error error => return .error error
  | .ok none => return .ok none
  | .ok (some value) => return (decode value).map some

/-- Stores a batch. -/
def put (lifetimes : Lifetimes) (address : String) (batch : Batch) :
    Activity (Except CacheError Unit) :=
  Activity.request
    (.write (key address batch.id) batch.render lifetimes.batch)

/-- All stored batches of an address whose texts can be read. -/
def list (address : String) : Activity (Except CacheError (List Batch)) := do
  match ← Activity.request (.scan (key address "")) with
  | .error error => return .error error
  | .ok keys =>
      match ← Activity.request (.readMany keys) with
      | .error error => return .error error
      | .ok values =>
          return .ok (values.filterMap fun value =>
            value.bind fun text => (decode text).toOption)

end Records

end BatchRelay
