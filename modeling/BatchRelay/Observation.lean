import BatchRelay.Json.Record
import BatchRelay.Batch.Basic

/-!
# Observed transactions

What the network reports of a transaction, in a block or on a lookup, and the
event that tells subscribers which items of a batch have changed.
-/

namespace BatchRelay

/-- The network's word on a transaction.  Every word that is not final counts
as pending. -/
inductive ObservedStatus where
  | success
  | fail
  | invalid
  | pending
  deriving DecidableEq

namespace ObservedStatus

/-- The item status that a final word leads to. -/
def outcome? : ObservedStatus → Option ItemStatus
  | .success => some .success
  | .fail | .invalid => some .invalid
  | .pending => none

/-- The written name of a status. -/
def name : ObservedStatus → String
  | .success => "success"
  | .fail => "fail"
  | .invalid => "invalid"
  | .pending => "pending"

def ofJson (value : Json) : Except Defect ObservedStatus := do
  match ← Json.asName value with
  | "success" => .ok .success
  | "fail" => .ok .fail
  | "invalid" => .ok .invalid
  | _ => .ok .pending

def toJson (status : ObservedStatus) : Json :=
  .text status.name

end ObservedStatus

structure ObservedTransaction where
  hash : String
  sender : String
  receiver : String
  nonce : UInt64
  /-- Call data in base 64. -/
  data : Option String
  status : ObservedStatus
  deriving DecidableEq

namespace ObservedTransaction

structure Draft where
  hash : Option String := none
  sender : Option String := none
  receiver : Option String := none
  nonce : Option UInt64 := none
  data : Option (Option String) := none
  status : Option ObservedStatus := none

def Draft.take (draft : Draft) (name : String) (value : Json) :
    Except Defect Draft :=
  match name with
  | "hash" => do
      return { draft with hash := ← Json.fill draft.hash value.asText }
  | "sender" => do
      return { draft with sender := ← Json.fill draft.sender value.asText }
  | "receiver" => do
      return { draft with receiver := ← Json.fill draft.receiver value.asText }
  | "nonce" => do
      return { draft with nonce := ← Json.fill draft.nonce value.asWord64 }
  | "data" => do
      let data ← Json.fill draft.data (value.asOptional Json.asText)
      return { draft with data := data }
  | "status" => do
      let status ← Json.fill draft.status (ObservedStatus.ofJson value)
      return { draft with status := status }
  | _ => do
      value.skip
      return draft

/-- Reads an observed transaction; a missing nonce is zero. -/
def ofJson (value : Json) : Except Defect ObservedTransaction := do
  let draft ← Json.takeRecord
    ["hash", "sender", "receiver", "nonce", "data", "status"] Draft.take {} value
  return {
    hash := ← Json.need draft.hash
    sender := ← Json.need draft.sender
    receiver := ← Json.need draft.receiver
    nonce := draft.nonce.getD 0
    data := draft.data.join
    status := ← Json.need draft.status }

/-- Writes an observed transaction; absent call data are written as `null`. -/
def toJson (transaction : ObservedTransaction) : Json :=
  .record [("hash", .text transaction.hash),
    ("sender", .text transaction.sender),
    ("receiver", .text transaction.receiver),
    ("nonce", .nat transaction.nonce.toNat),
    ("data", (transaction.data.map Json.text).getD .null),
    ("status", transaction.status.toJson)]

end ObservedTransaction

/-- Tells subscribers which items of a batch have changed. -/
structure BatchUpdated where
  address : String
  batchId : String
  hashes : List String
  deriving DecidableEq

namespace BatchUpdated

structure Draft where
  address : Option String := none
  batchId : Option String := none
  hashes : Option (List String) := none

def Draft.take (draft : Draft) (name : String) (value : Json) :
    Except Defect Draft :=
  match name with
  | "address" => do
      return { draft with address := ← Json.fill draft.address value.asText }
  | "batchId" => do
      return { draft with batchId := ← Json.fill draft.batchId value.asText }
  | "txHashes" => do
      let hashes ← Json.fill draft.hashes (value.asList Json.asText)
      return { draft with hashes := hashes }
  | _ => do
      value.skip
      return draft

def ofJson (value : Json) : Except Defect BatchUpdated := do
  let draft ← Json.takeRecord ["address", "batchId", "txHashes"] Draft.take {} value
  return ⟨← Json.need draft.address, ← Json.need draft.batchId,
    ← Json.need draft.hashes⟩

def toJson (event : BatchUpdated) : Json :=
  .record [("address", .text event.address), ("batchId", .text event.batchId),
    ("txHashes", .array (event.hashes.map Json.text))]

end BatchUpdated

end BatchRelay
