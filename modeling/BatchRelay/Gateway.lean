import BatchRelay.Failure
import BatchRelay.Observation
import BatchRelay.Text.Decimal
import BatchRelay.Text.Pieces
import BatchRelay.Transaction.Record

/-!
# The network's gateway

The network is asked over HTTP.  A call says what to send; a reader says what
the reply means.  Every reply is wrapped in an envelope with data, an error text
and a code.  Bodies are read as JSON whatever the status says.

A text in the envelope's `error` decides: on a submission it is the reason of
the refusal, and on a lookup one that speaks of something not found means that
the network does not know the hash.
-/

namespace BatchRelay

/-- A call to the gateway. -/
structure GatewayCall where
  method : String
  url : String
  contentType : Option String
  body : Option Json

/-- What comes back from a call. -/
inductive GatewayReply where
  /-- Nothing came back: the server could not be reached, hung up, or was too
  slow. -/
  | failed (reason : String)
  | answered (status : Nat) (body : String)

/-- The wrapping of every reply. -/
structure Envelope (α : Type) where
  data : Option α
  error : String
  code : String

namespace Envelope

structure Draft (α : Type) where
  data : Option (Option α) := none
  error : Option String := none
  code : Option String := none

def Draft.take {α : Type} (decode : Json → Except Defect α) (draft : Draft α)
    (name : String) (value : Json) : Except Defect (Draft α) :=
  match name with
  | "data" => do
      let data ← Json.fill draft.data (value.asOptional decode)
      return { draft with data := data }
  | "error" => do
      return { draft with error := ← Json.fill draft.error value.asText }
  | "code" => do
      return { draft with code := ← Json.fill draft.code value.asText }
  | _ => do
      value.skip
      return draft

/-- Reads an envelope.  As an array it has to hold the data at least. -/
def ofJson {α : Type} (decode : Json → Except Defect α) :
    Json → Except Defect (Envelope α)
  | .array [] => .error .shape
  | value => do
      let draft ←
        Json.takeRecord ["data", "error", "code"] (Draft.take decode) {} value
      return ⟨draft.data.join, draft.error.getD "", draft.code.getD ""⟩

end Envelope

namespace Gateway

/-- Takes the one field that matters of a record. -/
def takeOnly {α : Type} (field : String) (decode : Json → Except Defect α)
    (slot : Option α) (name : String) (value : Json) :
    Except Defect (Option α) :=
  if name = field then
    Json.fill slot (decode value)
  else do
    value.skip
    return slot

/-- A record of which one field matters. -/
def only {α : Type} (field : String) (decode : Json → Except Defect α)
    (value : Json) : Except Defect α := do
  Json.need (← Json.takeRecord [field] (takeOnly field decode) none value)

/-- A record of which one list matters; it may be missing. -/
def onlyList {α : Type} (field : String) (decode : Json → Except Defect α)
    (value : Json) : Except Defect (List α) := do
  let slot ←
    Json.takeRecord [field] (takeOnly field (Json.asList decode)) none value
  return slot.getD []

/-- The hash in the data of a submission. -/
def sentData : Json → Except Defect String :=
  only "txHash" Json.asText

/-- The nonce in the data of a shard's status. -/
def statusData : Json → Except Defect UInt64 :=
  only "status" (only "erd_nonce" Json.asWord64)

/-- The transactions in the data of a block. -/
def blockData : Json → Except Defect (List ObservedTransaction) :=
  only "block" fun block => do
    let parts ← onlyList "miniBlocks"
      (onlyList "transactions" ObservedTransaction.ofJson) block
    return parts.flatten

/-- The transaction in the data of a lookup. -/
def lookupData : Json → Except Defect ObservedTransaction :=
  only "transaction" ObservedTransaction.ofJson

/-- The base address without slashes at its end. -/
def base (url : String) : String :=
  String.ofList (url.toList.reverse.dropWhile (· = '/')).reverse

def sendPath : String :=
  "/transaction/send"

def statusPath (shard : UInt32) : String :=
  "/network/status/" ++ String.ofList (Decimal.ofNat shard.toNat)

def blockPath (shard : UInt32) (nonce : UInt64) : String :=
  "/block/" ++ String.ofList (Decimal.ofNat shard.toNat) ++ "/by-nonce/" ++
    String.ofList (Decimal.ofNat nonce.toNat) ++ "?withTxs=true"

def lookupPath (hash : String) : String :=
  "/transaction/" ++ hash ++ "?withResults=true"

/-- A call that only asks. -/
def get (url path : String) : GatewayCall :=
  ⟨"GET", base url ++ path, none, none⟩

/-- The call that hands in a transaction. -/
def send (url : String) (transaction : Transaction) : GatewayCall :=
  ⟨"POST", base url ++ sendPath, some "application/json",
    some transaction.toJson⟩

/-- The envelope in a reply, and the status that it came with. -/
def open? {α : Type} (decode : Json → Except Defect α) :
    GatewayReply → Except GatewayError (Nat × Envelope α)
  | .failed reason => .error (.transport reason)
  | .answered status body =>
      match Json.decodeText (Envelope.ofJson decode) body with
      | .ok envelope => .ok (status, envelope)
      | .error _ => .error (.decode "error decoding response body")

/-- The data of an envelope, which has to hold some. -/
def data {α : Type} (path : String) (envelope : Envelope α) :
    Except GatewayError α :=
  match envelope.data with
  | some data => .ok data
  | none =>
      let code := envelope.code
      let error := envelope.error
      .error (.decode
        s!"{path} returned no data (code '{code}', error '{error}')")

/-- The hash that the network gave to a transaction. -/
def readSent (reply : GatewayReply) : Except GatewayError String := do
  let (_, envelope) ← open? sentData reply
  if envelope.error = "" then
    data sendPath envelope
  else
    .error (.rejected envelope.error)

/-- The nonce of the latest block of a shard. -/
def readLatest (shard : UInt32) (reply : GatewayReply) :
    Except GatewayError UInt64 := do
  let (_, envelope) ← open? statusData reply
  data (statusPath shard) envelope

/-- The transactions of a block. -/
def readBlock (shard : UInt32) (nonce : UInt64) (reply : GatewayReply) :
    Except GatewayError (List ObservedTransaction) := do
  let (_, envelope) ← open? blockData reply
  data (blockPath shard nonce) envelope

/-- What the network knows of a hash. -/
def readLookup (hash : String) (reply : GatewayReply) :
    Except GatewayError (Option ObservedTransaction) := do
  let (status, envelope) ← open? lookupData reply
  if status = 404 ∨ Pieces.occurs "not found".toList envelope.error.toList then
    return none
  else
    (data (lookupPath hash) envelope).map some

end Gateway

end BatchRelay
