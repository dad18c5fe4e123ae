import BatchRelay.Json.Record
import BatchRelay.Transaction.Basic

/-!
# Transactions in JSON

The member names are those of the network.  Absent optional fields are not
written.
-/

namespace BatchRelay

namespace Transaction

/-- The fields in their fixed order. -/
def fieldNames : List String :=
  ["nonce", "value", "receiver", "sender", "gasPrice", "gasLimit", "data",
    "chainID", "version", "options", "signature", "guardian",
    "guardianSignature"]

/-- The fields that have been read so far. -/
structure Draft where
  nonce : Option UInt64 := none
  value : Option String := none
  receiver : Option String := none
  sender : Option String := none
  gasPrice : Option UInt64 := none
  gasLimit : Option UInt64 := none
  data : Option (Option String) := none
  chainId : Option String := none
  version : Option UInt32 := none
  options : Option (Option UInt32) := none
  signature : Option String := none
  guardian : Option (Option String) := none
  guardianSignature : Option (Option String) := none

namespace Draft

open Json in
/-- Takes one member. -/
def take (draft : Draft) (name : String) (value : Json) :
    Except Defect Draft :=
  match name with
  | "nonce" => do
      return { draft with nonce := ← fill draft.nonce (asWord64 value) }
  | "value" => do
      return { draft with value := ← fill draft.value (asText value) }
  | "receiver" => do
      return { draft with receiver := ← fill draft.receiver (asText value) }
  | "sender" => do
      return { draft with sender := ← fill draft.sender (asText value) }
  | "gasPrice" => do
      return { draft with gasPrice := ← fill draft.gasPrice (asWord64 value) }
  | "gasLimit" => do
      return { draft with gasLimit := ← fill draft.gasLimit (asWord64 value) }
  | "data" => do
      return { draft with data := ← fill draft.data (asOptional asText value) }
  | "chainID" => do
      return { draft with chainId := ← fill draft.chainId (asText value) }
  | "version" => do
      return { draft with version := ← fill draft.version (asWord32 value) }
  | "options" => do
      let options ← fill draft.options (asOptional asWord32 value)
      return { draft with options := options }
  | "signature" => do
      return { draft with signature := ← fill draft.signature (asText value) }
  | "guardian" => do
      let guardian ← fill draft.guardian (asOptional asText value)
      return { draft with guardian := guardian }
  | "guardianSignature" => do
      let signature ← fill draft.guardianSignature (asOptional asText value)
      return { draft with guardianSignature := signature }
  | _ => do
      skip value
      return draft

open Json in
/-- The transaction, once all members are taken. -/
def finish (draft : Draft) : Except Defect Transaction := do
  return {
    nonce := ← need draft.nonce
    value := ← need draft.value
    receiver := ← need draft.receiver
    sender := ← need draft.sender
    gasPrice := ← need draft.gasPrice
    gasLimit := ← need draft.gasLimit
    data := draft.data.join
    chainId := ← need draft.chainId
    version := ← need draft.version
    options := draft.options.join
    signature := ← need draft.signature
    guardian := draft.guardian.join
    guardianSignature := draft.guardianSignature.join }

end Draft

/-- Reads a transaction. -/
def ofJson (value : Json) : Except Defect Transaction := do
  (← Json.takeRecord fieldNames Draft.take {} value).finish

/-- The members of a transaction. -/
def members (transaction : Transaction) : List (String × Json) :=
  [("nonce", .nat transaction.nonce.toNat),
    ("value", .text transaction.value),
    ("receiver", .text transaction.receiver),
    ("sender", .text transaction.sender),
    ("gasPrice", .nat transaction.gasPrice.toNat),
    ("gasLimit", .nat transaction.gasLimit.toNat)] ++
  Json.optionalMember "data" .text transaction.data ++
  [("chainID", .text transaction.chainId),
    ("version", .nat transaction.version.toNat)] ++
  Json.optionalMember "options" (fun options => .nat options.toNat)
    transaction.options ++
  [("signature", .text transaction.signature)] ++
  Json.optionalMember "guardian" .text transaction.guardian ++
  Json.optionalMember "guardianSignature" .text transaction.guardianSignature

/-- Writes a transaction. -/
def toJson (transaction : Transaction) : Json :=
  .record transaction.members

end Transaction

end BatchRelay
