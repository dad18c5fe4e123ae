import BatchRelay.Batch.Request
import BatchRelay.Batch.View
import BatchRelay.Json.Printer
import BatchRelay.Transaction.Record

/-!
# Batches in JSON

The record format of stored batches, of requests and of views.  The view of an
item carries the members of its transaction next to its own, so it has no form
as an array; the members that are not its own are kept until the end and have
to be fit for keeping.
-/

namespace BatchRelay

namespace ItemStatus

/-- The written name of a status. -/
def name : ItemStatus → String
  | .pending => "pending"
  | .success => "success"
  | .invalid => "invalid"
  | .dropped => "dropped"

def ofJson (value : Json) : Except Defect ItemStatus := do
  match ← Json.asName value with
  | "pending" => .ok .pending
  | "success" => .ok .success
  | "invalid" => .ok .invalid
  | "dropped" => .ok .dropped
  | _ => .error .shape

def toJson (status : ItemStatus) : Json :=
  .text status.name

end ItemStatus

namespace BatchStatus

/-- The written name of a status. -/
def name : BatchStatus → String
  | .pending => "pending"
  | .invalid => "invalid"
  | .dropped => "dropped"
  | .success => "success"

def ofJson (value : Json) : Except Defect BatchStatus := do
  match ← Json.asName value with
  | "pending" => .ok .pending
  | "invalid" => .ok .invalid
  | "dropped" => .ok .dropped
  | "success" => .ok .success
  | _ => .error .shape

def toJson (status : BatchStatus) : Json :=
  .text status.name

end BatchStatus

namespace HashedTransaction

structure Draft where
  payload : Option Transaction := none
  hash : Option String := none

def Draft.take (draft : Draft) (name : String) (value : Json) :
    Except Defect Draft :=
  match name with
  | "payload" => do
      let payload ← Json.fill draft.payload (Transaction.ofJson value)
      return { draft with payload := payload }
  | "hash" => do
      return { draft with hash := ← Json.fill draft.hash value.asText }
  | _ => do
      value.skip
      return draft

def ofJson (value : Json) : Except Defect HashedTransaction := do
  let draft ← Json.takeRecord ["payload", "hash"] Draft.take {} value
  return ⟨← Json.need draft.payload, ← Json.need draft.hash⟩

def toJson (transaction : HashedTransaction) : Json :=
  .record [("payload", transaction.payload.toJson),
    ("hash", .text transaction.hash)]

end HashedTransaction

namespace Item

structure Draft where
  transaction : Option HashedTransaction := none
  status : Option ItemStatus := none
  error : Option (Option String) := none

def Draft.take (draft : Draft) (name : String) (value : Json) :
    Except Defect Draft :=
  match name with
  | "transaction" => do
      let transaction ←
        Json.fill draft.transaction (HashedTransaction.ofJson value)
      return { draft with transaction := transaction }
  | "status" => do
      let status ← Json.fill draft.status (ItemStatus.ofJson value)
      return { draft with status := status }
  | "error" => do
      let error ← Json.fill draft.error (value.asOptional Json.asText)
      return { draft with error := error }
  | _ => do
      value.skip
      return draft

def ofJson (value : Json) : Except Defect Item := do
  let draft ←
    Json.takeRecord ["transaction", "status", "error"] Draft.take {} value
  return ⟨← Json.need draft.transaction, ← Json.need draft.status,
    draft.error.join⟩

def toJson (item : Item) : Json :=
  .record ([("transaction", item.transaction.toJson),
    ("status", item.status.toJson)] ++
    Json.optionalMember "error" .text item.error)

end Item

namespace Group

structure Draft where
  items : Option (List Item) := none

def Draft.take (draft : Draft) (name : String) (value : Json) :
    Except Defect Draft :=
  match name with
  | "items" => do
      return { items := ← Json.fill draft.items (value.asList Item.ofJson) }
  | _ => do
      value.skip
      return draft

def ofJson (value : Json) : Except Defect Group := do
  let draft ← Json.takeRecord ["items"] Draft.take {} value
  return ⟨← Json.need draft.items⟩

def toJson (group : Group) : Json :=
  .record [("items", .array (group.items.map Item.toJson))]

end Group

namespace Batch

structure Draft where
  id : Option String := none
  groups : Option (List Group) := none
  status : Option BatchStatus := none
  sourceIp : Option (Option String) := none

def Draft.take (draft : Draft) (name : String) (value : Json) :
    Except Defect Draft :=
  match name with
  | "id" => do
      return { draft with id := ← Json.fill draft.id value.asText }
  | "groups" => do
      let groups ← Json.fill draft.groups (value.asList Group.ofJson)
      return { draft with groups := groups }
  | "status" => do
      let status ← Json.fill draft.status (BatchStatus.ofJson value)
      return { draft with status := status }
  | "sourceIp" => do
      let sourceIp ← Json.fill draft.sourceIp (value.asOptional Json.asText)
      return { draft with sourceIp := sourceIp }
  | _ => do
      value.skip
      return draft

def ofJson (value : Json) : Except Defect Batch := do
  let draft ←
    Json.takeRecord ["id", "groups", "status", "sourceIp"] Draft.take {} value
  return ⟨← Json.need draft.id, ← Json.need draft.groups,
    ← Json.need draft.status, draft.sourceIp.join⟩

def toJson (batch : Batch) : Json :=
  .record ([("id", .text batch.id),
    ("groups", .array (batch.groups.map Group.toJson)),
    ("status", batch.status.toJson)] ++
    Json.optionalMember "sourceIp" .text batch.sourceIp)

/-- The text under which a batch is stored. -/
def render (batch : Batch) : String :=
  batch.toJson.render

/-- The batch that a stored text stands for. -/
def parse (source : String) : Except Defect Batch :=
  Json.decodeText ofJson source

end Batch

namespace BatchRequest

structure Draft where
  id : Option String := none
  transactions : Option (List (List Transaction)) := none

def Draft.take (draft : Draft) (name : String) (value : Json) :
    Except Defect Draft :=
  match name with
  | "id" => do
      return { draft with id := ← Json.fill draft.id value.asText }
  | "transactions" => do
      let transactions ← Json.fill draft.transactions
        (value.asList (Json.asList Transaction.ofJson))
      return { draft with transactions := transactions }
  | _ => do
      value.skip
      return draft

def ofJson (value : Json) : Except Defect BatchRequest := do
  let draft ← Json.takeRecord ["id", "transactions"] Draft.take {} value
  return ⟨← Json.need draft.id, ← Json.need draft.transactions⟩

def toJson (request : BatchRequest) : Json :=
  .record [("id", .text request.id),
    ("transactions", .array (request.transactions.map fun group =>
      .array (group.map Transaction.toJson)))]

end BatchRequest

namespace TransactionView

/-- The own members read so far, and all other members in their order. -/
structure Draft where
  hash : Option String := none
  status : Option ItemStatus := none
  error : Option (Option String) := none
  others : List (Option String × Json) := []

/-- Takes one member.  `level` counts the arrays and objects around it. -/
def Draft.take (level : Nat) (draft : Draft) (name : String) (value : Json) :
    Except Defect Draft :=
  match name with
  | "hash" => do
      return { draft with hash := ← Json.fill draft.hash value.asText }
  | "status" => do
      let status ← Json.fill draft.status (ItemStatus.ofJson value)
      return { draft with status := status }
  | "error" => do
      let error ← Json.fill draft.error (value.asOptional Json.asText)
      return { draft with error := error }
  | other =>
      if value.keepable (Json.deepest - level) then
        .ok { draft with others := draft.others ++ [(some other, value)] }
      else
        .error .malformed

/-- Reads the view of an item whose members lie inside `level` arrays and
objects. -/
def ofJsonAt (level : Nat) : Json → Except Defect TransactionView
  | .object members => do
      let draft ← Json.takeMembers (Draft.take level) {} members
      let hash ← Json.need draft.hash
      let status ← Json.need draft.status
      let payload ←
        (← Json.takeMembers Transaction.Draft.take {} draft.others).finish
      return ⟨payload, hash, status, draft.error.join⟩
  | other => Json.mismatch other

/-- Reads the view of an item that stands alone. -/
def ofJson (value : Json) : Except Defect TransactionView :=
  ofJsonAt 1 value

def toJson (view : TransactionView) : Json :=
  .record (view.payload.members ++
    [("hash", .text view.hash), ("status", view.status.toJson)] ++
    Json.optionalMember "error" .text view.error)

end TransactionView

namespace BatchView

structure Draft where
  id : Option String := none
  status : Option BatchStatus := none
  transactions : Option (List TransactionView) := none

def Draft.take (draft : Draft) (name : String) (value : Json) :
    Except Defect Draft :=
  match name with
  | "id" => do
      return { draft with id := ← Json.fill draft.id value.asText }
  | "status" => do
      let status ← Json.fill draft.status (BatchStatus.ofJson value)
      return { draft with status := status }
  | "transactions" => do
      let transactions ←
        Json.fill draft.transactions (value.asList (TransactionView.ofJsonAt 3))
      return { draft with transactions := transactions }
  | _ => do
      value.skip
      return draft

def ofJson (value : Json) : Except Defect BatchView := do
  let draft ←
    Json.takeRecord ["id", "status", "transactions"] Draft.take {} value
  return ⟨← Json.need draft.id, ← Json.need draft.status,
    ← Json.need draft.transactions⟩

def toJson (view : BatchView) : Json :=
  .record [("id", .text view.id), ("status", view.status.toJson),
    ("transactions", .array (view.transactions.map TransactionView.toJson))]

end BatchView

end BatchRelay
