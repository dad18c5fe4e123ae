import BatchRelay.Engine.Validation
import BatchRelay.Registry.Routes

/-!
# Sending groups and accepting batches

The items of a group are sent in order.  The first one that the network does
not take ends the sending, and later items stay pending.  A hash is indexed as
soon as the network has taken its transaction; when the index cannot be written
the sending goes on, because the transaction is on its way in any case.

A new batch is stored only when its whole first group has been taken.
-/

namespace BatchRelay

/-- Sends items in order.  `position` is the place of the first of them. -/
def sendItems (lifetimes : Lifetimes) (route : Route) :
    Position → List Item → Activity (List Item)
  | _, [] => return []
  | position, item :: items => do
      let origin : Origin := ⟨route.address, route.batchId, position⟩
      match ← Activity.request (.send origin item.payload) with
      | .ok hash =>
          let _ ← Routes.insert lifetimes hash route
          let others ← sendItems lifetimes route
            ⟨position.group, position.item + 1⟩ items
          return item.adopt hash :: others
      | .error error => return item.refuse error.rejection? :: items

/-- Sends the items of one group of a batch. -/
def startGroup (lifetimes : Lifetimes) (batch : Batch) (index : Nat) :
    Activity Batch := do
  match batch.address?, batch.groups[index]? with
  | some address, some group =>
      let submittedAt ← Activity.request .now
      let items ← sendItems lifetimes ⟨batch.id, address, submittedAt⟩
        ⟨index, 0⟩ group.items
      return batch.modifyGroup index fun _ => ⟨items⟩
  | _, _ => return batch

/-- The hashes of the invalid items of one group. -/
def Batch.invalidHashesAt (batch : Batch) (index : Nat) : List String :=
  ((batch.groups[index]?).map Group.invalidHashes).getD []

/-- Accepts a new batch and sends its first group.  When the network does not
take the whole group the batch comes back invalid and is not stored. -/
def submit (lifetimes : Lifetimes) (request : BatchRequest)
    (sourceIp : Option String) : Activity (Except BatchError Batch) := do
  match ← request.validate with
  | .error error => return .error error
  | .ok address =>
      match request.toBatch sourceIp with
      | .error error => return .error (.encoding error)
      | .ok batch =>
          let batch ← startGroup lifetimes batch 0
          if batch.invalidHashesAt 0 ≠ [] then
            return .ok { batch with status := .invalid }
          else
            match ← Records.put lifetimes address batch with
            | .error error => return .error (.cache error)
            | .ok () => return .ok batch

end BatchRelay
