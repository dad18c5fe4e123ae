import BatchRelay.Engine.Submission

/-!
# Applying outcomes

An outcome is applied to the first item with its hash, unless that item has one
already.  A pending batch takes over a failure at once.  When the last item of
a group succeeds the next group is sent, or the batch has succeeded if there is
none; a next group that the network does not take makes the batch invalid, and
that is announced right away.

Whatever happens, the route of the hash is removed at the end.
-/

namespace BatchRelay

/-- What has come of an outcome. -/
inductive Reconciled where
  /-- There is no such batch. -/
  | batchMissing
  /-- The batch has no item with the hash. -/
  | itemMissing
  /-- The item had an outcome before. -/
  | unchanged
  /-- The item has taken the outcome, and the batch now has this status. -/
  | applied (status : BatchStatus)
  deriving DecidableEq

/-- Whether an item has changed. -/
def Reconciled.isChange : Reconciled → Bool
  | .applied _ => true
  | _ => false

/-- Sends the group after one that has succeeded. -/
def startNext (lifetimes : Lifetimes) (address batchId : String)
    (batch : Batch) (next : Nat) : Activity Batch := do
  let batch ← startGroup lifetimes batch next
  let invalid := batch.invalidHashesAt next
  if invalid = [] then
    return batch
  else
    Activity.request (.publish ⟨address, batchId, invalid⟩)
    return { batch with status := .invalid }

/-- Whether every item of one group of a batch has succeeded. -/
def Batch.groupSuccessful (batch : Batch) (index : Nat) : Bool :=
  ((batch.groups[index]?).map Group.isSuccessful).getD false

/-- Draws the consequences for a batch one of whose items, in group `index`,
has just taken an outcome. -/
def follow (lifetimes : Lifetimes) (address batchId : String) (batch : Batch)
    (index : Nat) (outcome : ItemStatus) : Activity Batch := do
  if batch.status ≠ .pending then
    return batch
  else
    match outcome with
    | .invalid => return { batch with status := .invalid }
    | .dropped => return { batch with status := .dropped }
    | .success =>
        if batch.groupSuccessful index then
          if index + 1 = batch.groups.length then
            return { batch with status := .success }
          else
            startNext lifetimes address batchId batch (index + 1)
        else
          return batch
    | .pending => return batch

/-- Applies an outcome to a stored batch. -/
def applyOutcome (lifetimes : Lifetimes) (hash batchId address : String)
    (outcome : ItemStatus) : Activity (Except BatchError Reconciled) := do
  match ← Records.get address batchId with
  | .error error => return .error (.cache error)
  | .ok none => return .ok .batchMissing
  | .ok (some batch) =>
      match batch.locate hash with
      | none => return .ok .itemMissing
      | some position =>
          let terminal := (batch.item? position).any fun item =>
            item.status.isTerminal
          if terminal then
            return .ok .unchanged
          else
            let batch ← follow lifetimes address batchId
              (batch.setItemStatus position outcome) position.group outcome
            match ← Records.put lifetimes address batch with
            | .error error => return .error (.cache error)
            | .ok () => return .ok (.applied batch.status)

/-- Applies an outcome and removes the route of its hash. -/
def reconcile (lifetimes : Lifetimes) (hash batchId address : String)
    (outcome : ItemStatus) : Activity (Except BatchError Reconciled) := do
  let result ← applyOutcome lifetimes hash batchId address outcome
  let _ ← Routes.remove hash
  return result

end BatchRelay
