import BatchRelay.Engine.Reconciliation

/-!
# Passes

A watcher tick and a sweep both go through transactions, apply outcomes and
announce at the end what has changed: one event for each batch, with its hashes
in the order in which they were dealt with.  The events come in the order of
addresses, and of identifiers where the addresses are the same.
-/

namespace BatchRelay

/-- An outcome that a pass has tried to apply, and what came of it. -/
structure Attempt where
  hash : String
  route : Route
  result : Except BatchError Reconciled

namespace Attempt

/-- Whether an item has changed. -/
def isChange (attempt : Attempt) : Bool :=
  match attempt.result with
  | .ok reconciled => reconciled.isChange
  | .error _ => false

/-- Applies an outcome along a route. -/
def make (lifetimes : Lifetimes) (hash : String) (route : Route)
    (outcome : ItemStatus) : Activity Attempt := do
  let result ← reconcile lifetimes hash route.batchId route.address outcome
  return ⟨hash, route, result⟩

end Attempt

/-- Whether the batch of one event comes before the batch of another. -/
def BatchUpdated.comesBefore (left right : BatchUpdated) : Bool :=
  left.address < right.address ||
    (left.address = right.address && left.batchId < right.batchId)

/-- Whether two events are about the same batch. -/
def BatchUpdated.sameBatch (left right : BatchUpdated) : Bool :=
  left.address = right.address && left.batchId = right.batchId

/-- Adds an event to events in order; events about one batch become one. -/
def addEvent (event : BatchUpdated) : List BatchUpdated → List BatchUpdated
  | [] => [event]
  | head :: tail =>
      if event.sameBatch head then
        { head with hashes := head.hashes ++ event.hashes } :: tail
      else if event.comesBefore head then
        event :: head :: tail
      else
        head :: addEvent event tail

/-- The events that announce the changes of a pass. -/
def announcements (attempts : List Attempt) : List BatchUpdated :=
  (attempts.filter Attempt.isChange).foldl (fun events attempt =>
    addEvent ⟨attempt.route.address, attempt.route.batchId, [attempt.hash]⟩ events)
    []

/-- Publishes events in order. -/
def publishAll : List BatchUpdated → Activity Unit
  | [] => return ()
  | event :: events => do
      Activity.request (.publish event)
      publishAll events

end BatchRelay
