import BatchRelay.Batch.Basic

/-!
# Views of batches

What clients are shown of a batch: its items in the order of execution,
without the groups.  An invalid batch never goes on, so its pending items are
shown as invalid.
-/

namespace BatchRelay

/-- What clients are shown of an item. -/
structure TransactionView where
  payload : Transaction
  hash : String
  status : ItemStatus
  error : Option String
  deriving DecidableEq

/-- What clients are shown of a batch. -/
structure BatchView where
  id : String
  status : BatchStatus
  transactions : List TransactionView
  deriving DecidableEq

namespace Batch

/-- The status that is shown for an item of a batch with a given status. -/
def shownStatus (batch : BatchStatus) (item : ItemStatus) : ItemStatus :=
  if batch = .invalid ∧ item = .pending then .invalid else item

/-- What clients are shown of a batch. -/
def view (batch : Batch) : BatchView where
  id := batch.id
  status := batch.status
  transactions := (batch.groups.flatMap Group.items).map fun item =>
    ⟨item.payload, item.hash, shownStatus batch.status item.status, item.error⟩

end Batch

end BatchRelay
