import BatchRelay.Batch.Basic

/-!
# Requests

What a client hands in: an identifier and the transactions of each group.
-/

namespace BatchRelay

structure BatchRequest where
  id : String
  transactions : List (List Transaction)
  deriving DecidableEq

namespace BatchRequest

/-- The pending batch of a request.  The first transaction that cannot be
encoded makes it fail. -/
def toBatch (request : BatchRequest) (sourceIp : Option String) :
    Except EncodingError Batch := do
  let groups ← request.transactions.mapM fun transactions => do
    return Group.mk (← transactions.mapM Item.fresh)
  return ⟨request.id, groups, .pending, sourceIp⟩

end BatchRequest

end BatchRelay
