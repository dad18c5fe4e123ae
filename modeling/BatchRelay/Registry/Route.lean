import BatchRelay.Text.Pieces
import BatchRelay.Time.Timestamp

/-!
# Routes

A route says where the outcome of a transaction belongs: to which batch of
which address, and since when the transaction is on its way.  It is stored as
three fields with semicolons between them.

Reading forgives fields that are missing.  A missing or unreadable instant is
read as the beginning of 2021, so the transaction counts as long unseen.
-/

namespace BatchRelay

structure Route where
  batchId : String
  address : String
  submittedAt : Instant
  deriving DecidableEq

namespace Route

/-- The instant of a route that names none: the beginning of 2021. -/
def unknownInstant : Instant :=
  ⟨1609459200, 0⟩

/-- The stored text of a route. -/
def encode (route : Route) : String :=
  String.ofList (route.batchId.toList ++ ';' :: route.address.toList ++
    ';' :: Timestamp.print route.submittedAt)

/-- The route that a stored text stands for. -/
def decode (value : String) : Route :=
  let (batchId, afterId) := Pieces.cut ';' value.toList
  let (address, afterAddress) := Pieces.cut ';' (afterId.getD [])
  { batchId := String.ofList batchId
    address := String.ofList address
    submittedAt := (afterAddress.bind Timestamp.read?).getD unknownInstant }

end Route

end BatchRelay
