import BatchRelay.Registry.Records

/-!
# Checking requests

A request is checked before anything is sent or stored.  The checks come in a
fixed order, and the first one that fails is reported: the shape of the
request, a stored batch of the same name, one sender for all transactions, and
the transactions one by one.
-/

namespace BatchRelay

namespace BatchRequest

/-- The sender of the first transaction of a request of the right shape. -/
def checkShape (request : BatchRequest) : Except BatchError String :=
  match request.transactions with
  | [] => .error .emptyBatch
  | groups =>
      match groups.findIdx? List.isEmpty with
      | some index => .error (.emptyGroup index)
      | none =>
          if request.id = "" ∨ ';' ∈ request.id.toList then
            let id := request.id
            .error (.malformedPayload s!"invalid batch id '{id}'")
          else
            match groups.flatten with
            | first :: _ => .ok first.sender
            | [] => .error .emptyBatch

/-- Checks that all transactions have this sender. -/
def checkSenders (request : BatchRequest) (address : String) :
    Except BatchError Unit :=
  match request.transactions.flatten.find? fun transaction =>
      transaction.sender ≠ address with
  | some transaction => .error (.senderMismatch address transaction.sender)
  | none => .ok ()

end BatchRequest

namespace Transaction

/-- What is missing from a transaction, or what keeps it from being encoded. -/
def fault? (transaction : Transaction) : Option String :=
  if transaction.sender = "" ∨ transaction.receiver = "" then
    some "sender and receiver are required"
  else if transaction.chainId = "" then
    some "chain id is required"
  else if transaction.signature = "" then
    some "signature is required"
  else
    match transaction.hash with
    | .ok _ => none
    | .error error => some error.message

/-- Checks one transaction. -/
def check (transaction : Transaction) : Except BatchError Unit :=
  match transaction.fault? with
  | some reason =>
      let nonce := transaction.nonce.toNat
      .error (.malformedPayload s!"transaction with nonce {nonce}: {reason}")
  | none => .ok ()

end Transaction

namespace BatchRequest

/-- Checks what does not depend on the cache. -/
def checkTransactions (request : BatchRequest) (address : String) :
    Except BatchError Unit := do
  request.checkSenders address
  request.transactions.flatten.forM Transaction.check

/-- Checks a request and returns the sender of its transactions. -/
def validate (request : BatchRequest) :
    Activity (Except BatchError String) := do
  match request.checkShape with
  | .error error => return .error error
  | .ok address =>
      match ← Records.get address request.id with
      | .error error => return .error (.cache error)
      | .ok (some _) => return .error (.duplicateBatch request.id address)
      | .ok none => return (request.checkTransactions address).map fun _ => address

end BatchRequest

end BatchRelay
