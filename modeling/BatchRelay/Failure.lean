/-!
# What can go wrong

Each kind of failure is a cause with the data that its text needs.  The texts
are written in one place per kind, and `BatchError.isValidation` separates the
faults of a request from the faults of the surroundings.

An overflow is not reported to anyone: it ends the work in which it happens.
-/

namespace BatchRelay

/-- A sum that its type has no room for. -/
inductive Overflow where
  /-- There is no nonce after the last one of all. -/
  | nonce
  /-- The clock never gets to the end of a time to live. -/
  | deadline
  deriving DecidableEq

/-- Failures of the cache. -/
inductive CacheError where
  | backend (reason : String)
  | serialization (reason : String)
  deriving DecidableEq

def CacheError.message : CacheError → String
  | .backend reason => s!"Cache backend error: {reason}"
  | .serialization reason => s!"Cache serialization error: {reason}"

/-- Failures of a call to the network. -/
inductive GatewayError where
  /-- The network refused the transaction and said why. -/
  | rejected (reason : String)
  /-- No answer came back. -/
  | transport (reason : String)
  /-- The answer could not be understood. -/
  | decode (reason : String)
  deriving DecidableEq

def GatewayError.message : GatewayError → String
  | .rejected reason => s!"Transaction rejected: {reason}"
  | .transport reason => s!"Gateway transport error: {reason}"
  | .decode reason => s!"Gateway decode error: {reason}"

/-- The network's own words, when it refused a transaction. -/
def GatewayError.rejection? : GatewayError → Option String
  | .rejected reason => some reason
  | _ => none

/-- Failures to encode a transaction. -/
inductive EncodingError where
  | address (text : String)
  | value (text : String)
  | field (name encoding : String)
  deriving DecidableEq

def EncodingError.message : EncodingError → String
  | .address text => s!"'{text}' is not a valid erd1 address"
  | .value text => s!"value '{text}' is not a decimal integer below 2^256"
  | .field name encoding => s!"{name} must be {encoding} encoded"

/-- Failures of batch operations. -/
inductive BatchError where
  | emptyBatch
  | emptyGroup (index : Nat)
  | duplicateBatch (id address : String)
  | senderMismatch (expected found : String)
  | malformedPayload (reason : String)
  | encoding (error : EncodingError)
  | cache (error : CacheError)
  | gateway (error : GatewayError)
  deriving DecidableEq

def BatchError.message : BatchError → String
  | .emptyBatch => "Batch must contain at least one group"
  | .emptyGroup index => s!"Group {index} of the batch is empty"
  | .duplicateBatch id address =>
      s!"Duplicate batch detected with id '{id}' for address {address}"
  | .senderMismatch expected found =>
      s!"Sender for all transactions should be '{expected}', found '{found}'"
  | .malformedPayload reason => s!"Malformed transaction payload: {reason}"
  | .encoding error =>
      let reason := error.message
      s!"Malformed transaction payload: {reason}"
  | .cache error => error.message
  | .gateway error => error.message

/-- Whether the request is at fault, and not the cache or the network. -/
def BatchError.isValidation : BatchError → Bool
  | .cache _ | .gateway _ => false
  | _ => true

end BatchRelay
