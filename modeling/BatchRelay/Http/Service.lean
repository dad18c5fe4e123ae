import BatchRelay.Engine.Submission
import BatchRelay.Http.Message

/-!
# The service over HTTP

Three routes: `POST /batch` submits a batch, `GET /batch/<address>` lists the
batches of an address, and `GET /batch/<address>/<id>` shows one batch.  `HEAD`
is `GET` without the body.

Faults of a request are client errors; all other failures are server errors.
Both carry their text in a JSON body.  Requests that do not get as far as the
engine are answered without one.
-/

namespace BatchRelay

/-- A failure as clients see it. -/
inductive ApiError where
  | badRequest (message : String)
  | notFound (message : String)
  | internal (message : String)
  deriving DecidableEq

namespace ApiError

/-- The client's view of a failure of the engine. -/
def ofBatchError (error : BatchError) : ApiError :=
  if error.isValidation then .badRequest error.message
  else .internal error.message

def status : ApiError → Nat
  | .badRequest _ => 400
  | .notFound _ => 404
  | .internal _ => 500

def message : ApiError → String
  | .badRequest message | .notFound message | .internal message => message

/-- The body that goes with a failure. -/
def body (error : ApiError) : Json :=
  .record [("statusCode", .nat error.status), ("message", .text error.message)]

def response (error : ApiError) : HttpResponse :=
  ⟨error.status, some error.body⟩

end ApiError

namespace Service

/-- What a path leads to. -/
inductive Resource where
  /-- The place where batches are submitted. -/
  | batches
  /-- The batches of an address; the part of the path is still encoded. -/
  | batchesOf (address : List Char)
  /-- One batch; the parts of the path are still encoded. -/
  | batch (address id : List Char)
  deriving DecidableEq

/-- What a path leads to, if anything.  The last part must not be empty. -/
def resource? (path : List Char) : Option Resource :=
  match path.splitOn '/' with
  | [[], root] => if root = "batch".toList then some .batches else none
  | [[], root, address] =>
      if root = "batch".toList ∧ address ≠ [] then some (.batchesOf address)
      else none
  | [[], root, address, id] =>
      if root = "batch".toList ∧ id ≠ [] then some (.batch address id) else none
  | _ => none

/-- A response without a body. -/
def plain (status : Nat) : HttpResponse :=
  ⟨status, none⟩

/-- The client's address as the proxies in front of the service report it. -/
def sourceIp? (request : HttpRequest) : Option String :=
  ["x-forwarded-for", "x-real-ip"].findSome? fun name =>
    (request.text? name).filter (· ≠ "")

/-- Answers a submission. -/
def submitBatch (lifetimes : Lifetimes) (request : HttpRequest) :
    Activity HttpResponse := do
  if (request.text? "content-type").any MediaType.isJson then
    match Json.decodeFront BatchRequest.ofJson request.body with
    | .error .malformed => return plain 400
    | .error .shape => return plain 422
    | .ok batchRequest =>
        match ← submit lifetimes batchRequest (sourceIp? request) with
        | .error error => return (ApiError.ofBatchError error).response
        | .ok batch => return ⟨200, some batch.view.toJson⟩
  else
    return plain 415

/-- Shows one batch. -/
def showBatch (address id : List Char) : Activity HttpResponse := do
  match percentText? address, percentText? id with
  | some address, some id =>
      match ← Records.get address id with
      | .error error => return (ApiError.ofBatchError (.cache error)).response
      | .ok none =>
          return (ApiError.notFound "Transaction batch not found").response
      | .ok (some batch) => return ⟨200, some batch.view.toJson⟩
  | _, _ => return plain 400

/-- Lists the batches of an address. -/
def listBatches (address : List Char) : Activity HttpResponse := do
  match percentText? address with
  | some address =>
      match ← Records.list address with
      | .error error => return (ApiError.ofBatchError (.cache error)).response
      | .ok batches =>
          let views := batches.map fun batch => batch.view.toJson
          return ⟨200, some (.array views)⟩
  | none => return plain 400

/-- Answers a request that only asks. -/
def showResource : Resource → Activity HttpResponse
  | .batches => return plain 405
  | .batchesOf address => listBatches address
  | .batch address id => showBatch address id

/-- Answers a request. -/
def handle (lifetimes : Lifetimes) (request : HttpRequest) :
    Activity HttpResponse := do
  match resource? request.path with
  | none => return plain 404
  | some resource =>
      match request.method with
      | "GET" => showResource resource
      | "HEAD" => return { ← showResource resource with body := none }
      | "POST" =>
          if resource = .batches then submitBatch lifetimes request
          else return plain 405
      | _ => return plain 405

end Service

end BatchRelay
