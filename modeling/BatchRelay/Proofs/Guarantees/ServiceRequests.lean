import BatchRelay.Http.Service
import BatchRelay.Proofs.Engine.Steps

/-!
# Requests to the service

A request either submits a batch, or it looks into the cache and changes
nothing.  Only a `POST` to the place of all batches submits, and only when its
body is a batch request; the response then says how the submission went.
-/

namespace BatchRelay

/-! ## Activities that only read -/

/-- Whether a request looks into the cache. -/
def Request.isRead : Request → Bool
  | .read _ | .readMany _ | .scan _ => true
  | _ => false

/-- An activity that only looks into the cache, whatever it finds there. -/
def Activity.OnlyReads {α : Type} : Activity α → Prop
  | .done _ => True
  | .ask request next =>
      request.isRead = true ∧ ∀ answer, (next answer).OnlyReads

namespace Activity.OnlyReads

variable {α β : Type}

theorem pure (result : α) : (Pure.pure result : Activity α).OnlyReads :=
  trivial

theorem request {request : Request} (isRead : request.isRead = true) :
    (Activity.request request).OnlyReads :=
  ⟨isRead, fun _ => trivial⟩

theorem bind {first : Activity α} {next : α → Activity β} (reads : first.OnlyReads)
    (others : ∀ result, (next result).OnlyReads) : (first >>= next).OnlyReads := by
  induction first with
  | done result => exact others result
  | ask request answered induction =>
      exact ⟨reads.1, fun answer => induction answer (reads.2 answer)⟩

end Activity.OnlyReads

namespace Surroundings

variable {α : Type} {surroundings : Surroundings}

variable (surroundings) in
theorem answer_of_isRead {request : Request} (isRead : request.isRead = true)
    (world : World) :
    ∃ moment, (surroundings.answer world request).2 = { world with moment } := by
  cases request with
  | read key | scan leading =>
      simp only [Surroundings.answer, Surroundings.access]
      split <;> exact ⟨_, rfl⟩
  | readMany keys =>
      simp only [Surroundings.answer]
      split <;> exact ⟨_, rfl⟩
  | _ => cases isRead

/-- Time passes, and nothing else changes. -/
theorem run_of_onlyReads {activity : Activity α} (reads : activity.OnlyReads)
    (world : World) :
    ∃ moment, (surroundings.run activity world).2 = { world with moment } := by
  induction activity generalizing world with
  | done result => exact ⟨world.moment, rfl⟩
  | ask request next induction =>
      obtain ⟨moment, passed⟩ := answer_of_isRead surroundings reads.1 world
      rcases answered : surroundings.answer world request with ⟨reply, world'⟩
      rw [answered] at passed
      obtain rfl : world' = { world with moment } := passed
      obtain ⟨later, ended⟩ := induction reply (reads.2 reply) { world with moment }
      exact ⟨later, by simpa only [Surroundings.run, answered] using ended⟩

end Surroundings

/-! ## Requests -/

namespace Service

theorem onlyReads_showBatch (address id : List Char) :
    (showBatch address id).OnlyReads := by
  unfold showBatch
  split
  · refine .bind ?_ ?_
    · refine .bind (.request rfl) ?_
      rintro (error | _ | text) <;> exact .pure _
    · rintro (error | _ | batch) <;> exact .pure _
  · exact .pure _

theorem onlyReads_listBatches (address : List Char) :
    (listBatches address).OnlyReads := by
  unfold listBatches
  split
  · refine .bind ?_ ?_
    · refine .bind (.request rfl) ?_
      rintro (error | keys)
      · exact .pure _
      · refine .bind (.request rfl) ?_
        rintro (error | values) <;> exact .pure _
    · rintro (error | batches) <;> exact .pure _
  · exact .pure _

theorem onlyReads_showResource (resource : Resource) :
    (showResource resource).OnlyReads := by
  cases resource with
  | batches => exact .pure _
  | batchesOf address => exact onlyReads_listBatches address
  | batch address id => exact onlyReads_showBatch address id

/-- The response to a submission. -/
def submitted : Except BatchError Batch → HttpResponse
  | .error error => (ApiError.ofBatchError error).response
  | .ok batch => ⟨200, some batch.view.toJson⟩

/-- A request that submits a batch. -/
structure Submits (request : HttpRequest) (batchRequest : BatchRequest) : Prop where
  posts : request.method = "POST"
  place : resource? request.path = some .batches
  isJson : (request.text? "content-type").any MediaType.isJson = true
  reads : Json.decodeFront BatchRequest.ofJson request.body = .ok batchRequest

variable {lifetimes : Lifetimes} {request : HttpRequest}

theorem Submits.handle_eq {batchRequest : BatchRequest}
    (submits : Submits request batchRequest) :
    handle lifetimes request =
      (submit lifetimes batchRequest (sourceIp? request) >>= fun result =>
        return submitted result) := by
  simp only [handle, submits.place, submits.posts, submitBatch, submits.isJson,
    submits.reads, if_true]
  congr 1
  funext result
  cases result <;> rfl

theorem onlyReads_submitBatch (resource : resource? request.path = some .batches)
    (posts : request.method = "POST")
    (never : ∀ batchRequest, ¬ Submits request batchRequest) :
    (submitBatch lifetimes request).OnlyReads := by
  unfold submitBatch
  split
  · rename_i isJson
    split
    · exact .pure _
    · exact .pure _
    · rename_i batchRequest reads
      exact absurd ⟨posts, resource, isJson, reads⟩ (never batchRequest)
  · exact .pure _

/-- A request that submits nothing only reads. -/
theorem onlyReads_handle (never : ∀ batchRequest, ¬ Submits request batchRequest) :
    (handle lifetimes request).OnlyReads := by
  unfold handle
  split
  · exact .pure _
  · rename_i resource place
    split
    · exact onlyReads_showResource resource
    · exact .bind (onlyReads_showResource resource) fun _ => .pure _
    · rename_i posts
      split
      · rename_i isBatches
        exact onlyReads_submitBatch (isBatches ▸ place) posts never
      · exact .pure _
    · exact .pure _

/-- A request is answered as its submission ends, or it leaves everything as it
is. -/
theorem requests_change_by_submission (surroundings : Surroundings)
    (lifetimes : Lifetimes) (request : HttpRequest) (world : World) :
    (∃ batchRequest, Submits request batchRequest ∧
      surroundings.run (handle lifetimes request) world =
        (surroundings.run (submit lifetimes batchRequest (sourceIp? request))
          world).map submitted id) ∨
      ∃ moment, (surroundings.run (handle lifetimes request) world).2 =
        { world with moment } := by
  by_cases posted : ∃ batchRequest, Submits request batchRequest
  · obtain ⟨batchRequest, submits⟩ := posted
    refine .inl ⟨batchRequest, submits, ?_⟩
    rw [submits.handle_eq]
    exact surroundings.run_bind (submit lifetimes batchRequest (sourceIp? request)) _
  · have reads : (handle lifetimes request).OnlyReads :=
      onlyReads_handle fun batchRequest submits => posted ⟨batchRequest, submits⟩
    exact .inr (Surroundings.run_of_onlyReads reads world)

end Service

end BatchRelay
