import BatchRelay.Proofs.Engine.Checks
import BatchRelay.Proofs.Engine.Leftovers
import BatchRelay.Proofs.Engine.Performances
import BatchRelay.Proofs.Guarantees.ExactOutcomes

/-!
# Accepted requests

The checks accept exactly the well formed requests under whose name nothing is stored.
What they have accepted can be made into a batch and its first group can be sent, and
what they have not accepted leaves nothing behind.
-/

namespace BatchRelay

namespace Surroundings

variable {surroundings : Surroundings} {lifetimes : Lifetimes} {request : BatchRequest}
  {sourceIp : Option String} {address : String} {world : World}

theorem validate_eq_ok_iff :
    (surroundings.run request.validate world).1 = .ok address ↔
      request.WellFormed address ∧
        surroundings.fault world.moment (.read (Records.key address request.id)) = none ∧
        surroundings.value? world (Records.key address request.id) = none := by
  rw [BatchRequest.wellFormed_iff, ← get_eq_none_iff]
  cases shaped : request.checkShape with
  | error error => simp [BatchRequest.validate, shaped, Pure.pure, run]
  | ok owner =>
      simp only [BatchRequest.validate, shaped, Bind.bind, Pure.pure, run_bind,
        Except.ok.injEq]
      constructor
      · intro accepted
        split at accepted
        · cases accepted
        · cases accepted
        case h_3 read =>
          cases checked : request.checkTransactions owner with
          | error error =>
              rw [checked] at accepted
              cases accepted
          | ok _ =>
              rw [checked] at accepted
              cases accepted
              exact ⟨⟨rfl, checked⟩, read⟩
      · rintro ⟨⟨rfl, checked⟩, read⟩
        rw [read, checked]
        rfl

theorem validate_ne_encoding (reason : EncodingError) :
    (surroundings.run request.validate world).1 ≠ .error (.encoding reason) := by
  have performs : surroundings.Performs request.validate _ _ := steps_performs _ world
  intro fails
  rcases performs.validate with ⟨error, shape, -, result⟩ | ⟨owner, read, -, -, result⟩
  · exact BatchRequest.checkShape_ne_encoding reason (shape.trans (result.symm.trans fails))
  · rw [result] at fails
    split at fails
    · cases fails
    · cases fails
    · cases check : request.checkTransactions owner with
      | ok _ =>
          rw [check] at fails
          cases fails
      | error error =>
          rw [check] at fails
          cases fails
          exact BatchRequest.checkTransactions_ne_encoding reason check

theorem submit_ne_encoding (reason : EncodingError) :
    (surroundings.run (submit lifetimes request sourceIp) world).1 ≠
      .error (.encoding reason) := by
  simp only [submit, Bind.bind, Pure.pure, run_bind]
  cases validated : (surroundings.run request.validate world).1 with
  | error error =>
      intro fails
      cases fails
      exact validate_ne_encoding reason validated
  | ok address =>
      obtain ⟨batch, made, -⟩ := (validate_eq_ok_iff.1 validated).1.makes sourceIp
      simp only [made, run_bind]
      split
      · simp [run]
      · rw [run_bind]
        split <;> simp [run]

theorem submit_of_fault {error : BatchError}
    (fails : (surroundings.run (submit lifetimes request sourceIp) world).1 = .error error)
    (isFault : error.isValidation = true) :
    (surroundings.run (submit lifetimes request sourceIp) world).2.journal =
        world.journal ∧
      (surroundings.run (submit lifetimes request sourceIp) world).2.cache =
        world.cache := by
  have submits := surroundings.submit_submits lifetimes request sourceIp world
  generalize surroundings.steps (submit lifetimes request sourceIp) world = steps,
    (surroundings.run (submit lifetimes request sourceIp) world).2 = last at submits ⊢
  rw [fails] at submits
  cases submits with
  | malformed => exact ⟨rfl, rfl⟩
  | rejected =>
      rw [after_readRecord]
      exact ⟨rfl, rfl⟩
  | unstored => cases isFault

/-- The checks accept exactly the well formed requests with a new name.  An accepted one
makes a batch whose first group can be sent, and one that is at fault leaves no trace. -/
theorem requests_accepted (surroundings : Surroundings) (lifetimes : Lifetimes)
    (request : BatchRequest) (sourceIp : Option String) (world : World) :
    let validated := (surroundings.run request.validate world).1
    let submitted := surroundings.run (submit lifetimes request sourceIp) world
    (∀ address, validated = .ok address ↔
      request.WellFormed address ∧
        surroundings.fault world.moment (.read (Records.key address request.id)) = none ∧
        surroundings.value? world (Records.key address request.id) = none) ∧
    (∀ address, validated = .ok address →
      ∃ batch, request.toBatch sourceIp = .ok batch ∧
        request.Makes sourceIp address batch ∧
        ∀ checked,
          0 < (surroundings.run (startGroup lifetimes batch 0) checked).1.groups.length) ∧
    (∀ reason, submitted.1 ≠ .error (.encoding reason)) ∧
    ∀ error, submitted.1 = .error error → error.isValidation = true →
      submitted.2.journal = world.journal ∧ submitted.2.cache = world.cache := by
  intro validated submitted
  refine ⟨fun address => validate_eq_ok_iff, ?_, submit_ne_encoding,
    fun error => submit_of_fault⟩
  intro address accepted
  obtain ⟨batch, made, makes⟩ := (validate_eq_ok_iff.1 accepted).1.makes sourceIp
  refine ⟨batch, made, makes, fun checked => ?_⟩
  obtain ⟨change, isStarted⟩ := surroundings.startGroup_frame lifetimes batch 0 checked
  obtain ⟨first, found⟩ := makes.first
  rw [isStarted, Batch.length_modifyGroup]
  exact Batch.group_lt_of_item? found

end Surroundings

theorem Sample.transfers_accepted :
    let request := BatchRequest.ofGroups "b" [[first], [third]]
    let refused := (network third).run (submit .forever ⟨"b", []⟩ none)
      (.start (.memory .empty))
    ((network third).run request.validate (.start (.memory .empty))).1 = .ok alice ∧
      (∃ batch, request.toBatch none = .ok batch ∧ request.Makes none alice batch) ∧
      refused.1 = .error .emptyBatch ∧ refused.2.journal = [] ∧
      refused.2.cache = .memory .empty := by
  intro request refused
  have passes : request.Passes none alice (.ofGroups "b" [[first], [third]]) :=
    BatchRequest.passes_ofGroups (by decide) (by simp) (by simp)
      (by simp [first_valid, third_valid])
  have wellFormed := BatchRequest.wellFormed_iff.2 ⟨passes.shaped, passes.checked⟩
  obtain ⟨accepts, makes, -, -⟩ := (network third).requests_accepted .forever request none
    (.start (.memory .empty))
  obtain ⟨-, -, -, traceless⟩ := (network third).requests_accepted .forever ⟨"b", []⟩ none
    (.start (.memory .empty))
  have accepted := (accepts alice).2 ⟨wellFormed, rfl, rfl⟩
  obtain ⟨batch, made, isMade, -⟩ := makes alice accepted
  have isRefused : refused.1 = .error .emptyBatch := rfl
  obtain ⟨journal, cache⟩ := traceless .emptyBatch isRefused rfl
  exact ⟨accepted, ⟨batch, made, isMade⟩, isRefused, journal, cache⟩

end BatchRelay
