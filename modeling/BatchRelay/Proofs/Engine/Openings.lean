import BatchRelay.Proofs.Batch.Consequences
import BatchRelay.Proofs.Engine.Replies

/-!
# Opening the next group

`openNext` is the part of following up an outcome that reaches the network: it sends
the next group, if the outcome opens one.  The rest is the status that the batch has
then, and the announcement of what was refused.

Whatever the batch is, sending a group of it changes nothing but that group, and every
hash that the network takes is in the index afterwards.
-/

namespace BatchRelay

/-- Sends the group after the one of an outcome, if the outcome opens it. -/
def openNext (lifetimes : Lifetimes) (batch : Batch) (group : Nat)
    (outcome : ItemStatus) : Activity Batch :=
  if batch.opens group outcome then startGroup lifetimes batch (group + 1)
  else return batch

/-- The hashes of the next group that are invalid once it was sent, if an outcome
opens it. -/
def Batch.refusedNext (batch : Batch) (group : Nat) (outcome : ItemStatus)
    (opened : Batch) : List String :=
  if batch.opens group outcome then opened.invalidHashesAt (group + 1) else []

namespace Surroundings

variable {surroundings : Surroundings} {lifetimes : Lifetimes}
  {world last : World} {steps : List Step} {hash : String}

/-! ## Sending a group of any batch -/

section Group

variable (surroundings lifetimes) (batch : Batch) (index : Nat) (world : World)

theorem startGroup_frame :
    ∃ change, (surroundings.run (startGroup lifetimes batch index) world).1 =
      batch.modifyGroup index change := by
  unfold startGroup
  split
  · simp only [Bind.bind, Pure.pure, run_bind, run]
    exact ⟨_, rfl⟩
  · exact ⟨_, Batch.modifyGroup_self.symm⟩

/-- The hashes that the network takes lead to the batch, whatever they led to before. -/
theorem startGroup_leaves
    (works : ∀ moment access, surroundings.fault moment access = none)
    (taken : surroundings.Takes
      (surroundings.steps (startGroup lifetimes batch index) world) hash) :
    let steps := surroundings.steps (startGroup lifetimes batch index) world
    ∃ owner, batch.address? = some owner ∧
      ∀ now, surroundings.Timely lifetimes.route steps now →
        surroundings.Leaves lifetimes.route steps (Routes.key hash)
          (Route.encode ⟨batch.id, owner, surroundings.now world.moment⟩)
          (surroundings.run (startGroup lifetimes batch index) world).2 := by
  intro steps
  cases isSender : batch.address? with
  | none =>
      simp only [startGroup, isSender] at taken
      obtain ⟨step, member, -⟩ := taken
      cases member
  | some owner =>
      by_cases inside : index < batch.groups.length
      · have started := surroundings.startGroup_started lifetimes isSender inside world
        exact ⟨owner, rfl, fun now timely => started.leaves works timely taken⟩
      · have absent : batch.groups[index]? = none :=
          List.getElem?_eq_none (Nat.le_of_not_lt inside)
        simp only [startGroup, isSender, absent] at taken
        obtain ⟨step, member, -⟩ := taken
        cases member

end Group

/-! ## Following up an outcome -/

section Following

variable (surroundings lifetimes) (batch : Batch) (group : Nat) (outcome : ItemStatus)
  (world : World)

theorem openNext_frame :
    ∃ change, (surroundings.run (openNext lifetimes batch group outcome) world).1 =
      batch.modifyGroup (group + 1) change := by
  unfold openNext
  split
  · exact surroundings.startGroup_frame lifetimes batch (group + 1) world
  · exact ⟨_, Batch.modifyGroup_self.symm⟩

theorem openNext_onlyIndexes :
    surroundings.OnlyIndexes
      (surroundings.steps (openNext lifetimes batch group outcome) world) := by
  unfold openNext
  split
  · exact surroundings.startGroup_onlyIndexes lifetimes batch (group + 1) world
  · exact .nil

theorem openNext_leaves
    (works : ∀ moment access, surroundings.fault moment access = none)
    (taken : surroundings.Takes
      (surroundings.steps (openNext lifetimes batch group outcome) world) hash) :
    let steps := surroundings.steps (openNext lifetimes batch group outcome) world
    ∃ owner, batch.address? = some owner ∧
      ∀ now, surroundings.Timely lifetimes.route steps now →
        surroundings.Leaves lifetimes.route steps (Routes.key hash)
          (Route.encode ⟨batch.id, owner, surroundings.now world.moment⟩)
          (surroundings.run (openNext lifetimes batch group outcome) world).2 := by
  intro steps
  by_cases opens : batch.opens group outcome = true
  · simp only [steps, openNext, if_pos opens] at taken ⊢
    exact surroundings.startGroup_leaves lifetimes batch (group + 1) world works taken
  · rw [openNext, if_neg opens] at taken
    obtain ⟨step, member, -⟩ := taken
    cases member

theorem startNext_comesTo (address batchId : String) (next : Nat)
    (waits : batch.status = .pending) :
    let opened := surroundings.run (startGroup lifetimes batch next) world
    let refused := opened.1.invalidHashesAt next
    surroundings.ComesTo (startNext lifetimes address batchId batch next) world
      { opened.1 with status := if refused = [] then .pending else .invalid }
      (surroundings.steps (startGroup lifetimes batch next) world ++
        if refused = [] then []
        else [⟨opened.2, .publish ⟨address, batchId, refused⟩⟩])
      (if refused = [] then opened.2
        else surroundings.after ⟨opened.2, .publish ⟨address, batchId, refused⟩⟩) := by
  intro opened refused
  have status : opened.1.status = .pending := by
    obtain ⟨change, isOpened⟩ := surroundings.startGroup_frame lifetimes batch next world
    have same : opened.1 = batch.modifyGroup next change := isOpened
    rw [same]
    exact waits
  constructor
  · simp only [startNext, Bind.bind, Pure.pure, run_bind]
    split
    · rw [← status]
      rfl
    · rfl
  · simp only [startNext, Bind.bind, Pure.pure, steps_bind]
    split <;> rfl

theorem follow_of_opens (address batchId : String)
    (opens : batch.opens group outcome = true) :
    follow lifetimes address batchId batch group outcome =
      startNext lifetimes address batchId batch (group + 1) := by
  obtain ⟨waits, isSuccess, complete, notLast⟩ := Batch.opens_iff.1 opens
  simp [follow, waits, isSuccess, complete, notLast]

theorem follow_of_not_opens (address batchId : String) (refused : List String)
    (closed : batch.opens group outcome = false) :
    follow lifetimes address batchId batch group outcome =
      pure { batch with status := batch.statusAfter group outcome refused } := by
  have same {status : BatchStatus} (kept : status = batch.status) :
      batch = { batch with status := status } := by
    rw [kept]
  by_cases waits : batch.status = .pending
  case neg =>
    simp [follow, waits, ← same (Batch.statusAfter_of_settled waits)]
  case pos =>
    cases outcome with
    | pending =>
        simp [follow, Batch.statusAfter, waits, ← same waits.symm]
    | invalid | dropped => simp [follow, Batch.statusAfter, waits]
    | success =>
        cases complete : batch.groupSuccessful group with
        | false => simp [follow, Batch.statusAfter, waits, complete, ← same waits.symm]
        | true =>
            have isLast : group + 1 = batch.groups.length := by
              simpa [Batch.opens, waits, complete] using closed
            simp [follow, Batch.statusAfter, waits, complete, isLast]

/-- Following up an outcome is opening the next group, announcing what was refused
and setting the status. -/
theorem follow_comesTo (address batchId : String) :
    let opened := surroundings.run (openNext lifetimes batch group outcome) world
    let refused := batch.refusedNext group outcome opened.1
    surroundings.ComesTo (follow lifetimes address batchId batch group outcome) world
      { opened.1 with status := batch.statusAfter group outcome refused }
      (surroundings.steps (openNext lifetimes batch group outcome) world ++
        if refused = [] then []
        else [⟨opened.2, .publish ⟨address, batchId, refused⟩⟩])
      (if refused = [] then opened.2
        else surroundings.after ⟨opened.2, .publish ⟨address, batchId, refused⟩⟩) := by
  intro opened refused
  cases opens : batch.opens group outcome with
  | false =>
      have isRefused : refused = [] := by
        simp [refused, Batch.refusedNext, opens]
      have isOpened : opened = (batch, world) := by
        simp only [opened, openNext, opens]
        rfl
      rw [follow_of_not_opens lifetimes batch group outcome address batchId refused opens,
        isOpened, isRefused]
      simp only [openNext, opens]
      exact ⟨rfl, rfl⟩
  | true =>
      have isOpened : openNext lifetimes batch group outcome =
          startGroup lifetimes batch (group + 1) := by
        simp [openNext, opens]
      have isRefused : refused = opened.1.invalidHashesAt (group + 1) := by
        simp [refused, Batch.refusedNext, opens]
      have waits := (Batch.opens_iff.1 opens).1
      rw [follow_of_opens lifetimes batch group outcome address batchId opens,
        Batch.statusAfter_of_opens opens, isRefused, isOpened]
      simp only [opened, isOpened]
      exact surroundings.startNext_comesTo lifetimes batch world address batchId
        (group + 1) waits

end Following

end Surroundings

end BatchRelay
