import BatchRelay.Proofs.Engine.Sending
import BatchRelay.Proofs.Json.Records

/-!
# Applying an outcome, step by step

`Followed`, `Applies` and `Reconciling` describe the runs of `follow`,
`applyOutcome` and `reconcile` by what the world held and answered, with the
steps that they took.  Between the read and the write of a record there are only
steps that send the next group.
-/

namespace BatchRelay

/-- The step that reads the record of a batch. -/
def Step.readRecord (world : World) (address id : String) : Step :=
  ⟨world, .read (Records.key address id)⟩

/-- The step that stores a batch. -/
def Step.writeRecord (lifetimes : Lifetimes) (world : World) (address : String)
    (batch : Batch) : Step :=
  ⟨world, .write (Records.key address batch.id) batch.render lifetimes.batch⟩

/-- The step that removes the route of a hash. -/
def Step.removeRoute (world : World) (hash : String) : Step :=
  ⟨world, .delete (Routes.key hash)⟩

/-- The step that asks for the current instant. -/
def Step.clock (world : World) : Step :=
  ⟨world, .now⟩

namespace Surroundings

variable (surroundings : Surroundings) (lifetimes : Lifetimes)

section Reading

variable {surroundings lifetimes} {world : World} {key address id : String}

theorem answer_read (works : surroundings.fault world.moment (.read key) = none) :
    (surroundings.answer world (.read key)).1 =
      .ok (surroundings.value? world key) := by
  simp only [answer, access_works works]
  rfl

theorem answer_failed_read {error : CacheError}
    (fails : surroundings.fault world.moment (.read key) = some error) :
    (surroundings.answer world (.read key)).1 = .error error := by
  simp only [answer, access_fails fails]

theorem steps_get :
    surroundings.steps (Records.get address id) world =
      [.readRecord world address id] := by
  simp only [Records.get, Activity.request, Bind.bind, Activity.bind, steps,
    Step.readRecord]
  split <;> rfl

theorem world_get :
    (surroundings.run (Records.get address id) world).2 =
      surroundings.after (.readRecord world address id) := by
  simp only [Records.get, Activity.request, Bind.bind, Activity.bind, run,
    Step.readRecord, after]
  split <;> rfl

private theorem run_get_answer :
    (surroundings.run (Records.get address id) world).1 =
      match (surroundings.answer world (.read (Records.key address id))).1 with
      | .error error => .error error
      | .ok none => .ok none
      | .ok (some text) => (Records.decode text).map some := by
  simp only [Records.get, Activity.request, Bind.bind, Activity.bind, run]
  obtain error | value :=
    (surroundings.answer world (.read (Records.key address id))).1
  · rfl
  · cases value <;> rfl

theorem get_of_fault {error : CacheError}
    (fails : surroundings.fault world.moment
      (.read (Records.key address id)) = some error) :
    (surroundings.run (Records.get address id) world).1 = .error error := by
  rw [run_get_answer, answer_failed_read fails]

/-- Reading a record gives the stored batch and nothing else. -/
theorem get_eq_some_iff {batch : Batch} :
    (surroundings.run (Records.get address id) world).1 = .ok (some batch) ↔
      surroundings.fault world.moment (.read (Records.key address id)) = none ∧
        surroundings.stored? world address id = some batch := by
  cases fault : surroundings.fault world.moment
      (.read (Records.key address id)) with
  | some error =>
      simp [run_get_answer, answer_failed_read fault]
  | none =>
      simp only [run_get_answer, answer_read fault, stored?, true_and]
      cases surroundings.value? world (Records.key address id) with
      | none => simp
      | some text =>
          cases parsed : Batch.parse text with
          | ok batch => simp [Records.decode, parsed, Except.toOption]
          | error defect =>
              cases defect <;>
                simp [Records.decode, parsed, Except.toOption]

theorem get_eq_none_iff :
    (surroundings.run (Records.get address id) world).1 = .ok none ↔
      surroundings.fault world.moment (.read (Records.key address id)) = none ∧
        surroundings.value? world (Records.key address id) = none := by
  cases fault : surroundings.fault world.moment
      (.read (Records.key address id)) with
  | some error =>
      simp [run_get_answer, answer_failed_read fault]
  | none =>
      simp only [run_get_answer, answer_read fault, true_and]
      cases surroundings.value? world (Records.key address id) with
      | none => simp
      | some text => cases decoded : Records.decode text <;> simp [decoded]

theorem steps_put {batch : Batch} :
    surroundings.steps (Records.put lifetimes address batch) world =
      [.writeRecord lifetimes world address batch] :=
  rfl

theorem put_eq_ok_iff {batch : Batch} :
    (surroundings.run (Records.put lifetimes address batch) world).1 = .ok () ↔
      surroundings.fault world.moment
        (.write (Records.key address batch.id)) = none :=
  answer_write_eq_ok_iff

theorem put_eq_error_iff {batch : Batch} {error : CacheError} :
    (surroundings.run (Records.put lifetimes address batch) world).1 =
        .error error ↔
      surroundings.fault world.moment
        (.write (Records.key address batch.id)) = some error :=
  answer_write_eq_error_iff

theorem world_put {batch : Batch} :
    (surroundings.run (Records.put lifetimes address batch) world).2 =
      surroundings.after (.writeRecord lifetimes world address batch) :=
  rfl

end Reading

/-- A batch with a group that has been sent, the steps it took and the last
world. -/
inductive Started (batch : Batch) (address : String) (index : Nat)
    (world : World) : Batch → List Step → World → Prop
  | sent {group : Group} {items : List Item} {steps : List Step} {last : World}
      (present : batch.groups[index]? = some group)
      (sent : surroundings.Sent lifetimes
        ⟨batch.id, address, surroundings.now world.moment⟩ ⟨index, 0⟩
        group.items (surroundings.after (.clock world)) items steps last) :
      Started batch address index world
        (batch.modifyGroup index fun _ => ⟨items⟩) (.clock world :: steps) last

theorem startGroup_started {batch : Batch} {address : String} {index : Nat}
    (isSender : batch.address? = some address)
    (inside : index < batch.groups.length) (world : World) :
    surroundings.Started lifetimes batch address index world
      (surroundings.run (startGroup lifetimes batch index) world).1
      (surroundings.steps (startGroup lifetimes batch index) world)
      (surroundings.run (startGroup lifetimes batch index) world).2 := by
  have present := List.getElem?_eq_getElem inside
  have started := Started.sent present (surroundings.sendItems_sent lifetimes
    ⟨batch.id, address, surroundings.now world.moment⟩ ⟨index, 0⟩
    batch.groups[index].items (surroundings.after (.clock world)))
  have instant : (surroundings.answer world .now).1 =
      surroundings.now world.moment := rfl
  simpa only [startGroup, isSender, present, instant, Activity.request, Bind.bind,
    Pure.pure, Activity.bind, run, steps, run_bind, steps_bind, List.append_nil,
    Step.clock, after] using started

/-- What becomes of a pending batch after an outcome of one of its items. -/
inductive Followed (address : String) (batch : Batch) (index : Nat)
    (outcome : ItemStatus) (world : World) :
    Batch → List Step → World → Prop
  | settled (ended : batch.status ≠ .pending) :
      Followed address batch index outcome world batch [] world
  | invalid (waits : batch.status = .pending) (fails : outcome = .invalid) :
      Followed address batch index outcome world
        { batch with status := .invalid } [] world
  | dropped (waits : batch.status = .pending) (fails : outcome = .dropped) :
      Followed address batch index outcome world
        { batch with status := .dropped } [] world
  | waiting (waits : batch.status = .pending) (succeeds : outcome = .success)
      (incomplete : batch.groupSuccessful index = false) :
      Followed address batch index outcome world batch [] world
  | finished (waits : batch.status = .pending) (succeeds : outcome = .success)
      (complete : batch.groupSuccessful index = true)
      (isLast : index + 1 = batch.groups.length) :
      Followed address batch index outcome world
        { batch with status := .success } [] world
  | continued {started : Batch} {steps : List Step} {last : World}
      (waits : batch.status = .pending) (succeeds : outcome = .success)
      (complete : batch.groupSuccessful index = true)
      (next : surroundings.Started lifetimes batch address (index + 1) world
        started steps last)
      (taken : started.invalidHashesAt (index + 1) = []) :
      Followed address batch index outcome world started steps last
  | stopped {started : Batch} {steps : List Step} {last : World}
      {event : BatchUpdated}
      (waits : batch.status = .pending) (succeeds : outcome = .success)
      (complete : batch.groupSuccessful index = true)
      (next : surroundings.Started lifetimes batch address (index + 1) world
        started steps last)
      (refused : started.invalidHashesAt (index + 1) ≠ []) :
      Followed address batch index outcome world
        { started with status := .invalid } (steps ++ [⟨last, .publish event⟩])
        (surroundings.after ⟨last, .publish event⟩)

theorem follow_followed (batchId : String) {batch : Batch} {address : String}
    (index : Nat) {outcome : ItemStatus}
    (isSender : batch.address? = some address)
    (final : outcome.isTerminal = true) (world : World) :
    surroundings.Followed lifetimes address batch index outcome world
      (surroundings.run
        (follow lifetimes address batchId batch index outcome) world).1
      (surroundings.steps
        (follow lifetimes address batchId batch index outcome) world)
      (surroundings.run
        (follow lifetimes address batchId batch index outcome) world).2 := by
  by_cases waits : batch.status = .pending
  case neg =>
    simp only [follow, ne_eq, waits, not_false_eq_true, if_true]
    exact .settled waits
  case pos =>
    simp only [follow, ne_eq, waits, not_true_eq_false, if_false]
    cases outcome with
    | pending => cases final
    | invalid => exact .invalid waits rfl
    | dropped => exact .dropped waits rfl
    | success =>
        cases complete : batch.groupSuccessful index with
        | false => exact .waiting waits rfl complete
        | true =>
            by_cases isLast : index + 1 = batch.groups.length
            · simp only [if_true, isLast]
              exact .finished waits rfl complete isLast
            · have inside := (Batch.groupSuccessful_iff.1 complete).1
              have following : index + 1 < batch.groups.length := by omega
              have next := surroundings.startGroup_started lifetimes isSender
                following world
              simp only [if_true, isLast, if_false, startNext, Bind.bind,
                Pure.pure, run_bind, steps_bind]
              split
              case isTrue taken =>
                have continued := Followed.continued waits rfl complete next taken
                simpa only [run, steps, List.append_nil] using continued
              case isFalse refused =>
                exact .stopped waits rfl complete next refused

section Sending

variable {surroundings lifetimes} {address : String} {batch batch' : Batch}
  {index : Nat} {outcome : ItemStatus} {world last : World} {steps : List Step}

namespace Started

variable (started : surroundings.Started lifetimes batch address index world
  batch' steps last)

include started

theorem id : batch'.id = batch.id := by
  cases started with
  | sent => rfl

theorem status : batch'.status = batch.status := by
  cases started with
  | sent => rfl

theorem payloads : batch'.payloads = batch.payloads := by
  cases started with
  | sent present sent => exact Batch.payloads_modifyGroup present sent.payloads

theorem statuses (taken : batch'.invalidHashesAt index = []) :
    batch'.statuses = batch.statuses := by
  cases started with
  | sent present sent =>
      have inside := (List.getElem?_eq_some_iff.1 present).1
      exact Batch.map_items_modifyGroup Item.status present
        (sent.statuses ((Batch.invalidHashesAt_modifyGroup inside).1 taken))

theorem length : batch'.groups.length = batch.groups.length := by
  cases started with
  | sent => exact Batch.length_modifyGroup _

theorem ne_nil : steps ≠ [] := by
  cases started with
  | sent => exact List.cons_ne_nil _ _

theorem sends_first
    (nonempty : ∀ transactions ∈ batch.payloads, transactions ≠ []) :
    ∃ step ∈ steps, ∃ payload,
      step.request = .send ⟨address, batch.id, ⟨index, 0⟩⟩ payload := by
  cases started with
  | @sent group items steps last present sent =>
      have full : group.items ≠ [] := by
        have member := nonempty (group.items.map Item.payload)
          (List.mem_map_of_mem (List.mem_of_getElem? present))
        simpa using member
      obtain ⟨step, member, sends⟩ := sent.sends_first full
      exact ⟨step, List.mem_cons_of_mem _ member, sends⟩

theorem linked : surroundings.Linked world steps last := by
  cases started with
  | sent _ sent => exact .cons sent.linked

theorem sends : ∀ step ∈ steps, step.request.Sends lifetimes address batch.id index := by
  cases started with
  | sent _ sent =>
      intro step member
      obtain rfl | inRest := List.mem_cons.1 member
      · exact .now
      · exact sent.sends step inRest

end Started

namespace Followed

variable (followed : surroundings.Followed lifetimes address batch index outcome
  world batch' steps last)

include followed

theorem id : batch'.id = batch.id := by
  cases followed with
  | continued _ _ _ next => exact next.id
  | stopped _ _ _ next => exact next.id
  | _ => rfl

theorem payloads : batch'.payloads = batch.payloads := by
  cases followed with
  | continued _ _ _ next => exact next.payloads
  | stopped _ _ _ next => exact next.payloads
  | _ => rfl

theorem linked : surroundings.Linked world steps last := by
  cases followed with
  | continued _ _ _ next => exact next.linked
  | stopped _ _ _ next => exact next.linked.append (.cons .nil)
  | _ => exact .nil

theorem sends :
    ∀ step ∈ steps, step.request.Sends lifetimes address batch.id (index + 1) := by
  cases followed with
  | continued _ _ _ next => exact next.sends
  | stopped _ _ _ next =>
      intro step member
      obtain inFront | atEnd := List.mem_append.1 member
      · exact next.sends step inFront
      · obtain rfl := List.mem_singleton.1 atEnd
        exact .publish
  | _ =>
      intro _ member
      cases member

theorem next (sent : steps ≠ []) :
    batch.status = .pending ∧ outcome = .success ∧
      batch.groupSuccessful index = true ∧ index + 1 < batch.groups.length := by
  have inside {started : Batch} {steps : List Step} {last : World}
      (next : surroundings.Started lifetimes batch address (index + 1) world
        started steps last) : index + 1 < batch.groups.length := by
    cases next with
    | sent present => exact (List.getElem?_eq_some_iff.1 present).1
  cases followed with
  | continued waits succeeds complete next =>
      exact ⟨waits, succeeds, complete, inside next⟩
  | stopped waits succeeds complete next =>
      exact ⟨waits, succeeds, complete, inside next⟩
  | _ => exact absurd rfl sent

theorem sends_first (sent : steps ≠ [])
    (nonempty : ∀ transactions ∈ batch.payloads, transactions ≠ []) :
    ∃ step ∈ steps, ∃ payload,
      step.request = .send ⟨address, batch.id, ⟨index + 1, 0⟩⟩ payload := by
  cases followed with
  | continued _ _ _ next => exact next.sends_first nonempty
  | stopped _ _ _ next =>
      obtain ⟨step, member, sends⟩ := next.sends_first nonempty
      exact ⟨step, List.mem_append_left _ member, sends⟩
  | _ => exact absurd rfl sent

/-- A batch that has sent its next group has a group that succeeded. -/
theorem advanced (sent : steps ≠ []) :
    index + 1 < batch'.groups.length ∧ batch'.groupSuccessful index = true := by
  have next {started : Batch} {steps : List Step} {last : World}
      (complete : batch.groupSuccessful index = true)
      (next : surroundings.Started lifetimes batch address (index + 1) world
        started steps last) :
      index + 1 < started.groups.length ∧
        started.groupSuccessful index = true := by
    cases next with
    | sent present =>
        rw [Batch.length_modifyGroup,
          Batch.groupSuccessful_modifyGroup_of_ne _ (by omega)]
        exact ⟨(List.getElem?_eq_some_iff.1 present).1, complete⟩
  cases followed with
  | continued _ _ complete started => exact next complete started
  | stopped _ _ complete started =>
      have sent := next complete started
      exact sent
  | _ => exact absurd rfl sent

end Followed

end Sending

/-- A stored batch takes an outcome for the waiting item of a hash and becomes
`batch'`; `steps` follow it up and end in `middle`. -/
structure Applied (hash batchId address : String) (outcome : ItemStatus)
    (world : World) (batch batch' : Batch) (position : Position) (item : Item)
    (steps : List Step) (middle : World) : Prop where
  works : surroundings.fault world.moment
    (.read (Records.key address batchId)) = none
  stored : surroundings.stored? world address batchId = some batch
  located : batch.locate hash = some position
  found : batch.item? position = some item
  waits : item.status = .pending
  followed : surroundings.Followed lifetimes address
    (batch.setItemStatus position outcome) position.group outcome
    (surroundings.after (.readRecord world address batchId)) batch' steps middle

/-- The world in which an updated record has been written. -/
def written (middle : World) (address : String) (batch : Batch) : World :=
  surroundings.after (.writeRecord lifetimes middle address batch)

/-- A run of `reconcile`.  When nothing is stored or the located item has an
outcome, only the route goes; else the batch takes the outcome first. -/
inductive Reconciling (hash batchId address : String) (outcome : ItemStatus)
    (world : World) : List Step → World → Prop
  | skipped
      (idle : surroundings.fault world.moment
          (.read (Records.key address batchId)) = none →
        ∀ batch position item,
          surroundings.stored? world address batchId = some batch →
          batch.locate hash = some position →
          batch.item? position = some item → item.status ≠ .pending) :
      Reconciling hash batchId address outcome world
        [.readRecord world address batchId,
          .removeRoute (surroundings.after (.readRecord world address batchId))
            hash]
        (surroundings.after (.removeRoute
          (surroundings.after (.readRecord world address batchId)) hash))
  | applied {batch batch' : Batch} {position : Position} {item : Item}
      {steps : List Step} {middle : World}
      (applied : surroundings.Applied lifetimes hash batchId address outcome world
        batch batch' position item steps middle) :
      Reconciling hash batchId address outcome world
        (.readRecord world address batchId :: (steps ++
          [.writeRecord lifetimes middle address batch',
            .removeRoute (surroundings.written lifetimes middle address batch')
              hash]))
        (surroundings.after (.removeRoute
          (surroundings.written lifetimes middle address batch') hash))

theorem address?_setItemStatus {batch : Batch} (position : Position)
    (status : ItemStatus) :
    (batch.setItemStatus position status).address? = batch.address? := by
  rw [Batch.address?_eq, Batch.payloads_setItemStatus, ← Batch.address?_eq]

theorem Reconciling.linked {hash batchId address : String} {outcome : ItemStatus}
    {world last : World} {steps : List Step}
    (reconciling : surroundings.Reconciling lifetimes hash batchId address outcome
      world steps last) :
    surroundings.Linked world steps last := by
  cases reconciling with
  | skipped => exact .cons (.cons .nil)
  | applied applied =>
      exact .cons (applied.followed.linked.append (.cons (.cons .nil)))

/-- A stored batch can be read and has a waiting item for a hash. -/
structure Finds (hash batchId address : String) (world : World) (batch : Batch)
    (position : Position) (item : Item) : Prop where
  works : surroundings.fault world.moment
    (.read (Records.key address batchId)) = none
  stored : surroundings.stored? world address batchId = some batch
  located : batch.locate hash = some position
  found : batch.item? position = some item
  waits : item.status = .pending

/-- A run of `applyOutcome` with its result.  Once the batch has been followed
up, only the write of its record can fail. -/
inductive Applies (hash batchId address : String) (outcome : ItemStatus)
    (world : World) : Except BatchError Reconciled → List Step → World → Prop
  | idle {result : Except BatchError Reconciled}
      (idle : ∀ batch position item,
        ¬surroundings.Finds hash batchId address world batch position item) :
      Applies hash batchId address outcome world result
        [.readRecord world address batchId]
        (surroundings.after (.readRecord world address batchId))
  | stored {batch batch' : Batch} {position : Position} {item : Item}
      {steps : List Step} {middle : World}
      (finds : surroundings.Finds hash batchId address world batch position item)
      (follows : surroundings.ComesTo (follow lifetimes address batchId
        (batch.setItemStatus position outcome) position.group outcome)
        (surroundings.after (.readRecord world address batchId)) batch' steps
        middle)
      (works : surroundings.fault middle.moment
        (.write (Records.key address batch'.id)) = none) :
      Applies hash batchId address outcome world (.ok (.applied batch'.status))
        (.readRecord world address batchId ::
          (steps ++ [.writeRecord lifetimes middle address batch']))
        (surroundings.written lifetimes middle address batch')
  | unstored {batch batch' : Batch} {position : Position} {item : Item}
      {steps : List Step} {middle : World} {error : CacheError}
      (finds : surroundings.Finds hash batchId address world batch position item)
      (follows : surroundings.ComesTo (follow lifetimes address batchId
        (batch.setItemStatus position outcome) position.group outcome)
        (surroundings.after (.readRecord world address batchId)) batch' steps
        middle)
      (fails : surroundings.fault middle.moment
        (.write (Records.key address batch'.id)) = some error) :
      Applies hash batchId address outcome world (.error (.cache error))
        (.readRecord world address batchId ::
          (steps ++ [.writeRecord lifetimes middle address batch']))
        (surroundings.written lifetimes middle address batch')

theorem applyOutcome_applies (hash batchId address : String)
    (outcome : ItemStatus) (world : World) :
    surroundings.Applies lifetimes hash batchId address outcome world
      (surroundings.run
        (applyOutcome lifetimes hash batchId address outcome) world).1
      (surroundings.steps
        (applyOutcome lifetimes hash batchId address outcome) world)
      (surroundings.run
        (applyOutcome lifetimes hash batchId address outcome) world).2 := by
  simp only [applyOutcome, Bind.bind, Pure.pure, run_bind, steps_bind, world_get,
    steps_get]
  cases read : (surroundings.run (Records.get address batchId) world).1 with
  | error error =>
      refine .idle fun batch _ _ finds => ?_
      rw [get_eq_some_iff.2 ⟨finds.works, finds.stored⟩] at read
      cases read
  | ok value =>
      cases value with
      | none =>
          refine .idle fun batch _ _ finds => ?_
          rw [get_eq_some_iff.2 ⟨finds.works, finds.stored⟩] at read
          cases read
      | some batch =>
          obtain ⟨works, stored⟩ := get_eq_some_iff.1 read
          simp only
          cases located : batch.locate hash with
          | none =>
              refine .idle fun other position item finds => ?_
              cases stored.symm.trans finds.stored
              cases located.symm.trans finds.located
          | some position =>
              obtain ⟨item, found, -⟩ := Batch.item?_of_locate located
              by_cases waits : item.status = .pending
              case neg =>
                simp only [found, Option.any_some, ItemStatus.isTerminal, ne_eq,
                  waits, not_false_eq_true, decide_true, if_true]
                refine .idle fun other position' item' finds => waits ?_
                cases stored.symm.trans finds.stored
                cases located.symm.trans finds.located
                cases found.symm.trans finds.found
                exact finds.waits
              case pos =>
                have finds : surroundings.Finds hash batchId address world batch
                    position item := ⟨works, stored, located, found, waits⟩
                have follows := surroundings.comesTo (follow lifetimes address
                  batchId (batch.setItemStatus position outcome) position.group
                  outcome) (surroundings.after
                    (.readRecord world address batchId))
                simp only [found, Option.any_some, ItemStatus.isTerminal, ne_eq,
                  waits, not_true_eq_false, decide_false, Bool.false_eq_true,
                  if_false, run_bind, steps_bind, world_put, steps_put]
                split
                case h_1 error answer =>
                  simp only [run, steps, List.append_nil, List.singleton_append]
                  exact .unstored finds follows (put_eq_error_iff.1 answer)
                case h_2 answer =>
                  simp only [run, steps, List.append_nil, List.singleton_append]
                  exact .stored finds follows (put_eq_ok_iff.1 answer)

section Removing

variable {surroundings lifetimes} {hash batchId address : String}
  {outcome : ItemStatus} {world last : World} {steps : List Step}

theorem run_reconcile_eq :
    surroundings.run (reconcile lifetimes hash batchId address outcome) world =
      ((surroundings.run
          (applyOutcome lifetimes hash batchId address outcome) world).1,
        surroundings.after (.removeRoute (surroundings.run
          (applyOutcome lifetimes hash batchId address outcome) world).2 hash)) := by
  simp only [reconcile, Bind.bind, Pure.pure, run_bind]
  rfl

theorem steps_reconcile :
    surroundings.steps (reconcile lifetimes hash batchId address outcome) world =
      surroundings.steps
          (applyOutcome lifetimes hash batchId address outcome) world ++
        [.removeRoute (surroundings.run
          (applyOutcome lifetimes hash batchId address outcome) world).2 hash] := by
  simp only [reconcile, Bind.bind, Pure.pure, steps_bind]
  rfl

theorem Finds.applied {batch batch' : Batch} {position : Position} {item : Item}
    {middle : World}
    (finds : surroundings.Finds hash batchId address world batch position item)
    (follows : surroundings.ComesTo (follow lifetimes address batchId
      (batch.setItemStatus position outcome) position.group outcome)
      (surroundings.after (.readRecord world address batchId)) batch' steps middle)
    (isSender : batch.address? = some address)
    (final : outcome.isTerminal = true) :
    surroundings.Applied lifetimes hash batchId address outcome world batch batch'
      position item steps middle := by
  have isSame := (address?_setItemStatus position outcome).trans isSender
  have followed := surroundings.follow_followed lifetimes batchId position.group
    isSame final (surroundings.after (.readRecord world address batchId))
  rw [follows.run, follows.steps] at followed
  exact ⟨finds.works, finds.stored, finds.located, finds.found, finds.waits,
    followed⟩

theorem Applies.reconciling {result : Except BatchError Reconciled}
    (applies : surroundings.Applies lifetimes hash batchId address outcome world
      result steps last)
    (isSender : ∀ batch, surroundings.stored? world address batchId = some batch →
      batch.address? = some address)
    (final : outcome.isTerminal = true) :
    surroundings.Reconciling lifetimes hash batchId address outcome world
      (steps ++ [.removeRoute last hash])
      (surroundings.after (.removeRoute last hash)) := by
  cases applies with
  | idle idle =>
      exact .skipped fun works batch position item stored located found waits =>
        idle batch position item ⟨works, stored, located, found, waits⟩
  | stored finds follows | unstored finds follows =>
      have applied := finds.applied follows (isSender _ finds.stored) final
      rw [List.cons_append, List.append_assoc]
      exact .applied applied

end Removing

theorem reconcile_reconciling (hash : String) {batchId address : String}
    {outcome : ItemStatus} {world : World}
    (isSender : ∀ batch, surroundings.stored? world address batchId = some batch →
      batch.address? = some address)
    (final : outcome.isTerminal = true) :
    surroundings.Reconciling lifetimes hash batchId address outcome world
      (surroundings.steps
        (reconcile lifetimes hash batchId address outcome) world)
      (surroundings.run
        (reconcile lifetimes hash batchId address outcome) world).2 := by
  rw [run_reconcile_eq, steps_reconcile]
  exact (surroundings.applyOutcome_applies lifetimes hash batchId address outcome
    world).reconciling isSender final

end Surroundings

end BatchRelay
