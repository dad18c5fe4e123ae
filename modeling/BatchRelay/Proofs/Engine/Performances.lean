import BatchRelay.Proofs.Engine.Effects
import BatchRelay.Proofs.Engine.Evaluation
import BatchRelay.Proofs.Engine.Interference

/-!
# Sending, reconciling and submitting among others

What the parts of the engine do when others may change the world between any
two of their steps.  `Handles` and `Answers` give, for `applyOutcome` and for
`submit`, every way in which it can end, with its own steps.  What was read from
the cache was true in the world of that step, and need not be true later.
-/

namespace BatchRelay

/-- The transaction that a step hands to the network. -/
def Step.sent? (step : Step) : Option Transaction :=
  match step.request with
  | .send _ payload => some payload
  | _ => none

namespace Surroundings

variable {surroundings : Surroundings} {lifetimes : Lifetimes}
  {steps : List Step} {address id batchId hash : String}

/-! ## Records and routes -/

theorem Performs.get {result : Except CacheError (Option Batch)}
    (performs : surroundings.Performs (Records.get address id) steps result) :
    ∃ world, steps = [.readRecord world address id] ∧
      (surroundings.run (Records.get address id) world).1 = result := by
  apply performs.single
  rintro (error | _ | text) <;> exact ⟨_, rfl⟩

theorem Performs.put {batch : Batch} {result : Except CacheError Unit}
    (performs : surroundings.Performs (Records.put lifetimes address batch) steps
      result) :
    ∃ world, steps = [.writeRecord lifetimes world address batch] ∧
      result =
        (surroundings.run (Records.put lifetimes address batch) world).1 :=
  performs_request.1 performs

variable (lifetimes) in
theorem not_fails_of_works {batch : Batch} {error : CacheError}
    (works : ∀ step ∈ steps, ∀ access,
      surroundings.fault step.world.moment access = none)
    (member : .writeRecord lifetimes world address batch ∈ steps) :
    surroundings.fault world.moment (.write (Records.key address batch.id)) ≠
      some error := by
  have working := works _ member (.write (Records.key address batch.id))
  rw [Step.writeRecord] at working
  rw [working]
  exact (Option.some_ne_none error).symm

/-! ## Sending -/

/-- The first item is taken and the sending goes on, or it is refused. -/
theorem Performs.sendItems_cons {route : Route} {position : Position}
    {item : Item} {items items' : List Item}
    (performs : surroundings.Performs
      (sendItems lifetimes route position (item :: items)) steps items') :
    (∃ earlier hash later rest others,
      surroundings.send earlier.moment item.payload = .ok hash ∧
        surroundings.Performs (sendItems lifetimes route position.next items) rest
          others ∧
        steps = .send earlier route position item.payload ::
          .writeRoute lifetimes later hash route :: rest ∧
        items' = item.adopt hash :: others) ∨
      ∃ earlier error, surroundings.send earlier.moment item.payload =
          .error error ∧
        steps = [.send earlier route position item.payload] ∧
        items' = item.refuse error.rejection? :: items := by
  rcases performs_bind.1 performs with ⟨_, answer, _, rfl, first, second⟩
  rcases performs_request.1 first with ⟨earlier, rfl, same⟩
  cases answer with
  | ok hash =>
      rcases performs_bind.1 second with ⟨_, _, _, rfl, indexing, third⟩
      rcases performs_request.1 indexing with ⟨later, rfl, -⟩
      rcases performs_bind.1 third with ⟨rest, others, _, rfl, sends, ends⟩
      rcases performs_pure.1 ends with ⟨rfl, rfl⟩
      refine .inl ⟨earlier, hash, later, rest, others, same.symm, sends, ?_, rfl⟩
      rw [List.append_nil]
      rfl
  | error error =>
      rcases performs_pure.1 second with ⟨rfl, rfl⟩
      exact .inr ⟨earlier, error, same.symm, rfl, rfl⟩

/-- Steps that do no more for a batch than send its items, and what the batch
becomes. -/
structure OnlySends (surroundings : Surroundings) (lifetimes : Lifetimes)
    (batch : Batch) (steps : List Step) (batch' : Batch) : Prop where
  id : batch'.id = batch.id
  payloads : batch'.payloads = batch.payloads
  indexes : surroundings.OnlyIndexes steps
  sends : ∀ step ∈ steps, ∃ group,
    step.request.Sends lifetimes (batch.address?.getD "") batch.id group

theorem OnlySends.none (batch : Batch) :
    surroundings.OnlySends lifetimes batch [] batch where
  id := rfl
  payloads := rfl
  indexes := .nil
  sends _ member := by cases member

/-- The status of the batch does not matter. -/
theorem OnlySends.withStatus {batch batch' : Batch}
    (sending : surroundings.OnlySends lifetimes batch steps batch')
    (status : BatchStatus) :
    surroundings.OnlySends lifetimes batch steps
      { batch' with status := status } :=
  ⟨sending.id, sending.payloads, sending.indexes, sending.sends⟩

namespace Performs

theorem sendItems_onlyIndexes {route : Route} {position : Position}
    {items items' : List Item}
    (performs : surroundings.Performs (sendItems lifetimes route position items)
      steps items') :
    surroundings.OnlyIndexes steps := by
  induction items generalizing position steps items' with
  | nil =>
      rcases performs_pure.1 performs with ⟨rfl, -⟩
      exact .nil
  | cons item items induction =>
      rcases performs.sendItems_cons with
        ⟨earlier, hash, later, rest, others, answer, sends, rfl, -⟩ |
        ⟨earlier, error, -, rfl, -⟩
      · exact (OnlyIndexes.taken answer).append (induction sends)
      · exact .of_untouched (by simp [Step.send, Request.touched?])

theorem sendItems_sends {route : Route} {position : Position}
    {items items' : List Item}
    (performs : surroundings.Performs (sendItems lifetimes route position items)
      steps items') :
    ∀ step ∈ steps, step.request.Sends lifetimes route.address route.batchId
      position.group := by
  induction items generalizing position steps items' with
  | nil =>
      rcases performs_pure.1 performs with ⟨rfl, -⟩
      exact fun _ member => by cases member
  | cons item items induction =>
      rcases performs.sendItems_cons with
        ⟨earlier, hash, world, rest, others, answer, sends, rfl, -⟩ |
        ⟨earlier, error, -, rfl, -⟩
      · have later := induction sends
        rw [List.forall_mem_cons, List.forall_mem_cons]
        exact ⟨.send, .write, later⟩
      · exact List.forall_mem_singleton.2 .send

theorem sendItems_payloads {route : Route} {position : Position}
    {items items' : List Item}
    (performs : surroundings.Performs (sendItems lifetimes route position items)
      steps items') :
    items'.map Item.payload = items.map Item.payload := by
  induction items generalizing position steps items' with
  | nil =>
      rcases performs_pure.1 performs with ⟨-, rfl⟩
      rfl
  | cons item items induction =>
      rcases performs.sendItems_cons with
        ⟨earlier, hash, later, rest, others, answer, sends, -, rfl⟩ |
        ⟨earlier, error, -, -, rfl⟩
      · simp [induction sends]
      · simp

theorem sendItems_clean {route : Route} {position : Position}
    {items items' : List Item}
    (performs : surroundings.Performs (sendItems lifetimes route position items)
      steps items') (clean : ∀ item ∈ items', item.status ≠ .invalid) :
    steps.filterMap Step.sent? = items.map Item.payload ∧
      items'.map Item.status = items.map Item.status ∧
      ∀ item ∈ items', ∃ world,
        .writeRoute lifetimes world item.hash route ∈ steps := by
  induction items generalizing position steps items' with
  | nil =>
      rcases performs_pure.1 performs with ⟨rfl, rfl⟩
      exact ⟨rfl, rfl, fun _ member => by cases member⟩
  | cons item items induction =>
      rcases performs.sendItems_cons with
        ⟨earlier, hash, later, rest, others, answer, sends, rfl, rfl⟩ |
        ⟨earlier, error, -, -, rfl⟩
      · rcases induction sends (List.forall_mem_cons.1 clean).2 with
          ⟨payloads, statuses, indexed⟩
        refine ⟨congrArg (item.payload :: ·) payloads, ?_, ?_⟩
        · simp [statuses]
        · rw [List.forall_mem_cons]
          refine ⟨⟨later, ?_⟩, fun other member => ?_⟩
          · exact List.mem_cons_of_mem _ List.mem_cons_self
          · rcases indexed other member with ⟨world, inRest⟩
            exact ⟨world, List.mem_cons_of_mem _ (List.mem_cons_of_mem _ inRest)⟩
      · exact absurd rfl (clean _ List.mem_cons_self)

theorem sendItems_taken {route : Route} {position : Position}
    {items items' : List Item}
    (performs : surroundings.Performs (sendItems lifetimes route position items)
      steps items')
    (takes : ∀ item ∈ items, ∀ moment, ∃ hash,
      surroundings.send moment item.payload = .ok hash) :
    items'.map Item.status = items.map Item.status := by
  induction items generalizing position steps items' with
  | nil =>
      rcases performs_pure.1 performs with ⟨-, rfl⟩
      rfl
  | cons item items induction =>
      rcases List.forall_mem_cons.1 takes with ⟨first, others⟩
      rcases performs.sendItems_cons with
        ⟨earlier, hash, later, rest, sent, answer, sends, -, rfl⟩ |
        ⟨earlier, error, answer, -, -⟩
      · simp [induction sends others]
      · rcases first earlier.moment with ⟨hash, taken⟩
        rw [taken] at answer
        cases answer

theorem startGroup {batch batch' : Batch} {index : Nat}
    (performs : surroundings.Performs (startGroup lifetimes batch index) steps
      batch') :
    ((batch.address? = none ∨ batch.groups[index]? = none) ∧ steps = [] ∧
        batch' = batch) ∨
      ∃ owner group world rest items, batch.address? = some owner ∧
        batch.groups[index]? = some group ∧
        surroundings.Performs (sendItems lifetimes
          ⟨batch.id, owner, surroundings.now world.moment⟩ ⟨index, 0⟩
          group.items) rest items ∧
        steps = .clock world :: rest ∧
        batch' = batch.modifyGroup index fun _ => ⟨items⟩ := by
  unfold BatchRelay.startGroup at performs
  split at performs
  case h_1 owner group isSender present =>
    rcases performs_bind.1 performs with ⟨_, _, _, rfl, first, second⟩
    rcases performs_request.1 first with ⟨world, rfl, rfl⟩
    rcases performs_bind.1 second with ⟨rest, items, _, rfl, sends, ends⟩
    rcases performs_pure.1 ends with ⟨rfl, rfl⟩
    refine .inr ⟨owner, group, world, rest, items, isSender, present, sends, ?_,
      rfl⟩
    rw [List.append_nil]
    rfl
  case h_2 absent =>
    refine .inl ⟨?_, performs_pure.1 performs⟩
    cases isSender : batch.address? with
    | none => exact .inl rfl
    | some owner =>
        exact .inr (Option.eq_none_iff_forall_ne_some.2 fun group present =>
          absent owner group isSender present)

theorem startGroup_onlySends {batch batch' : Batch} {index : Nat}
    (performs : surroundings.Performs (BatchRelay.startGroup lifetimes batch index)
      steps batch') :
    surroundings.OnlySends lifetimes batch steps batch' := by
  rcases performs.startGroup with ⟨-, rfl, rfl⟩ |
    ⟨owner, group, world, rest, items, isSender, present, sends, rfl, rfl⟩
  · exact .none _
  · constructor
    case id => rfl
    case payloads =>
      exact Batch.payloads_modifyGroup present sends.sendItems_payloads
    case indexes => exact sends.sendItems_onlyIndexes.cons rfl
    case sends =>
      rw [isSender, List.forall_mem_cons]
      exact ⟨⟨index, .now⟩, fun step member =>
        ⟨index, sends.sendItems_sends step member⟩⟩

theorem startNext {batch batch' : Batch} {next : Nat}
    (performs : surroundings.Performs
      (startNext lifetimes address batchId batch next) steps batch') :
    ∃ front started, surroundings.Performs
        (BatchRelay.startGroup lifetimes batch next) front started ∧
      (started.invalidHashesAt next = [] ∧ steps = front ∧ batch' = started ∨
        started.invalidHashesAt next ≠ [] ∧
          (∃ world, steps = front ++ [⟨world, .publish
            ⟨address, batchId, started.invalidHashesAt next⟩⟩]) ∧
          batch' = { started with status := .invalid }) := by
  rcases performs_bind.1 performs with ⟨front, started, back, rfl, first, second⟩
  refine ⟨front, started, first, ?_⟩
  dsimp only at second
  split at second
  case isTrue taken =>
    rcases performs_pure.1 second with ⟨rfl, rfl⟩
    exact .inl ⟨taken, List.append_nil _, rfl⟩
  case isFalse refused =>
    rcases performs_bind.1 second with ⟨_, _, _, rfl, publishing, ends⟩
    rcases performs_request.1 publishing with ⟨world, rfl, -⟩
    rcases performs_pure.1 ends with ⟨rfl, rfl⟩
    exact .inr ⟨refused, ⟨world, by rw [List.append_nil]⟩, rfl⟩

/-- An outcome has no consequences but for the status of the batch, or the next
group is sent. -/
theorem follow {batch batch' : Batch} {index : Nat} {outcome : ItemStatus}
    (performs : surroundings.Performs
      (follow lifetimes address batchId batch index outcome) steps batch') :
    (∃ status, steps = [] ∧ batch' = { batch with status := status }) ∨
      surroundings.Performs (BatchRelay.startNext lifetimes address batchId batch
        (index + 1)) steps batch' := by
  have still {status : BatchStatus} (ends : surroundings.Performs
      (pure { batch with status := status }) steps batch') :
      ∃ status, steps = [] ∧ batch' = { batch with status := status } :=
    ⟨status, performs_pure.1 ends⟩
  unfold BatchRelay.follow at performs
  split at performs
  · exact .inl (still performs)
  · cases outcome with
    | invalid | dropped | pending => exact .inl (still performs)
    | success =>
        dsimp only at performs
        split at performs
        · split at performs
          · exact .inl (still performs)
          · exact .inr performs
        · exact .inl (still performs)

theorem startNext_onlySends {batch batch' : Batch} {next : Nat}
    (performs : surroundings.Performs
      (BatchRelay.startNext lifetimes address batchId batch next) steps batch') :
    surroundings.OnlySends lifetimes batch steps batch' := by
  rcases performs.startNext with ⟨front, started, starts,
    ⟨-, rfl, rfl⟩ | ⟨-, ⟨world, rfl⟩, rfl⟩⟩
  · exact starts.startGroup_onlySends
  · have sending := starts.startGroup_onlySends
    constructor
    case id => exact sending.id
    case payloads => exact sending.payloads
    case indexes =>
      apply sending.indexes.append
      exact .of_untouched (by simp [Request.touched?])
    case sends =>
      rw [List.forall_mem_append]
      exact ⟨sending.sends, List.forall_mem_singleton.2 ⟨next, .publish⟩⟩

theorem follow_onlySends {batch batch' : Batch} {index : Nat}
    {outcome : ItemStatus}
    (performs : surroundings.Performs
      (BatchRelay.follow lifetimes address batchId batch index outcome) steps
      batch') :
    surroundings.OnlySends lifetimes batch steps batch' := by
  rcases performs.follow with ⟨status, rfl, rfl⟩ | performs
  · exact (OnlySends.none batch).withStatus status
  · exact performs.startNext_onlySends

theorem startGroup_group {batch batch' : Batch} {index other : Nat}
    (performs : surroundings.Performs (BatchRelay.startGroup lifetimes batch index)
      steps batch') (isOther : other ≠ index) :
    batch'.groups[other]? = batch.groups[other]? := by
  rcases performs.startGroup with ⟨-, -, rfl⟩ | ⟨_, _, _, _, _, -, -, -, -, rfl⟩
  · rfl
  · simp [Batch.modifyGroup, Ne.symm isOther]

theorem follow_group {batch batch' : Batch} {index other : Nat}
    {outcome : ItemStatus}
    (performs : surroundings.Performs
      (BatchRelay.follow lifetimes address batchId batch index outcome) steps
      batch') (isOther : other ≠ index + 1) :
    batch'.groups[other]? = batch.groups[other]? := by
  rcases performs.follow with ⟨status, -, rfl⟩ | performs
  · rfl
  · rcases performs.startNext with ⟨front, started, starts,
      ⟨-, -, rfl⟩ | ⟨-, -, rfl⟩⟩
    · exact starts.startGroup_group isOther
    · exact starts.startGroup_group isOther

end Performs

/-! ## Reconciling -/

/-- The ways in which an outcome can be applied, with the steps of each and its
result. -/
inductive Handles (surroundings : Surroundings) (lifetimes : Lifetimes)
    (hash batchId address : String) (outcome : ItemStatus) :
    List Step → Except BatchError Reconciled → Prop
  | unread {world : World} {error : CacheError}
      (read : (surroundings.run (Records.get address batchId) world).1 =
        .error error) :
      Handles surroundings lifetimes hash batchId address outcome
        [.readRecord world address batchId] (.error (.cache error))
  | missing {world : World}
      (read : (surroundings.run (Records.get address batchId) world).1 =
        .ok none) :
      Handles surroundings lifetimes hash batchId address outcome
        [.readRecord world address batchId] (.ok .batchMissing)
  | stray {world : World} {batch : Batch}
      (read : (surroundings.run (Records.get address batchId) world).1 =
        .ok (some batch))
      (unknown : batch.locate hash = none) :
      Handles surroundings lifetimes hash batchId address outcome
        [.readRecord world address batchId] (.ok .itemMissing)
  | settled {world : World} {batch : Batch} {position : Position} {item : Item}
      (read : (surroundings.run (Records.get address batchId) world).1 =
        .ok (some batch))
      (located : batch.locate hash = some position)
      (found : batch.item? position = some item)
      (ended : item.status.isTerminal = true) :
      Handles surroundings lifetimes hash batchId address outcome
        [.readRecord world address batchId] (.ok .unchanged)
  | stored {world later : World} {batch batch' : Batch} {position : Position}
      {item : Item} {middle : List Step}
      (read : (surroundings.run (Records.get address batchId) world).1 =
        .ok (some batch))
      (located : batch.locate hash = some position)
      (found : batch.item? position = some item)
      (waits : item.status.isTerminal = false)
      (follows : surroundings.Performs (follow lifetimes address batchId
        (batch.setItemStatus position outcome) position.group outcome) middle
        batch')
      (works : surroundings.fault later.moment
        (.write (Records.key address batch'.id)) = none) :
      Handles surroundings lifetimes hash batchId address outcome
        (.readRecord world address batchId ::
          (middle ++ [.writeRecord lifetimes later address batch']))
        (.ok (.applied batch'.status))
  | unstored {world later : World} {batch batch' : Batch} {position : Position}
      {item : Item} {middle : List Step} {error : CacheError}
      (read : (surroundings.run (Records.get address batchId) world).1 =
        .ok (some batch))
      (located : batch.locate hash = some position)
      (found : batch.item? position = some item)
      (waits : item.status.isTerminal = false)
      (follows : surroundings.Performs (follow lifetimes address batchId
        (batch.setItemStatus position outcome) position.group outcome) middle
        batch')
      (fails : surroundings.fault later.moment
        (.write (Records.key address batch'.id)) = some error) :
      Handles surroundings lifetimes hash batchId address outcome
        (.readRecord world address batchId ::
          (middle ++ [.writeRecord lifetimes later address batch']))
        (.error (.cache error))

section Reconciling

variable {outcome : ItemStatus} {result : Except BatchError Reconciled}

theorem Performs.applyOutcome
    (performs : surroundings.Performs
      (applyOutcome lifetimes hash batchId address outcome) steps result) :
    surroundings.Handles lifetimes hash batchId address outcome steps result := by
  rcases performs_bind.1 performs with ⟨_, value, rest, rfl, first, second⟩
  rcases first.get with ⟨world, rfl, read⟩
  rw [List.singleton_append]
  match value with
  | .error error =>
      rcases performs_pure.1 second with ⟨rfl, rfl⟩
      exact .unread read
  | .ok none =>
      rcases performs_pure.1 second with ⟨rfl, rfl⟩
      exact .missing read
  | .ok (some batch) =>
      dsimp only at second
      cases located : batch.locate hash with
      | none =>
          rw [located] at second
          rcases performs_pure.1 second with ⟨rfl, rfl⟩
          exact .stray read located
      | some position =>
          rcases Batch.item?_of_locate located with ⟨item, found, -⟩
          simp only [located, found, Option.any_some] at second
          cases ended : item.status.isTerminal with
          | true =>
              rw [ended, if_pos rfl] at second
              rcases performs_pure.1 second with ⟨rfl, rfl⟩
              exact .settled read located found ended
          | false =>
              rw [ended, if_neg Bool.false_ne_true] at second
              rcases performs_bind.1 second with
                ⟨middle, batch', _, rfl, follows, third⟩
              rcases performs_bind.1 third with
                ⟨_, stored, _, rfl, puts, ends⟩
              rcases puts.put with ⟨later, rfl, answer⟩
              cases stored with
              | error error =>
                  rcases performs_pure.1 ends with ⟨rfl, rfl⟩
                  exact .unstored read located found ended follows
                    (put_eq_error_iff.1 answer.symm)
              | ok _ =>
                  rcases performs_pure.1 ends with ⟨rfl, rfl⟩
                  exact .stored read located found ended follows
                    (put_eq_ok_iff.1 answer.symm)

/-- Whatever comes of an outcome, the route of its hash is removed last. -/
theorem Performs.reconcile
    (performs : surroundings.Performs
      (reconcile lifetimes hash batchId address outcome) steps result) :
    ∃ front world, steps = front ++ [.removeRoute world hash] ∧
      surroundings.Handles lifetimes hash batchId address outcome front
        result := by
  rcases performs_bind.1 performs with ⟨front, value, _, rfl, first, second⟩
  rcases performs_bind.1 second with ⟨_, _, _, rfl, removing, ends⟩
  rcases performs_request.1 removing with ⟨world, rfl, -⟩
  rcases performs_pure.1 ends with ⟨rfl, rfl⟩
  exact ⟨front, world, rfl, first.applyOutcome⟩

/-- What is true of reading, of sending and of storing is true of all steps. -/
theorem Handles.forall_steps {holds : Step → Prop}
    (handles : surroundings.Handles lifetimes hash batchId address outcome steps
      result)
    (reads : ∀ world, holds (.readRecord world address batchId))
    (sends : ∀ step owner id group, step.request.Sends lifetimes owner id group →
      holds step)
    (stores : ∀ world batch, holds (.writeRecord lifetimes world address batch)) :
    ∀ step ∈ steps, holds step := by
  cases handles with
  | unread | missing | stray | settled => exact List.forall_mem_singleton.2 (reads _)
  | stored _ _ _ _ follows | unstored _ _ _ _ follows =>
      rw [List.forall_mem_cons, List.forall_mem_append, List.forall_mem_singleton]
      refine ⟨reads _, fun step member => ?_, stores _ _⟩
      obtain ⟨group, isSending⟩ := follows.follow_onlySends.sends step member
      exact sends step _ _ group isSending

theorem Handles.exists_write {status : BatchStatus}
    (handles : surroundings.Handles lifetimes hash batchId address outcome steps
      (.ok (.applied status))) :
    ∃ step ∈ steps, ∃ owner id,
      step.request.touched? = some (Records.key owner id) := by
  cases handles with
  | stored =>
      exact ⟨_, List.mem_cons_of_mem _ (List.mem_append_right _ (List.mem_singleton_self _)),
        _, _, rfl⟩

/-- No route is touched but those of hashes that are taken meanwhile. -/
theorem Handles.takes {step : Step} {other : String}
    (handles : surroundings.Handles lifetimes hash batchId address outcome steps
      result)
    (member : step ∈ steps)
    (touched : step.request.touched? = some (Routes.key other)) :
    surroundings.Takes steps other := by
  cases handles with
  | unread | missing | stray | settled =>
      cases List.mem_singleton.1 member
      cases touched
  | stored _ _ _ _ follows | unstored _ _ _ _ follows =>
      simp only [List.mem_cons, List.mem_append, List.not_mem_nil,
        or_false] at member
      rcases member with rfl | inMiddle | rfl
      · cases touched
      · rcases follows.follow_onlySends.indexes step inMiddle _ touched with
          ⟨taken, same, takes⟩
        rw [Routes.key_inj same]
        apply takes.mono
        exact List.subset_cons_of_subset _ (List.subset_append_left _ _)
      · have same := Option.some.inj touched
        exact absurd same (Records.key_ne_routeKey _ _ _)

end Reconciling

/-! ## Submitting -/

/-- The ways in which a request can be answered, with the steps of each and its
result. -/
inductive Answers (surroundings : Surroundings) (lifetimes : Lifetimes)
    (request : BatchRequest) (sourceIp : Option String) :
    List Step → Except BatchError Batch → Prop
  | malformed {error : BatchError} (shape : request.checkShape = .error error) :
      Answers surroundings lifetimes request sourceIp [] (.error error)
  | unread {world : World} {owner : String} {error : CacheError}
      (shape : request.checkShape = .ok owner)
      (read : (surroundings.run (Records.get owner request.id) world).1 =
        .error error) :
      Answers surroundings lifetimes request sourceIp
        [.readRecord world owner request.id] (.error (.cache error))
  | duplicate {world : World} {owner : String} {earlier : Batch}
      (shape : request.checkShape = .ok owner)
      (read : (surroundings.run (Records.get owner request.id) world).1 =
        .ok (some earlier)) :
      Answers surroundings lifetimes request sourceIp
        [.readRecord world owner request.id]
        (.error (.duplicateBatch request.id owner))
  | unsound {world : World} {owner : String} {error : BatchError}
      (shape : request.checkShape = .ok owner)
      (check : request.checkTransactions owner = .error error) :
      Answers surroundings lifetimes request sourceIp
        [.readRecord world owner request.id] (.error error)
  | unmade {world : World} {owner : String} {error : EncodingError}
      (made : request.toBatch sourceIp = .error error) :
      Answers surroundings lifetimes request sourceIp
        [.readRecord world owner request.id] (.error (.encoding error))
  | refused {world : World} {owner : String} {batch started : Batch}
      {middle : List Step} (passes : request.Passes sourceIp owner batch)
      (read : (surroundings.run (Records.get owner request.id) world).1 =
        .ok none)
      (starts : surroundings.Performs (startGroup lifetimes batch 0) middle
        started)
      (refused : started.invalidHashesAt 0 ≠ []) :
      Answers surroundings lifetimes request sourceIp
        (.readRecord world owner request.id :: middle)
        (.ok { started with status := .invalid })
  | stored {world later : World} {owner : String} {batch started : Batch}
      {middle : List Step} (passes : request.Passes sourceIp owner batch)
      (read : (surroundings.run (Records.get owner request.id) world).1 =
        .ok none)
      (starts : surroundings.Performs (startGroup lifetimes batch 0) middle
        started)
      (taken : started.invalidHashesAt 0 = [])
      (works : surroundings.fault later.moment
        (.write (Records.key owner started.id)) = none) :
      Answers surroundings lifetimes request sourceIp
        (.readRecord world owner request.id ::
          (middle ++ [.writeRecord lifetimes later owner started]))
        (.ok started)
  | unstored {world later : World} {owner : String} {batch started : Batch}
      {middle : List Step} {error : CacheError}
      (passes : request.Passes sourceIp owner batch)
      (read : (surroundings.run (Records.get owner request.id) world).1 =
        .ok none)
      (starts : surroundings.Performs (startGroup lifetimes batch 0) middle
        started)
      (taken : started.invalidHashesAt 0 = [])
      (fails : surroundings.fault later.moment
        (.write (Records.key owner started.id)) = some error) :
      Answers surroundings lifetimes request sourceIp
        (.readRecord world owner request.id ::
          (middle ++ [.writeRecord lifetimes later owner started]))
        (.error (.cache error))

section Submitting

variable {request : BatchRequest} {sourceIp : Option String}
  {result : Except BatchError Batch}

theorem Performs.validate {result : Except BatchError String}
    (performs : surroundings.Performs request.validate steps result) :
    (∃ error, request.checkShape = .error error ∧ steps = [] ∧
        result = .error error) ∨
      ∃ owner world, request.checkShape = .ok owner ∧
        steps = [.readRecord world owner request.id] ∧
        result =
          match (surroundings.run (Records.get owner request.id) world).1 with
          | .error error => .error (.cache error)
          | .ok (some _) => .error (.duplicateBatch request.id owner)
          | .ok none => (request.checkTransactions owner).map fun _ => owner := by
  unfold BatchRequest.validate at performs
  split at performs
  case h_1 error shape =>
    rcases performs_pure.1 performs with ⟨rfl, rfl⟩
    exact .inl ⟨error, shape, rfl, rfl⟩
  case h_2 owner shape =>
    rcases performs_bind.1 performs with ⟨_, value, _, rfl, reads, rest⟩
    rcases reads.get with ⟨world, rfl, read⟩
    refine .inr ⟨owner, world, shape, ?_⟩
    rw [read]
    split at rest
    all_goals
      rcases performs_pure.1 rest with ⟨rfl, rfl⟩
      exact ⟨rfl, rfl⟩

theorem Performs.submit
    (performs : surroundings.Performs (submit lifetimes request sourceIp) steps
      result) :
    surroundings.Answers lifetimes request sourceIp steps result := by
  rcases performs_bind.1 performs with ⟨_, checked, rest, rfl, checks, second⟩
  rcases checks.validate with ⟨error, shape, rfl, rfl⟩ |
    ⟨owner, world, shape, rfl, rfl⟩
  · rcases performs_pure.1 second with ⟨rfl, rfl⟩
    exact .malformed shape
  rw [List.singleton_append]
  match read : (surroundings.run (Records.get owner request.id) world).1 with
  | .error error =>
      rw [read] at second
      rcases performs_pure.1 second with ⟨rfl, rfl⟩
      exact .unread shape read
  | .ok (some earlier) =>
      rw [read] at second
      rcases performs_pure.1 second with ⟨rfl, rfl⟩
      exact .duplicate shape read
  | .ok none =>
      cases check : request.checkTransactions owner with
      | error error =>
          simp only [read, check] at second
          rcases performs_pure.1 second with ⟨rfl, rfl⟩
          exact .unsound shape check
      | ok _ =>
          simp only [read, check, Except.ok_map] at second
          cases made : request.toBatch sourceIp with
          | error error =>
              rw [made] at second
              rcases performs_pure.1 second with ⟨rfl, rfl⟩
              exact .unmade made
          | ok batch =>
              rw [made] at second
              have passes : request.Passes sourceIp owner batch :=
                ⟨shape, check, made⟩
              rcases performs_bind.1 second with
                ⟨middle, started, _, rfl, starts, third⟩
              split at third
              case isTrue refused =>
                rcases performs_pure.1 third with ⟨rfl, rfl⟩
                rw [List.append_nil]
                exact .refused passes read starts refused
              case isFalse taken =>
                have clean := Decidable.not_not.1 taken
                rcases performs_bind.1 third with
                  ⟨_, stored, _, rfl, puts, ends⟩
                rcases puts.put with ⟨later, rfl, answer⟩
                cases stored with
                | error error =>
                    rcases performs_pure.1 ends with ⟨rfl, rfl⟩
                    exact .unstored passes read starts clean
                      (put_eq_error_iff.1 answer.symm)
                | ok _ =>
                    rcases performs_pure.1 ends with ⟨rfl, rfl⟩
                    exact .stored passes read starts clean
                      (put_eq_ok_iff.1 answer.symm)

end Submitting

/-! ## Announcing -/

theorem Performs.publishAll {events : List BatchUpdated} {steps : List Step}
    {result : Unit}
    (performs : surroundings.Performs (publishAll events) steps result) :
    steps.map Step.request = events.map Request.publish := by
  induction events generalizing steps with
  | nil =>
      obtain ⟨rfl, -⟩ := performs_pure.1 performs
      rfl
  | cons event events induction =>
      obtain ⟨_, _, _, rfl, publishes, others⟩ := performs_bind.1 performs
      obtain ⟨world, rfl, -⟩ := performs_request.1 publishes
      exact congrArg (Request.publish event :: ·) (induction others)

theorem Performs.request_of_publishAll {events : List BatchUpdated}
    {steps : List Step} {result : Unit}
    (performs : surroundings.Performs (BatchRelay.publishAll events) steps result)
    {step : Step} (member : step ∈ steps) :
    ∃ event, step.request = .publish event := by
  have isRequest := List.mem_map_of_mem (f := Step.request) member
  rw [performs.publishAll] at isRequest
  obtain ⟨event, -, same⟩ := List.mem_map.1 isRequest
  exact ⟨event, same.symm⟩

end Surroundings

end BatchRelay
