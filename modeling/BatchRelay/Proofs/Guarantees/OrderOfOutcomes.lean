import BatchRelay.Proofs.Engine.Ledgers
import BatchRelay.Proofs.Engine.Trials
import BatchRelay.Proofs.Guarantees.ExactOutcomes

/-!
# The order of outcomes

The outcomes of the items of one group may arrive in any order.  Which of them completes
the group, or is the first failure, depends on the order; what is stored in the end, what
was sent and what was announced do not.

Nothing is assumed of the batch but that it is stored under its own identifier.  The
network may take or refuse what it likes, as long as it minds nothing but the
transactions.
-/

namespace BatchRelay

/-- Applies the outcomes of hashes of a batch, one after the other. -/
def reconcileAll (lifetimes : Lifetimes) (batchId address : String)
    (outcome : String → ItemStatus) : List String → Activity Unit
  | [] => return ()
  | hash :: hashes => do
      let _ ← reconcile lifetimes hash batchId address (outcome hash)
      reconcileAll lifetimes batchId address outcome hashes

/-- Whether a ledger tells what is stored of its batch and what has happened. -/
structure Ledger.Tells (ledger : Ledger) (surroundings : Surroundings) (address : String)
    (world : World) : Prop where
  unique : world.cache.entries.Unique
  stored : surroundings.stored? world address ledger.batch.id = some ledger.batch
  journal : world.journal = ledger.journal

namespace Surroundings

variable {surroundings : Surroundings} {lifetimes : Lifetimes} {world last : World}
  {hash address batchId key value : String} {outcome : ItemStatus} {position : Position}
  {ledger : Ledger}

/-! ## One outcome -/

theorem OnlyForgets.value?_eq_some (forgets : OnlyForgets hash world last)
    (unique : world.cache.entries.Unique) (isOther : key ≠ Routes.key hash)
    (endures : surroundings.Endures key last)
    (found : surroundings.value? world key = some value) :
    surroundings.value? last key = some value := by
  have uniqueLast : last.cache.entries.Unique :=
    forgets.cache ▸ Cache.unique_delete unique
  obtain ⟨entry, member, -, held⟩ := (value?_eq_some_iff unique).1 found
  have stays : (key, entry) ∈ last.cache.entries := by
    rw [forgets.cache]
    exact Cache.mem_delete.2 ⟨member, isOther⟩
  exact (value?_eq_some_iff uniqueLast).2 ⟨entry, stays, endures entry stays, held⟩

section Working

variable (works : ∀ moment access, surroundings.fault moment access = none)

include works

theorem stored?_of_written {batch : Batch} (unique : world.cache.entries.Unique)
    (atWritten : surroundings.Endures (Records.key address batch.id)
      (surroundings.written lifetimes world address batch))
    (atLast : surroundings.Endures (Records.key address batch.id)
      (surroundings.after
        (.removeRoute (surroundings.written lifetimes world address batch) hash))) :
    surroundings.stored? (surroundings.after
        (.removeRoute (surroundings.written lifetimes world address batch) hash))
      address batch.id = some batch := by
  have isOther := Records.key_ne_routeKey address batch.id hash
  have stays := value?_after_enduring (unique_after unique) atLast
    (fun same => isOther (Option.some.inj same).symm)
    (value?_after_write_enduring unique (works _ _) atWritten)
  rw [stored?, stays, Option.bind_some, Batch.parse_render]
  rfl

theorem tells_of_ended {item : Item} (tells : ledger.Tells surroundings address world)
    (located : ledger.batch.locate hash = some position)
    (found : ledger.batch.item? position = some item)
    (ended : item.status.isTerminal = true)
    (atLast : surroundings.Endures (Records.key address ledger.batch.id)
      (surroundings.run
        (reconcile lifetimes hash ledger.batch.id address outcome) world).2) :
    (ledger.enter surroundings lifetimes address position outcome).Tells surroundings
      address (surroundings.run
        (reconcile lifetimes hash ledger.batch.id address outcome) world).2 := by
  have read := get_eq_some_iff.2 ⟨works _ _, tells.stored⟩
  have idle : surroundings.run
      (applyOutcome lifetimes hash ledger.batch.id address outcome) world = _ :=
    run_applyOutcome_terminal read (Batch.holdsFirst_of_locate located found) ended
  obtain ⟨-, forgets⟩ := reconcile_onlyForgets works idle
  have notWaiting : (ledger.batch.item? position).map Item.status ≠ some .pending := by
    simpa [found, ItemStatus.isTerminal] using ended
  rw [Ledger.enter_of_not_waiting _ _ _ notWaiting]
  constructor
  case unique =>
    exact (surroundings.linked
      (reconcile lifetimes hash ledger.batch.id address outcome)).unique tells.unique
  case stored =>
    obtain ⟨text, value, parses⟩ := Option.bind_eq_some_iff.1 tells.stored
    rw [stored?, forgets.value?_eq_some tells.unique
      (Records.key_ne_routeKey address ledger.batch.id hash) atLast value]
    exact parses
  case journal => exact forgets.journal.trans tells.journal

variable (timeless : ∀ earlier later payload,
  surroundings.send earlier payload = surroundings.send later payload)

include timeless

theorem tells_of_waiting {item : Item} (tells : ledger.Tells surroundings address world)
    (located : ledger.batch.locate hash = some position)
    (found : ledger.batch.item? position = some item)
    (waits : item.status = .pending)
    (endures : ∀ passed ∈ surroundings.worlds
      (reconcile lifetimes hash ledger.batch.id address outcome) world,
      surroundings.Endures (Records.key address ledger.batch.id) passed) :
    (ledger.enter surroundings lifetimes address position outcome).Tells surroundings
      address (surroundings.run
        (reconcile lifetimes hash ledger.batch.id address outcome) world).2 := by
  let following := follow lifetimes address ledger.batch.id
    (ledger.batch.setItemStatus position outcome) position.group outcome
  let followed := surroundings.run following world.pass
  let written := surroundings.written lifetimes followed.2 address followed.1
  have isEntered : ledger.enter surroundings lifetimes address position outcome =
      ⟨followed.1, followed.2.journal⟩ := by
    obtain ⟨same, sameJournal⟩ : followed.1 = (surroundings.run following ledger.world).1 ∧
        followed.2.journal = (surroundings.run following ledger.world).2.journal :=
      repeats_follow timeless _ _ _ _ _ _ _ tells.journal
    rw [same, sameJournal, Ledger.enter, if_pos (by rw [found, Option.map_some, waits])]
    rfl
  have sameId : followed.1.id = ledger.batch.id :=
    (steps_performs following world.pass).follow_onlySends.id
  have read := get_eq_some_iff.2 ⟨works _ _, tells.stored⟩
  have comes := (applyOutcome_comesTo works read
    (Batch.holdsFirst_of_locate located found) waits
    (surroundings.comesTo following world.pass)).reconcile
  have atWritten : surroundings.Endures (Records.key address ledger.batch.id) written := by
    have member : .removeRoute written hash ∈ surroundings.steps
        (reconcile lifetimes hash ledger.batch.id address outcome) world := by
      rw [comes.steps]
      exact List.mem_append_right _ (List.mem_singleton_self _)
    exact endures _ (world_mem_worlds member)
  have atLast := endures _ (last_mem_worlds _ _)
  have uniqueFollowed : followed.2.cache.entries.Unique :=
    (surroundings.linked following).unique tells.unique
  rw [comes.run] at atLast ⊢
  rw [isEntered]
  rw [← sameId] at atWritten atLast
  exact ⟨unique_after (unique_after uniqueFollowed),
    stored?_of_written works uniqueFollowed atWritten atLast,
    journal_after.trans journal_after⟩

theorem tells_reconcile (tells : ledger.Tells surroundings address world)
    (isId : ledger.batch.id = batchId)
    (located : ledger.batch.locate hash = some position)
    (endures : ∀ passed ∈ surroundings.worlds
      (reconcile lifetimes hash batchId address outcome) world,
      surroundings.Endures (Records.key address batchId) passed) :
    (ledger.enter surroundings lifetimes address position outcome).Tells surroundings
      address (surroundings.run
        (reconcile lifetimes hash batchId address outcome) world).2 := by
  subst isId
  obtain ⟨item, found, -⟩ := Batch.item?_of_locate located
  by_cases waits : item.status = .pending
  case neg =>
    have ended : item.status.isTerminal = true := by simpa [ItemStatus.isTerminal]
    exact tells_of_ended works tells located found ended (endures _ (last_mem_worlds _ _))
  case pos => exact tells_of_waiting works timeless tells located found waits endures

/-! ## Many outcomes -/

theorem tells_reconcileAll {group : Nat} {place : String → Position}
    {decision : String → ItemStatus} {hashes : List String}
    (tells : ledger.Tells surroundings address world)
    (isId : ledger.batch.id = batchId)
    (located : ∀ hash ∈ hashes, ledger.batch.locate hash = some (place hash) ∧
      (place hash).group = group)
    (endures : ∀ passed ∈ surroundings.worlds
      (reconcileAll lifetimes batchId address decision hashes) world,
      surroundings.Endures (Records.key address batchId) passed) :
    let final := hashes.foldl (fun ledger hash => ledger.enter surroundings lifetimes address
      (place hash) (decision hash)) ledger
    final.batch.id = batchId ∧ final.Tells surroundings address
      (surroundings.run
        (reconcileAll lifetimes batchId address decision hashes) world).2 := by
  induction hashes generalizing ledger world with
  | nil => exact ⟨isId, tells⟩
  | cons hash hashes induction =>
      obtain ⟨⟨here, isGroup⟩, others⟩ := List.forall_mem_cons.1 located
      let entered := ledger.enter surroundings lifetimes address (place hash) (decision hash)
      have sameId : entered.batch.id = batchId :=
        (ledger.enter_id surroundings lifetimes address).trans isId
      have stillLocated : ∀ other ∈ hashes,
          entered.batch.locate other = some (place other) ∧ (place other).group = group := by
        intro other member
        obtain ⟨there, alsoGroup⟩ := others other member
        exact ⟨ledger.locate_enter surroundings lifetimes address there
          (alsoGroup.trans isGroup.symm), alsoGroup⟩
      obtain ⟨front, back⟩ := surroundings.worlds_bind
        (reconcile lifetimes hash batchId address (decision hash))
        (fun _ => reconcileAll lifetimes batchId address decision hashes) world
      have step := tells_reconcile works timeless tells isId here
        fun passed member => endures passed (front member)
      have rest := induction step sameId stillLocated
        fun passed member => endures passed (back member)
      simpa only [reconcileAll, Bind.bind, run_bind, List.foldl_cons] using rest

end Working

/-! ## Records that never run out -/

theorem steps_reconcileAll_writesForever (decision : String → ItemStatus)
    (hashes : List String) (world : World) :
    ∀ step ∈ surroundings.steps (reconcileAll .forever batchId address decision hashes)
      world, step.request.WritesForever := by
  induction hashes generalizing world with
  | nil => exact List.forall_mem_nil _
  | cons hash hashes induction =>
      simp only [reconcileAll, Bind.bind, steps_bind, List.forall_mem_append]
      have performs : surroundings.Performs
          (reconcile .forever hash batchId address (decision hash)) _ _ :=
        steps_performs _ world
      obtain ⟨front, _, isFront, handles⟩ := performs.reconcile
      refine ⟨?_, induction _⟩
      rw [isFront, List.forall_mem_append]
      exact ⟨handles.writesForever, List.forall_mem_singleton.2 trivial⟩

theorem endures_reconcileAll (timeless : world.Timeless) (decision : String → ItemStatus)
    (hashes : List String) :
    ∀ passed ∈ surroundings.worlds
      (reconcileAll .forever batchId address decision hashes) world,
      surroundings.Endures (Records.key address batchId) passed := by
  intro passed member
  have isTimeless := timeless_worlds timeless
    (steps_reconcileAll_writesForever decision hashes world) passed member
  exact (lasting_of_timeless isTimeless).endures (isTracked_recordKey _ _)

/-- Outcomes of one group have the same effect in any order. -/
theorem outcomes_commute (surroundings : Surroundings) (lifetimes : Lifetimes)
    (address : String) (batch : Batch) (group : Nat) (outcome : String → ItemStatus)
    (order other : List String) (world : World)
    (works : ∀ moment access, surroundings.fault moment access = none)
    (timeless : ∀ earlier later payload,
      surroundings.send earlier payload = surroundings.send later payload)
    (unique : world.cache.entries.Unique)
    (stored : surroundings.stored? world address batch.id = some batch)
    (located : ∀ hash ∈ order, ∃ place, batch.locate hash = some ⟨group, place⟩)
    (decided : ∀ hash ∈ order, outcome hash = .success ∨ outcome hash = .invalid)
    (reordered : order.Perm other) :
    let first := reconcileAll lifetimes batch.id address outcome order
    let second := reconcileAll lifetimes batch.id address outcome other
    (∀ passed ∈ surroundings.worlds first world ++ surroundings.worlds second world,
      surroundings.Endures (Records.key address batch.id) passed) →
    ∃ final,
      surroundings.stored? (surroundings.run first world).2 address batch.id =
          some final ∧
        surroundings.stored? (surroundings.run second world).2 address batch.id =
          some final ∧
        (surroundings.run first world).2.journal =
          (surroundings.run second world).2.journal := by
  intro first second endures
  let place (hash : String) : Position := (batch.locate hash).getD ⟨group, 0⟩
  have places : ∀ hash ∈ order,
      batch.locate hash = some (place hash) ∧ (place hash).group = group := by
    intro hash member
    obtain ⟨index, here⟩ := located hash member
    simp [place, here]
  let enter (ledger : Ledger) (hash : String) : Ledger :=
    ledger.enter surroundings lifetimes address (place hash) (outcome hash)
  let start : Ledger := ⟨batch, world.journal⟩
  have tells : start.Tells surroundings address world := ⟨unique, stored, rfl⟩
  obtain ⟨isId, told⟩ := tells_reconcileAll works timeless tells rfl places
    fun passed member => endures passed (List.mem_append_left _ member)
  obtain ⟨-, retold⟩ := tells_reconcileAll works timeless tells rfl
    (fun hash member => places hash (reordered.mem_iff.2 member))
    fun passed member => endures passed (List.mem_append_right _ member)
  have commute : ∀ hash ∈ order, ∀ next ∈ order, ∀ ledger,
      enter (enter ledger hash) next = enter (enter ledger next) hash := by
    intro hash member next alsoMember ledger
    by_cases same : place next = place hash
    · obtain ⟨item, found, isHash⟩ := Batch.item?_of_locate (places hash member).1
      obtain ⟨_, again, isNext⟩ := Batch.item?_of_locate (places next alsoMember).1
      rw [same, found] at again
      cases again
      rw [← isHash, ← isNext]
    · exact ledger.enter_comm surroundings lifetimes address same
        ((places next alsoMember).2.trans (places hash member).2.symm)
        (decided hash member) (decided next alsoMember)
  have agree : order.foldl enter start = other.foldl enter start :=
    reordered.foldl_eq' commute start
  rw [← agree] at retold
  have stores := told.stored
  have storesAgain := retold.stored
  rw [isId] at stores storesAgain
  exact ⟨_, stores, storesAgain, told.journal.trans retold.journal.symm⟩

end Surroundings

namespace Sample

/-- A network that always does what the other one does in the beginning. -/
def steady : Surroundings :=
  { network third with send := fun _ payload => (network third).send 0 payload }

/-- A batch with two items in the first group.  The network refuses the second group. -/
def paired : Batch :=
  .ofGroups "b" [[first, third], [refused]]

/-- A world in which nothing but that batch is stored. -/
def pairedStored : World :=
  .start (.memory ⟨[(Records.key alice paired.id, ⟨paired.render, none⟩)]⟩)

end Sample

theorem Sample.paired_outcomes_commute :
    let oneWay := reconcileAll .forever paired.id alice (fun _ => .success)
      [first.hash, third.hash]
    let otherWay := reconcileAll .forever paired.id alice (fun _ => .success)
      [third.hash, first.hash]
    ∃ final,
      steady.stored? (steady.run oneWay pairedStored).2 alice paired.id = some final ∧
        steady.stored? (steady.run otherWay pairedStored).2 alice paired.id = some final ∧
        (steady.run oneWay pairedStored).2.journal =
          (steady.run otherWay pairedStored).2.journal := by
  have unique : pairedStored.cache.entries.Unique := List.pairwise_singleton _ _
  have value : steady.value? pairedStored (Records.key alice paired.id) =
      some paired.render :=
    (Surroundings.value?_eq_some_iff unique).2 ⟨_, List.mem_singleton_self _, rfl, rfl⟩
  have stored : steady.stored? pairedStored alice paired.id = some paired := by
    rw [Surroundings.stored?, value, Option.bind_some, Batch.parse_render]
    rfl
  have timeless : pairedStored.Timeless := by
    intro key entry member _
    rw [(Prod.mk.inj (List.mem_singleton.1 member)).2]
  have works (moment : Nat) (access : Access) : steady.fault moment access = none := rfl
  have steadily (earlier later : Nat) (payload : Transaction) :
      steady.send earlier payload = steady.send later payload := rfl
  have located : ∀ hash ∈ [first.hash, third.hash],
      ∃ place, paired.locate hash = some ⟨0, place⟩ := by
    rw [List.forall_mem_cons, List.forall_mem_singleton]
    exact ⟨⟨0, rfl⟩, ⟨1, rfl⟩⟩
  refine Surroundings.outcomes_commute steady .forever alice paired 0 (fun _ => .success) _ _
    pairedStored works steadily unique stored located (fun _ _ => .inl rfl) (.swap _ _ _) ?_
  intro passed member
  rcases List.mem_append.1 member with inFirst | inSecond
  · exact Surroundings.endures_reconcileAll timeless _ _ passed inFirst
  · exact Surroundings.endures_reconcileAll timeless _ _ passed inSecond

end BatchRelay
