import BatchRelay.Proofs.Engine.Timeless
import BatchRelay.Proofs.Registry.Checkpoints
import BatchRelay.Proofs.Transaction.Validity

/-!
# What commands come to

Where nothing fails and nothing runs out of time, what a command leaves behind
can be computed from the texts that the cache holds.  For each command there is
an equation for the case in which it does what it is meant to do.
-/

namespace BatchRelay

/-- The texts under the keys of a cache in which every entry counts for ever. -/
structure World.Everlasting (world : World) (text? : String → Option String) :
    Prop where
  unique : world.cache.entries.Unique
  forever : ∀ key entry, (key, entry) ∈ world.cache.entries →
    entry.deadline = none
  text : ∀ key text, text? key = some text ↔
    (key, ⟨text, none⟩) ∈ world.cache.entries

/-! ## Valid requests -/

/-- An item with which nothing has happened yet. -/
def Item.waiting (transaction : HashedTransaction) : Item :=
  ⟨transaction, .pending, none⟩

/-- The request to send transactions by groups. -/
def BatchRequest.ofGroups (id : String)
    (groups : List (List HashedTransaction)) : BatchRequest :=
  ⟨id, groups.map fun group => group.map HashedTransaction.payload⟩

/-- The batch of transactions by groups. -/
def Batch.ofGroups (id : String) (groups : List (List HashedTransaction)) :
    Batch :=
  ⟨id, groups.map fun group => ⟨group.map Item.waiting⟩, .pending, none⟩

/-- A request that passes all checks but the one for a stored batch, and the
batch that is made of it. -/
structure BatchRequest.Passes (request : BatchRequest) (sourceIp : Option String)
    (address : String) (batch : Batch) : Prop where
  shaped : request.checkShape = .ok address
  checked : request.checkTransactions address = .ok ()
  made : request.toBatch sourceIp = .ok batch

section Traversal

variable {ε α β γ : Type} {values : List α} {read : α → γ}

theorem mapM_eq_ok {change : γ → Except ε β} {result : α → β}
    (works : ∀ value ∈ values, change (read value) = .ok (result value)) :
    (values.map read).mapM change = .ok (values.map result) := by
  induction values with
  | nil => rfl
  | cons value values induction =>
      obtain ⟨first, others⟩ := List.forall_mem_cons.1 works
      exact mapM_cons_eq_ok_iff.2 ⟨_, _, first, induction others, rfl⟩

theorem forM_eq_ok {check : α → Except ε Unit}
    (passes : ∀ value ∈ values, check value = .ok ()) :
    values.forM check = .ok () := by
  induction values with
  | nil => rfl
  | cons value values induction =>
      obtain ⟨first, others⟩ := List.forall_mem_cons.1 passes
      exact Except.bind_eq_ok_iff.2 ⟨(), first, induction others⟩

end Traversal

/-- A request of valid transactions passes when it has the right shape. -/
theorem BatchRequest.passes_ofGroups {id address : String}
    {groups : List (List HashedTransaction)}
    (named : id ≠ "" ∧ ';' ∉ id.toList) (nonempty : groups ≠ [])
    (full : ∀ group ∈ groups, group ≠ [])
    (valid : ∀ group ∈ groups, ∀ transaction ∈ group,
      transaction.Valid address) :
    (ofGroups id groups).Passes none address (.ofGroups id groups) := by
  have payload {transaction : Transaction}
      (member : transaction ∈ (ofGroups id groups).transactions.flatten) :
      transaction.sender = address ∧ transaction.check = .ok () := by
    simp only [ofGroups, List.mem_flatten, List.mem_map] at member
    obtain ⟨_, ⟨group, inGroups, rfl⟩, inGroup⟩ := member
    obtain ⟨hashed, isMember, rfl⟩ := List.mem_map.1 inGroup
    have isValid := valid group inGroups hashed isMember
    exact ⟨isValid.sender, isValid.passes⟩
  constructor
  case shaped =>
    obtain ⟨head, tail, rfl⟩ := List.exists_cons_of_ne_nil nonempty
    obtain ⟨first, rest, rfl⟩ :=
      List.exists_cons_of_ne_nil (full head List.mem_cons_self)
    have noneEmpty : (ofGroups id ((first :: rest) :: tail)).transactions.findIdx?
        List.isEmpty = none := by
      refine List.findIdx?_eq_none_iff.2 fun transactions member => ?_
      obtain ⟨group, inGroups, rfl⟩ := List.mem_map.1 member
      simpa using full group inGroups
    have sender := (valid _ List.mem_cons_self first List.mem_cons_self).sender
    simp only [ofGroups, List.map_cons] at noneEmpty
    simp only [checkShape, ofGroups, List.map_cons, noneEmpty]
    simp [named, sender]
  case checked =>
    refine Except.bind_eq_ok_iff.2 ⟨(), ?_, forM_eq_ok fun _ member =>
      (payload member).2⟩
    have found : (ofGroups id groups).transactions.flatten.find?
        (fun transaction => transaction.sender ≠ address) = none := by
      refine List.find?_eq_none.2 fun _ member => ?_
      simp [(payload member).1]
    simp only [checkSenders, found]
  case made =>
    refine Except.bind_eq_ok_iff.2
      ⟨_, mapM_eq_ok fun group inGroups => ?_, rfl⟩
    refine Except.bind_eq_ok_iff.2
      ⟨_, mapM_eq_ok fun transaction inGroup => ?_, rfl⟩
    have isValid := valid group inGroups transaction inGroup
    simp only [Item.fresh, isValid.hashes]
    rfl

/-- The requests with which a tick begins that reads one block of one shard. -/
def Watch.opening (shard : UInt32) (latest : UInt64) (hash : String) :
    List Request :=
  [.beginTick, .latestNonce shard, .read (Checkpoints.key shard),
    .block shard latest, .readMany [Routes.key hash]]

/-- The requests with which such a tick ends. -/
def Watch.closing (lifetimes : Lifetimes) (shard : UInt32) (latest : UInt64)
    (events : List BatchUpdated) : List Request :=
  .write (Checkpoints.key shard) (String.ofList (Decimal.ofNat latest.toNat))
    lifetimes.checkpoint :: (events.map .publish ++ [.endTick])

namespace Surroundings

variable {surroundings : Surroundings} {lifetimes : Lifetimes} {world : World}
  {text? : String → Option String} {key text address id hash : String}

/-! ## Texts -/

section Texts

variable (everlasting : world.Everlasting text?)

include everlasting

theorem value?_of_everlasting : surroundings.value? world key = text? key := by
  apply Option.ext
  intro text
  rw [value?_eq_some_iff everlasting.unique, everlasting.text]
  constructor
  · rintro ⟨⟨value, deadline⟩, member, -, rfl⟩
    cases everlasting.forever key _ member
    exact member
  · exact fun member => ⟨_, member, rfl, rfl⟩

theorem everlasting_after {request : Request}
    (untouched : request.touched? = none) :
    (surroundings.after ⟨world, request⟩).Everlasting text? := by
  have same : (surroundings.after ⟨world, request⟩).cache = world.cache :=
    cache_after_untouched untouched
  exact ⟨same ▸ everlasting.unique, same ▸ everlasting.forever,
    same ▸ everlasting.text⟩

theorem everlasting_after_write
    (works : surroundings.fault world.moment (.write key) = none) :
    (surroundings.after ⟨world, .write key text none⟩).Everlasting
      fun other => if other = key then some text else text? other where
  unique := unique_after everlasting.unique
  forever other entry member := by
    rw [cache_after_write works, Cache.mem_set] at member
    obtain ⟨-, rfl⟩ | ⟨⟨before, -⟩, -⟩ := member
    · rfl
    · exact everlasting.forever other entry before
  text other value := by
    rw [cache_after_write works, Cache.mem_set, ← everlasting.text]
    by_cases same : other = key <;>
      simp [same, Entry.isLive, eq_comm]

theorem everlasting_after_delete
    (works : surroundings.fault world.moment (.delete key) = none) :
    (surroundings.after ⟨world, .delete key⟩).Everlasting
      fun other => if other = key then none else text? other where
  unique := unique_after everlasting.unique
  forever other entry member := by
    rw [cache_after_delete works, Cache.mem_delete] at member
    exact everlasting.forever other entry member.1
  text other value := by
    rw [cache_after_delete works, Cache.mem_delete, ← everlasting.text]
    by_cases same : other = key <;> simp [same]

end Texts

/-! ## Commands -/

theorem run_perform_submit (request : BatchRequest) (sourceIp : Option String) :
    (surroundings.run (Command.perform lifetimes (.submit request sourceIp))
      world).2 = (surroundings.run (submit lifetimes request sourceIp) world).2 :=
  by simp only [Command.perform, Bind.bind, run_bind, Pure.pure, run]

theorem steps_perform_submit (request : BatchRequest)
    (sourceIp : Option String) :
    surroundings.steps (Command.perform lifetimes (.submit request sourceIp))
      world = surroundings.steps (submit lifetimes request sourceIp) world := by
  simp only [Command.perform, Bind.bind, steps_bind, Pure.pure, steps,
    List.append_nil]

theorem run_perform_tick (settings : WatchSettings) :
    (surroundings.run (Command.perform lifetimes (.tick settings)) world).2 =
      (surroundings.run (Watch.tick lifetimes settings) world).2 := by
  simp only [Command.perform, Bind.bind, run_bind, Pure.pure, run]

theorem steps_perform_tick (settings : WatchSettings) :
    surroundings.steps (Command.perform lifetimes (.tick settings)) world =
      surroundings.steps (Watch.tick lifetimes settings) world := by
  simp only [Command.perform, Bind.bind, steps_bind, Pure.pure, steps,
    List.append_nil]

/-! ## Sending -/

theorem run_sendItems_taken {route : Route} {position : Position} {item : Item}
    {items : List Item}
    (answer : surroundings.send world.moment item.payload = .ok hash) :
    surroundings.run (sendItems lifetimes route position (item :: items)) world =
      let rest := surroundings.run (sendItems lifetimes route position.next items)
        (surroundings.after (.writeRoute lifetimes
          (surroundings.after (.send world route position item.payload)) hash
          route))
      (item.adopt hash :: rest.1, rest.2) := by
  have reply : (surroundings.answer world
      (.send ⟨route.address, route.batchId, position⟩ item.payload)).1 =
        .ok hash := answer
  simp only [sendItems, Routes.insert, Activity.request, Bind.bind, Pure.pure,
    Activity.bind, run, run_bind, reply]
  rfl

theorem run_sendItems_refused {route : Route} {position : Position} {item : Item}
    {items : List Item} {error : GatewayError}
    (answer : surroundings.send world.moment item.payload = .error error) :
    surroundings.run (sendItems lifetimes route position (item :: items)) world =
      (item.refuse error.rejection? :: items,
        surroundings.after (.send world route position item.payload)) := by
  have reply : (surroundings.answer world
      (.send ⟨route.address, route.batchId, position⟩ item.payload)).1 =
        .error error := answer
  simp only [sendItems, Activity.request, Bind.bind, Pure.pure, Activity.bind,
    run, reply]
  rfl

theorem run_startGroup {batch : Batch} {index : Nat} {group : Group}
    (isSender : batch.address? = some address)
    (present : batch.groups[index]? = some group) :
    surroundings.run (startGroup lifetimes batch index) world =
      let sent := surroundings.run (sendItems lifetimes
        ⟨batch.id, address, surroundings.now world.moment⟩ ⟨index, 0⟩
        group.items) (surroundings.after (.clock world))
      (batch.modifyGroup index fun _ => ⟨sent.1⟩, sent.2) := by
  simp only [startGroup, isSender, present, Activity.request, Bind.bind,
    Pure.pure, Activity.bind, run, run_bind]
  rfl

/-! ## Submissions -/

theorem run_submit {request : BatchRequest} {sourceIp : Option String}
    {batch : Batch} (passes : request.Passes sourceIp address batch)
    (works : surroundings.fault world.moment
      (.read (Records.key address request.id)) = none)
    (absent : surroundings.value? world (Records.key address request.id) =
      none) :
    surroundings.run (submit lifetimes request sourceIp) world =
      let started := surroundings.run (startGroup lifetimes batch 0)
        (surroundings.after (.readRecord world address request.id))
      if started.1.invalidHashesAt 0 = [] then
        let stored := (surroundings.run (Records.put lifetimes address started.1)
          started.2).1
        ((stored.map fun _ => started.1).mapError .cache,
          surroundings.written lifetimes started.2 address started.1)
      else
        (.ok { started.1 with status := .invalid }, started.2) := by
  have read := get_eq_none_iff.2 ⟨works, absent⟩
  simp only [submit, BatchRequest.validate, Bind.bind, Pure.pure, run_bind,
    passes.shaped, read, world_get, run, passes.checked, Except.ok_map,
    passes.made]
  split
  case isTrue => rfl
  case isFalse taken =>
    simp only [run_bind, world_put, if_pos (Decidable.not_not.1 taken)]
    split
    case h_1 error answer =>
      rw [answer]
      rfl
    case h_2 answer =>
      rw [answer]
      rfl

/-! ## Outcomes -/

theorem run_reconcile {batchId : String} {outcome : ItemStatus} {batch : Batch}
    {position : Position} {item : Item}
    (works : surroundings.fault world.moment
      (.read (Records.key address batchId)) = none)
    (stored : surroundings.stored? world address batchId = some batch)
    (located : batch.locate hash = some position)
    (found : batch.item? position = some item) (waits : item.status = .pending) :
    (surroundings.run (reconcile lifetimes hash batchId address outcome)
        world).2 =
      let followed := surroundings.run (follow lifetimes address batchId
        (batch.setItemStatus position outcome) position.group outcome)
        (surroundings.after (.readRecord world address batchId))
      surroundings.after (.removeRoute
        (surroundings.written lifetimes followed.2 address followed.1) hash) := by
  have read := get_eq_some_iff.2 ⟨works, stored⟩
  simp only [reconcile, applyOutcome, Routes.remove, Activity.request, Bind.bind,
    Pure.pure, Activity.bind, run, run_bind, world_get, read, located, found,
    Option.any_some, ItemStatus.isTerminal, ne_eq, waits, not_true_eq_false,
    decide_false, Bool.false_eq_true, if_false, world_put]
  split <;> rfl

theorem run_reconcile_missing {batchId : String} {outcome : ItemStatus}
    (works : surroundings.fault world.moment
      (.read (Records.key address batchId)) = none)
    (absent : surroundings.value? world (Records.key address batchId) = none) :
    (surroundings.run (reconcile lifetimes hash batchId address outcome)
        world).2 =
      surroundings.after (.removeRoute
        (surroundings.after (.readRecord world address batchId)) hash) := by
  have read := get_eq_none_iff.2 ⟨works, absent⟩
  simp only [run_reconcile_eq, applyOutcome, Bind.bind, Pure.pure, run_bind, read,
    world_get, run]

/-- The world after requests that are made one after the other. -/
def afterAll (surroundings : Surroundings) (world : World)
    (requests : List Request) : World :=
  requests.foldl (fun world request => surroundings.after ⟨world, request⟩) world

theorem afterAll_append (front back : List Request) :
    surroundings.afterAll world (front ++ back) =
      surroundings.afterAll (surroundings.afterAll world front) back :=
  List.foldl_append

theorem moment_afterAll (requests : List Request) :
    (surroundings.afterAll world requests).moment =
      world.moment + requests.length := by
  induction requests generalizing world with
  | nil => rfl
  | cons request requests induction =>
      rw [afterAll, List.foldl_cons, ← afterAll, induction, moment_after,
        List.length_cons, Nat.add_assoc, Nat.add_comm 1]

theorem everlasting_afterAll {requests : List Request}
    (everlasting : world.Everlasting text?)
    (untouched : ∀ request ∈ requests, request.touched? = none) :
    (surroundings.afterAll world requests).Everlasting text? := by
  induction requests generalizing world with
  | nil => exact everlasting
  | cons request requests induction =>
      obtain ⟨first, others⟩ := List.forall_mem_cons.1 untouched
      exact induction (everlasting_after everlasting first) others

theorem run_publishAll (events : List BatchUpdated) :
    (surroundings.run (publishAll events) world).2 =
      surroundings.afterAll world (events.map .publish) := by
  induction events generalizing world with
  | nil => rfl
  | cons event events induction => exact induction

/-! ## Ticks -/

section Watching

variable {shard : UInt32} {latest lookBehind : UInt64}
  {transaction : ObservedTransaction} {outcome : ItemStatus}
  (works : ∀ moment access, surroundings.fault moment access = none)

include works

theorem run_getCheckpoint
    (absent : surroundings.value? world (Checkpoints.key shard) = none) :
    surroundings.run (Checkpoints.get shard) world =
      (.ok none, surroundings.after ⟨world, .read (Checkpoints.key shard)⟩) := by
  have reply := answer_read (works world.moment (.read (Checkpoints.key shard)))
  rw [absent] at reply
  simp only [Checkpoints.get, Activity.request, Bind.bind, Pure.pure,
    Activity.bind, run, reply]
  rfl

theorem run_getMany (hashes : List String) :
    surroundings.run (Routes.getMany hashes) world =
      (.ok (Routes.pairs hashes (hashes.map fun hash =>
          surroundings.value? world (Routes.key hash))),
        surroundings.after ⟨world, .readMany (hashes.map Routes.key)⟩) := by
  have reply : (surroundings.answer world
      (.readMany (hashes.map Routes.key))).1 =
        .ok (hashes.map fun hash =>
          surroundings.value? world (Routes.key hash)) := by
    have faultless : (hashes.map Routes.key).findSome? (fun key =>
        surroundings.fault world.moment (.read key)) = none :=
      List.findSome?_eq_none_iff.2 fun _ _ => works _ _
    simp only [answer, faultless, Cache.getMany_eq, List.map_map]
    rfl
  simp only [Routes.getMany, Activity.request, Bind.bind, Pure.pure,
    Activity.bind, run, reply]
  rfl

theorem run_processBlock
    (routed : surroundings.value? world (Routes.key transaction.hash) = some text)
    (final : transaction.status.outcome? = some outcome) :
    surroundings.run (Watch.processBlock lifetimes [transaction]) world =
      let applied := surroundings.run (reconcile lifetimes transaction.hash
          (Route.decode text).batchId (Route.decode text).address outcome)
        (surroundings.after ⟨world, .readMany [Routes.key transaction.hash]⟩)
      (.ok [⟨transaction.hash, Route.decode text, applied.1⟩], applied.2) := by
  have found := @run_getMany surroundings world works [transaction.hash]
  simp only [List.map_cons, List.map_nil, routed, Routes.pairs, List.zip_cons_cons,
    List.zip_nil_left, List.filterMap_cons, Option.map_some, List.filterMap_nil]
    at found
  simp only [Watch.processBlock, List.map_cons, List.map_nil, Bind.bind, Pure.pure,
    run_bind, found, Watch.applyObserved, List.lookup_cons_self, final,
    Attempt.make, Activity.bind, run, reduceCtorEq, if_false]

theorem run_readBlock {nonce : UInt64}
    (observed : surroundings.block world.moment shard nonce = .ok [transaction])
    (routed : surroundings.value?
      (surroundings.after ⟨world, .block shard nonce⟩)
      (Routes.key transaction.hash) = some text)
    (final : transaction.status.outcome? = some outcome) :
    ∃ attempts, surroundings.run (Watch.readBlocks lifetimes shard 1 nonce) world =
      (attempts, surroundings.afterAll
        (surroundings.run (reconcile lifetimes transaction.hash
            (Route.decode text).batchId (Route.decode text).address outcome)
          (surroundings.afterAll world
            [.block shard nonce, .readMany [Routes.key transaction.hash]])).2
        [.write (Checkpoints.key shard)
          (String.ofList (Decimal.ofNat nonce.toNat)) lifetimes.checkpoint]) := by
  have reply : (surroundings.answer world (.block shard nonce)).1 =
      .ok [transaction] := observed
  have processed := @run_processBlock surroundings lifetimes _ _ _ _ works routed
    final
  simp only [after] at processed
  simp only [Watch.readBlocks, Checkpoints.set, Activity.request, Bind.bind,
    Pure.pure, Activity.bind, run, run_bind, reply, processed]
  split
  all_goals exact ⟨_, rfl⟩

theorem run_visit
    (asked : surroundings.latestNonce world.moment shard = .ok latest)
    (unvisited : surroundings.value?
      (surroundings.after ⟨world, .latestNonce shard⟩)
      (Checkpoints.key shard) = none) :
    surroundings.run (Watch.visit lifetimes lookBehind shard) world =
      let read := surroundings.run (Watch.readBlocks lifetimes shard 1 latest)
        (surroundings.afterAll world
          [.latestNonce shard, .read (Checkpoints.key shard)])
      (.ok read.1, read.2) := by
  have reply : (surroundings.answer world (.latestNonce shard)).1 =
      .ok latest := asked
  have checkpoint := run_getCheckpoint works unvisited
  have first : Watch.startNonce none latest lookBehind = .ok (some latest) := by
    simp [Watch.startNonce, Watch.nextUnread, Pure.pure, Except.pure]
  simp only [after] at checkpoint
  simp only [Watch.visit, Activity.request, Bind.bind, Pure.pure, Activity.bind,
    run, run_bind, reply, checkpoint, first, Nat.sub_self, Nat.zero_add]
  rfl

/-- A shard that has a checkpoint after which there is no nonce. -/
theorem run_visit_overflow {nonce : UInt64} {overflow : Overflow}
    (asked : surroundings.latestNonce world.moment shard = .ok latest)
    (visited : surroundings.value?
      (surroundings.after ⟨world, .latestNonce shard⟩)
      (Checkpoints.key shard) = some (Checkpoints.encode nonce))
    (overflows : Watch.startNonce (some nonce) latest lookBehind =
      .error overflow) :
    surroundings.run (Watch.visit lifetimes lookBehind shard) world =
      (.error overflow, surroundings.afterAll world
        [.latestNonce shard, .read (Checkpoints.key shard)]) := by
  have reply : (surroundings.answer world (.latestNonce shard)).1 =
      .ok latest := asked
  have read := answer_read (works (surroundings.after
    ⟨world, .latestNonce shard⟩).moment (.read (Checkpoints.key shard)))
  rw [visited] at read
  simp only [after] at read
  simp only [Watch.visit, Checkpoints.get, Activity.request, Bind.bind, Pure.pure,
    Activity.bind, run, reply, read, Checkpoints.decode_encode,
    Except.map, overflows]
  rfl

omit works in
/-- A tick that visits two shards and overflows at the second one. -/
theorem run_tick_overflow {other : UInt32} {attempts : List Attempt}
    {overflow : Overflow} {middle last : World} (idle : world.ticking = false)
    (visited : surroundings.run (Watch.visit lifetimes lookBehind shard)
      (surroundings.after ⟨world, .beginTick⟩) = (.ok attempts, middle))
    (overflows : surroundings.run (Watch.visit lifetimes lookBehind other)
      middle = (.error overflow, last)) :
    surroundings.run (Watch.tick lifetimes ⟨[shard, other], lookBehind⟩) world =
      (.error overflow, surroundings.after ⟨last, .endTick⟩) := by
  have begins : (surroundings.answer world .beginTick).1 = true := by
    simp [answer, idle]
  simp only [after] at visited
  simp only [Watch.tick, Watch.tryBegin, Watch.pass, Watch.visitAll, Watch.finish,
    Activity.request, Bind.bind, Pure.pure, Activity.bind, run, run_bind, begins,
    if_true, visited, overflows, Except.map]
  rfl

omit works in
variable (surroundings lifetimes shard lookBehind) in
theorem run_tickShard (idle : world.ticking = false) :
    ∃ events : List BatchUpdated,
      (surroundings.run (Watch.tick lifetimes ⟨[shard], lookBehind⟩) world).2 =
        surroundings.afterAll
          (surroundings.run (Watch.visit lifetimes lookBehind shard)
            (surroundings.after ⟨world, .beginTick⟩)).2
          (events.map .publish ++ [.endTick]) := by
  have begins : (surroundings.answer world .beginTick).1 = true := by
    simp [answer, idle]
  obtain ⟨result, last, visited⟩ : ∃ result last,
      surroundings.run (Watch.visit lifetimes lookBehind shard)
        (surroundings.after ⟨world, .beginTick⟩) = (result, last) :=
    ⟨_, _, rfl⟩
  rw [visited]
  simp only [after] at visited
  cases result with
  | error overflow =>
      refine ⟨[], ?_⟩
      simp only [Watch.tick, Watch.tryBegin, Watch.pass, Watch.visitAll,
        Watch.finish, Activity.request, Bind.bind, Pure.pure, Activity.bind, run,
        run_bind, begins, if_true, visited]
      rfl
  | ok attempts =>
      refine ⟨announcements (attempts ++ []), ?_⟩
      rw [afterAll_append, ← run_publishAll]
      simp only [Watch.tick, Watch.tryBegin, Watch.pass, Watch.visitAll,
        Watch.finish, Activity.request, Bind.bind, Pure.pure, Activity.bind, run,
        run_bind, begins, if_true, visited, Except.map]
      rfl

section Finding

variable (everlasting : world.Everlasting text?)
  (asked : ∀ moment, surroundings.latestNonce moment shard = .ok latest)
  (observed : ∀ moment,
    surroundings.block moment shard latest = .ok [transaction])
  (unvisited : text? (Checkpoints.key shard) = none)
  (routed : text? (Routes.key transaction.hash) = some text)
  (final : transaction.status.outcome? = some outcome)

include everlasting asked observed unvisited routed final

variable (lifetimes lookBehind) in
/-- A visit at the beginning of a tick that finds the outcome of one transaction on
its way. -/
theorem run_visit_finds : ∃ attempts,
    surroundings.run (Watch.visit lifetimes lookBehind shard)
        (surroundings.after ⟨world, .beginTick⟩) =
      (.ok attempts, surroundings.afterAll (surroundings.run (reconcile lifetimes
            transaction.hash (Route.decode text).batchId
            (Route.decode text).address outcome)
          (surroundings.afterAll world
            (Watch.opening shard latest transaction.hash))).2
        [.write (Checkpoints.key shard) (String.ofList (Decimal.ofNat latest.toNat))
          lifetimes.checkpoint]) := by
  have keeps (requests : List Request)
      (untouched : ∀ request ∈ requests, request.touched? = none) :
      (surroundings.afterAll world requests).Everlasting text? :=
    everlasting_afterAll everlasting untouched
  have unseen : surroundings.value? (surroundings.afterAll world
      [.beginTick, .latestNonce shard]) (Checkpoints.key shard) = none :=
    (value?_of_everlasting (keeps _ (by simp [Request.touched?]))).trans unvisited
  have onItsWay : surroundings.value? (surroundings.afterAll world
      [.beginTick, .latestNonce shard, .read (Checkpoints.key shard),
        .block shard latest]) (Routes.key transaction.hash) = some text :=
    (value?_of_everlasting (keeps _ (by simp [Request.touched?]))).trans routed
  obtain ⟨attempts, read⟩ :=
    run_readBlock works (observed _) onItsWay final
  refine ⟨attempts, ?_⟩
  rw [run_visit works (asked _) unseen]
  erw [read]
  rfl

variable (lifetimes lookBehind) in
/-- A tick that finds the outcome of one transaction on its way. -/
theorem run_tick (idle : world.ticking = false) :
    ∃ events : List BatchUpdated,
      (surroundings.run (Watch.tick lifetimes ⟨[shard], lookBehind⟩) world).2 =
        surroundings.afterAll (surroundings.run (reconcile lifetimes
            transaction.hash (Route.decode text).batchId
            (Route.decode text).address outcome)
          (surroundings.afterAll world
            (Watch.opening shard latest transaction.hash))).2
        (Watch.closing lifetimes shard latest events) := by
  obtain ⟨events, ticked⟩ :=
    surroundings.run_tickShard lifetimes shard lookBehind idle
  obtain ⟨attempts, visited⟩ := run_visit_finds lifetimes lookBehind works
    everlasting asked observed unvisited routed final
  refine ⟨events, ?_⟩
  rw [ticked, visited]
  rfl

end Finding

end Watching

end Surroundings

namespace Run

variable {run : Run} {front back : List Command} {request : BatchRequest}
  {sourceIp : Option String}

theorem worldAfter_submit :
    run.worldAfter (front ++ [.submit request sourceIp]) =
      (run.surroundings.run (submit run.lifetimes request sourceIp)
        (run.worldAfter front)).2 := by
  rw [worldAfter, Surroundings.run_performAll_append,
    Surroundings.run_performAll_cons, Surroundings.run_perform_submit]
  rfl

theorem mem_steps_of_submit
    (commands : run.commands = front ++ .submit request sourceIp :: back)
    {step : Step}
    (member : step ∈ run.surroundings.steps
      (submit run.lifetimes request sourceIp) (run.worldAfter front)) :
    step ∈ run.steps := by
  rw [run.steps_append commands]
  apply List.mem_append_right
  simp only [performAll, Bind.bind, Surroundings.steps_bind,
    Surroundings.steps_perform_submit]
  exact List.mem_append_left _ member

end Run

end BatchRelay
