import BatchRelay.Proofs.Engine.Evaluation

/-!
# What worlds show

What a world shows is enough to tell what the next command comes to, as long as
nothing fails and nothing runs out of time.
-/

namespace BatchRelay

/-- A sending for a batch: the item's place and the network's answer. -/
abbrev Sending := Position × Except GatewayError String

/-- What a world shows: the texts that its cache holds, whether a tick is
running, and what was sent for a batch. -/
structure World.Shows (world : World) (address id : String)
    (text? : String → Option String) (ticking : Bool)
    (sendings : List Sending) : Prop where
  everlasting : world.Everlasting text?
  ticking : world.ticking = ticking
  sent : ∀ position reply,
    (∃ payload, .sent ⟨address, id, position⟩ payload reply ∈ world.journal) ↔
      (position, reply) ∈ sendings

theorem Run.shows_start (run : Run) (address id : String) :
    run.start.Shows address id (fun _ => none) false [] where
  everlasting :=
    { unique := run.sound_start.unique
      forever := fun _ _ member => by
        simp [start, World.start, run.empty] at member
      text := by simp [start, World.start, run.empty] }
  ticking := rfl
  sent _ _ := by simp [start, World.start]

/-- What an activity comes to: its result, and what the world shows after it. -/
structure Surroundings.Yields (surroundings : Surroundings) {α : Type}
    (activity : Activity α) (world : World) (result : α) (address id : String)
    (text? : String → Option String) (ticking : Bool)
    (sendings : List Sending) : Prop where
  result : (surroundings.run activity world).1 = result
  shows : (surroundings.run activity world).2.Shows address id text? ticking
    sendings

/-- Every tick at a shard finds that one transaction has succeeded, and nothing
else. -/
structure Surroundings.Confirms (surroundings : Surroundings) (shard : UInt32)
    (latest : UInt64) (transaction : ObservedTransaction) : Prop where
  asked : ∀ moment, surroundings.latestNonce moment shard = .ok latest
  observed : ∀ moment,
    surroundings.block moment shard latest = .ok [transaction]
  succeeded : transaction.status = .success

/-- Whether a request only asks or tells. -/
def Request.isQuiet : Request → Bool
  | .read _ | .readMany _ | .scan _ | .latestNonce _ | .block _ _ | .lookup _
  | .publish _ | .now | .token => true
  | _ => false

namespace World.Shows

variable {surroundings : Surroundings} {world : World} {address id : String}
  {text? : String → Option String} {ticking : Bool} {sendings : List Sending}
  {key text hash : String}

section Requests

variable (shows : world.Shows address id text? ticking sendings)

include shows

theorem sent_after {request : Request}
    (unsent : ∀ position payload, request ≠ .send ⟨address, id, position⟩ payload)
    (position : Position) (reply : Except GatewayError String) :
    (∃ payload, .sent ⟨address, id, position⟩ payload reply ∈
        (surroundings.after ⟨world, request⟩).journal) ↔
      (position, reply) ∈ sendings := by
  simp only [Surroundings.sent_mem_journal_after, unsent, false_and, or_false,
    shows.sent]

theorem quiet {request : Request} (isQuiet : request.isQuiet = true) :
    (surroundings.after ⟨world, request⟩).Shows address id text? ticking
      sendings where
  everlasting := Surroundings.everlasting_after shows.everlasting
    (by cases request <;> first | rfl | cases isQuiet)
  ticking := by
    rw [← shows.ticking]
    cases request with
    | read | scan =>
        simp only [Surroundings.after, Surroundings.answer, Surroundings.access]
        split <;> rfl
    | readMany =>
        simp only [Surroundings.after, Surroundings.answer]
        split <;> rfl
    | latestNonce | block | lookup | publish | now | token => rfl
    | _ => cases isQuiet
  sent := by
    apply shows.sent_after
    rintro _ _ rfl
    cases isQuiet

theorem write (text : String)
    (works : surroundings.fault world.moment (.write key) = none) :
    (surroundings.after ⟨world, .write key text none⟩).Shows address id
      (fun other => if other = key then some text else text? other) ticking
      sendings where
  everlasting := Surroundings.everlasting_after_write shows.everlasting works
  ticking := by
    simp only [Surroundings.after, Surroundings.answer,
      Surroundings.access_works works]
    exact shows.ticking
  sent := shows.sent_after nofun

theorem delete
    (works : surroundings.fault world.moment (.delete key) = none) :
    (surroundings.after ⟨world, .delete key⟩).Shows address id
      (fun other => if other = key then none else text? other) ticking
      sendings where
  everlasting := Surroundings.everlasting_after_delete shows.everlasting works
  ticking := by
    simp only [Surroundings.after, Surroundings.answer,
      Surroundings.access_works works]
    exact shows.ticking
  sent := shows.sent_after nofun

theorem send {position : Position} {payload : Transaction}
    {reply : Except GatewayError String}
    (answer : surroundings.send world.moment payload = reply) :
    (surroundings.after ⟨world, .send ⟨address, id, position⟩ payload⟩).Shows
      address id text? ticking ((position, reply) :: sendings) where
  everlasting := Surroundings.everlasting_after shows.everlasting rfl
  ticking := shows.ticking
  sent place other := by
    rw [List.mem_cons, ← shows.sent]
    simp only [Surroundings.sent_mem_journal_after]
    constructor
    · rintro ⟨_, before | ⟨sends, same⟩⟩
      · exact .inr ⟨_, before⟩
      · cases sends
        exact .inl (congrArg _ (same.symm.trans answer))
    · rintro (same | ⟨_, before⟩)
      · cases same
        exact ⟨payload, .inr ⟨rfl, answer⟩⟩
      · exact ⟨_, .inl before⟩

theorem beginTick :
    (surroundings.after ⟨world, .beginTick⟩).Shows address id text? true
      sendings where
  everlasting := Surroundings.everlasting_after shows.everlasting rfl
  ticking := rfl
  sent := shows.sent_after nofun

theorem endTick :
    (surroundings.after ⟨world, .endTick⟩).Shows address id text? false
      sendings where
  everlasting := Surroundings.everlasting_after shows.everlasting rfl
  ticking := rfl
  sent := shows.sent_after nofun

theorem stored? {batch : Batch}
    (held : text? (Records.key address id) = some batch.render) :
    surroundings.stored? world address id = some batch := by
  rw [Surroundings.stored?, Surroundings.value?_of_everlasting shows.everlasting,
    held, Option.bind_some, Batch.parse_render]
  rfl

theorem stored?_eq_none (absent : text? (Records.key address id) = none) :
    surroundings.stored? world address id = none := by
  rw [Surroundings.stored?, Surroundings.value?_of_everlasting shows.everlasting,
    absent, Option.bind_none]

theorem route? : surroundings.route? world hash =
    (text? (Routes.key hash)).map Route.decode := by
  rw [Surroundings.route?, Surroundings.value?_of_everlasting shows.everlasting]

theorem quietAll {requests : List Request}
    (areQuiet : ∀ request ∈ requests, request.isQuiet = true) :
    (surroundings.afterAll world requests).Shows address id text? ticking
      sendings := by
  induction requests generalizing world with
  | nil => exact shows
  | cons request requests induction =>
      obtain ⟨first, others⟩ := List.forall_mem_cons.1 areQuiet
      exact induction (shows.quiet first) others

theorem opening (shard : UInt32) (latest : UInt64) (hash : String) :
    (surroundings.afterAll world (Watch.opening shard latest hash)).Shows address
      id text? true sendings :=
  shows.beginTick.quietAll (by simp [Request.isQuiet])

theorem closing
    (works : ∀ moment access, surroundings.fault moment access = none)
    (shard : UInt32) (latest : UInt64) (events : List BatchUpdated) :
    (surroundings.afterAll world
        (Watch.closing .forever shard latest events)).Shows address id
      (fun key => if key = Checkpoints.key shard then
        some (String.ofList (Decimal.ofNat latest.toNat)) else text? key)
      false sendings := by
  rw [Watch.closing, ← List.cons_append, Surroundings.afterAll_append]
  have written := shows.write (String.ofList (Decimal.ofNat latest.toNat))
    (works world.moment (.write (Checkpoints.key shard)))
  have areQuiet : ∀ request ∈ events.map Request.publish,
      request.isQuiet = true := by
    simp [Request.isQuiet]
  exact (written.quietAll areQuiet).endTick

section Submitted

variable {request : BatchRequest} {sourceIp : Option String}
  {batch : Batch} {shown : String → Option String} {sent : List Sending}
  (batch' : Batch)
  (works : ∀ moment access, surroundings.fault moment access = none)
  (passes : request.Passes sourceIp address batch) (named : request.id = id)
  (absent : text? (Records.key address id) = none)
  (started : ∀ opened : World, opened.moment = world.moment + 1 →
    opened.Shows address id text? ticking sendings →
    surroundings.Yields (startGroup .forever batch 0) opened batch' address id
      shown ticking sent)

include works passes named absent started

theorem submit (isSame : batch'.id = id) (taken : batch'.invalidHashesAt 0 = []) :
    (surroundings.run (BatchRelay.submit .forever request sourceIp)
        world).2.Shows address id
      (fun key => if key = Records.key address id then some batch'.render
        else shown key) ticking sent := by
  subst named
  have unstored : surroundings.value? world (Records.key address request.id) =
      none := (Surroundings.value?_of_everlasting shows.everlasting).trans absent
  obtain ⟨same, last⟩ :=
    started (surroundings.after (.readRecord world address request.id))
      (Surroundings.moment_after _) (shows.quiet rfl)
  simp only [Surroundings.run_submit passes (works _ _) unstored, same, taken,
    if_true]
  rw [Surroundings.written, Step.writeRecord, isSame]
  exact last.write batch'.render (works _ _)

theorem submit_refused (refused : batch'.invalidHashesAt 0 ≠ []) :
    surroundings.Yields (BatchRelay.submit .forever request sourceIp) world
      (.ok { batch' with status := .invalid }) address id shown ticking sent := by
  subst named
  have unstored : surroundings.value? world (Records.key address request.id) =
      none := (Surroundings.value?_of_everlasting shows.everlasting).trans absent
  obtain ⟨same, last⟩ :=
    started (surroundings.after (.readRecord world address request.id))
      (Surroundings.moment_after _) (shows.quiet rfl)
  have ends : surroundings.run (BatchRelay.submit .forever request sourceIp)
      world = _ := Surroundings.run_submit passes (works _ _) unstored
  simp only [same, refused, if_false] at ends
  constructor
  · rw [ends]
  · rw [ends]
    exact last

end Submitted

theorem reconciles {shown : String → Option String} {sent : List Sending}
    {batch : Batch} {position : Position} {item : Item} (batch' : Batch)
    (works : ∀ moment access, surroundings.fault moment access = none)
    (stored : text? (Records.key address id) = some batch.render)
    (located : batch.locate hash = some position)
    (found : batch.item? position = some item) (waits : item.status = .pending)
    (followed : ∀ opened : World, opened.moment = world.moment + 1 →
      opened.Shows address id text? ticking sendings →
      surroundings.Yields (follow .forever address id
        (batch.setItemStatus position .success) position.group .success) opened
        batch' address id shown ticking sent)
    (isSame : batch'.id = id) :
    (surroundings.run (reconcile .forever hash id address .success)
        world).2.Shows address id
      (fun key => if key = Routes.key hash then none
        else if key = Records.key address id then some batch'.render
        else shown key) ticking sent := by
  obtain ⟨same, last⟩ := followed
    (surroundings.after (.readRecord world address id))
    (Surroundings.moment_after _) (shows.quiet rfl)
  rw [Surroundings.run_reconcile (works _ _) (shows.stored? stored) located found
    waits]
  simp only [same, Surroundings.written, Step.writeRecord, isSame]
  have written := last.write batch'.render
    (works _ (.write (Records.key address id)))
  exact written.delete (works _ _)

section Ticks

variable {shard : UInt32} {latest : UInt64} {since : Instant}
  {transaction : ObservedTransaction} {shown : String → Option String}
  {sent : List Sending} (lookBehind : UInt64)
  (works : ∀ moment access, surroundings.fault moment access = none)
  (idle : ticking = false)
  (confirms : surroundings.Confirms shard latest transaction)
  (unvisited : text? (Checkpoints.key shard) = none)
  (routed : text? (Routes.key transaction.hash) =
    some (Route.encode ⟨id, address, since⟩))
  (clean : Route.Clean ⟨id, address, since⟩)

include works idle confirms unvisited routed clean

/-- A tick that finds an outcome leaves what the outcome leaves, and the nonce of
the block it was found in. -/
theorem tick_finds
    (reconciled : ∀ opened : World, opened.moment = world.moment + 5 →
      opened.Shows address id text? true sendings →
      (surroundings.run (reconcile .forever transaction.hash id address .success)
        opened).2.Shows address id shown true sent) :
    (surroundings.run (Watch.tick .forever ⟨[shard], lookBehind⟩)
        world).2.Shows address id
      (fun key => if key = Checkpoints.key shard then
          some (String.ofList (Decimal.ofNat latest.toNat))
        else shown key) false sent := by
  obtain ⟨events, ticked⟩ := Surroundings.run_tick .forever lookBehind works
    shows.everlasting confirms.asked confirms.observed unvisited routed
    (congrArg ObservedStatus.outcome? confirms.succeeded)
    (shows.ticking.trans idle)
  rw [ticked, clean.decode_encode.1, clean.decode_encode.2]
  have last := reconciled (surroundings.afterAll world
      (Watch.opening shard latest transaction.hash))
    (Surroundings.moment_afterAll _) (shows.opening _ _ _)
  exact last.closing works _ _ _

/-- A tick that finds an outcome at one shard and overflows at another one. -/
theorem tick_overflows {other : UInt32} {height nonce : UInt64}
    {overflow : Overflow}
    (reconciled : ∀ opened : World, opened.moment = world.moment + 5 →
      opened.Shows address id text? true sendings →
      (surroundings.run (reconcile .forever transaction.hash id address .success)
        opened).2.Shows address id shown true sent)
    (elsewhere : Checkpoints.key other ≠ Checkpoints.key shard)
    (visited : shown (Checkpoints.key other) = some (Checkpoints.encode nonce))
    (asked : ∀ moment, surroundings.latestNonce moment other = .ok height)
    (overflows : Watch.startNonce (some nonce) height lookBehind =
      .error overflow) :
    ∃ last, surroundings.run (Watch.tick .forever ⟨[shard, other], lookBehind⟩)
        world = (.error overflow, last) ∧
      last.Shows address id (fun key => if key = Checkpoints.key shard then
          some (Checkpoints.encode latest) else shown key) false sent ∧
      last = surroundings.afterAll
        (surroundings.run (reconcile .forever transaction.hash id address .success)
          (surroundings.afterAll world
            (Watch.opening shard latest transaction.hash))).2
        [.write (Checkpoints.key shard) (Checkpoints.encode latest) none,
          .latestNonce other, .read (Checkpoints.key other), .endTick] := by
  obtain ⟨attempts, found⟩ := Surroundings.run_visit_finds .forever lookBehind works
    shows.everlasting confirms.asked confirms.observed unvisited routed
    (congrArg ObservedStatus.outcome? confirms.succeeded)
  rw [clean.decode_encode.1, clean.decode_encode.2] at found
  have applied := reconciled (surroundings.afterAll world
      (Watch.opening shard latest transaction.hash))
    (Surroundings.moment_afterAll _) (shows.opening _ _ _)
  have marked := applied.write (Checkpoints.encode latest)
    (works _ (.write (Checkpoints.key shard)))
  refine ⟨_, Surroundings.run_tick_overflow (shows.ticking.trans idle) found
    (Surroundings.run_visit_overflow works (asked _) ?_ overflows), ?_, rfl⟩
  · refine (Surroundings.value?_of_everlasting
      (marked.quiet rfl).everlasting).trans ?_
    rw [if_neg elsewhere, visited]
  · exact ((marked.quiet rfl).quiet rfl).endTick

theorem tick {batch : Batch} {position : Position} {item : Item}
    (batch' : Batch)
    (stored : text? (Records.key address id) = some batch.render)
    (located : batch.locate transaction.hash = some position)
    (found : batch.item? position = some item) (waits : item.status = .pending)
    (followed : ∀ opened : World, opened.moment = world.moment + 6 →
      opened.Shows address id text? true sendings →
      surroundings.Yields (follow .forever address id
        (batch.setItemStatus position .success) position.group .success) opened
        batch' address id shown true sent)
    (isSame : batch'.id = id) :
    (surroundings.run (Watch.tick .forever ⟨[shard], lookBehind⟩)
        world).2.Shows address id
      (fun key => if key = Checkpoints.key shard then
          some (String.ofList (Decimal.ofNat latest.toNat))
        else if key = Routes.key transaction.hash then none
        else if key = Records.key address id then some batch'.render
        else shown key) false sent := by
  refine shows.tick_finds lookBehind works idle confirms unvisited routed clean
    fun world moment opened => ?_
  exact opened.reconciles batch' works stored located found waits
    (fun last moment' => followed last (moment'.trans (congrArg (· + 1) moment)))
    isSame

theorem tick_missing (absent : text? (Records.key address id) = none) :
    (surroundings.run (Watch.tick .forever ⟨[shard], lookBehind⟩)
        world).2.Shows address id
      (fun key => if key = Checkpoints.key shard then
          some (String.ofList (Decimal.ofNat latest.toNat))
        else if key = Routes.key transaction.hash then none
        else text? key) false sendings := by
  refine shows.tick_finds lookBehind works idle confirms unvisited routed clean
    fun world _ opened => ?_
  have missing : surroundings.value? world (Records.key address id) = none :=
    (Surroundings.value?_of_everlasting opened.everlasting).trans absent
  rw [Surroundings.run_reconcile_missing (works _ _) missing]
  exact (opened.quiet rfl).delete (works _ _)

end Ticks

end Requests

end World.Shows

/-! ## Sending and following up -/

namespace Surroundings

variable {surroundings : Surroundings} {world : World} {address id hash : String}
  {text? shown : String → Option String} {ticking : Bool}
  {sendings sent : List Sending} {batch started : Batch} {index : Nat}

section Sending

variable {route : Route} {position : Position} {item : Item}
  {items items' : List Item}
  (shows : world.Shows address id text? ticking sendings)

include shows

theorem yields_sendItems_nil :
    surroundings.Yields (sendItems .forever route position []) world [] address id
      text? ticking sendings :=
  ⟨rfl, shows⟩

theorem yields_sendItems_taken
    (works : ∀ moment access, surroundings.fault moment access = none)
    (leads : route.address = address ∧ route.batchId = id)
    (answer : surroundings.send world.moment item.payload = .ok hash)
    (rest : ∀ next : World, next.moment = world.moment + 2 →
      next.Shows address id
        (fun key => if key = Routes.key hash then some route.encode
          else text? key) ticking ((position, .ok hash) :: sendings) →
      surroundings.Yields (sendItems .forever route position.next items) next
        items' address id shown ticking sent) :
    surroundings.Yields (sendItems .forever route position (item :: items)) world
      (item.adopt hash :: items') address id shown ticking sent := by
  obtain ⟨rfl, rfl⟩ := leads
  have handed : (surroundings.after
      (.send world route position item.payload)).Shows route.address route.batchId
        text? ticking ((position, .ok hash) :: sendings) := shows.send answer
  have written := handed.write route.encode (works _ (.write (Routes.key hash)))
  obtain ⟨result, last⟩ := rest _ (by simp [moment_after, Step.send]) written
  constructor
  · rw [run_sendItems_taken answer]
    exact congrArg _ result
  · rw [run_sendItems_taken answer]
    exact last

theorem yields_sendItems_refused {error : GatewayError}
    (leads : route.address = address ∧ route.batchId = id)
    (answer : surroundings.send world.moment item.payload = .error error) :
    surroundings.Yields (sendItems .forever route position (item :: items)) world
      (item.refuse error.rejection? :: items) address id text? ticking
      ((position, .error error) :: sendings) := by
  obtain ⟨rfl, rfl⟩ := leads
  constructor
  · rw [run_sendItems_refused answer]
  · rw [run_sendItems_refused answer]
    exact shows.send answer

theorem yields_startGroup {group : Group}
    (isSender : batch.address? = some address) (named : batch.id = id)
    (present : batch.groups[index]? = some group)
    (sending : ∀ next : World, next.moment = world.moment + 1 →
      next.Shows address id text? ticking sendings →
      surroundings.Yields (sendItems .forever
        ⟨id, address, surroundings.now world.moment⟩ ⟨index, 0⟩ group.items) next
        items' address id shown ticking sent) :
    surroundings.Yields (startGroup .forever batch index) world
      (batch.modifyGroup index fun _ => ⟨items'⟩) address id shown ticking
      sent := by
  subst named
  obtain ⟨result, last⟩ := sending (surroundings.after (.clock world))
    (moment_after _) (shows.quiet rfl)
  constructor
  · rw [run_startGroup isSender present]
    exact congrArg (fun items => batch.modifyGroup index fun _ => ⟨items⟩) result
  · rw [run_startGroup isSender present]
    exact last

variable (index item) in
/-- A group of one item that the network takes. -/
theorem yields_startGroup_taken
    (works : ∀ moment access, surroundings.fault moment access = none)
    (isSender : batch.address? = some address) (named : batch.id = id)
    (present : batch.groups[index]? = some ⟨[item]⟩)
    (answer : surroundings.send (world.moment + 1) item.payload = .ok hash) :
    surroundings.Yields (startGroup .forever batch index) world
      (batch.modifyGroup index fun _ => ⟨[item.adopt hash]⟩) address id
      (fun key => if key = Routes.key hash then
        some (Route.encode ⟨id, address, surroundings.now world.moment⟩)
        else text? key) ticking ((⟨index, 0⟩, .ok hash) :: sendings) := by
  refine yields_startGroup shows isSender named present fun _ moment nexts => ?_
  exact yields_sendItems_taken nexts works ⟨rfl, rfl⟩ (moment ▸ answer)
    fun _ _ lasts => yields_sendItems_nil lasts

variable (index item) in
/-- A group of one item that the network refuses. -/
theorem yields_startGroup_refused {error : GatewayError}
    (isSender : batch.address? = some address) (named : batch.id = id)
    (present : batch.groups[index]? = some ⟨[item]⟩)
    (answer : surroundings.send (world.moment + 1) item.payload =
      .error error) :
    surroundings.Yields (startGroup .forever batch index) world
      (batch.modifyGroup index fun _ => ⟨[item.refuse error.rejection?]⟩) address
      id text? ticking ((⟨index, 0⟩, .error error) :: sendings) :=
  yields_startGroup shows isSender named present fun _ moment nexts =>
    yields_sendItems_refused nexts ⟨rfl, rfl⟩ (moment ▸ answer)

end Sending

section Following

variable (waits : batch.status = .pending)

include waits

theorem yields_follow_waiting
    (shows : world.Shows address id text? ticking sendings)
    (incomplete : batch.groupSuccessful index = false) :
    surroundings.Yields (follow .forever address id batch index .success) world
      batch address id text? ticking sendings := by
  simp only [follow, waits, incomplete]
  exact ⟨rfl, shows⟩

variable (complete : batch.groupSuccessful index = true)

include complete

theorem run_follow_finished (isLast : index + 1 = batch.groups.length) :
    surroundings.run (follow .forever address id batch index .success) world =
      ({ batch with status := .success }, world) := by
  simp only [follow, waits, complete, isLast]
  rfl

theorem yields_follow_finished
    (shows : world.Shows address id text? ticking sendings)
    (isLast : index + 1 = batch.groups.length) :
    surroundings.Yields (follow .forever address id batch index .success) world
      { batch with status := .success } address id text? ticking sendings := by
  have finished : surroundings.run (follow .forever address id batch index
      .success) world = _ := run_follow_finished waits complete isLast
  exact ⟨congrArg Prod.fst finished, finished ▸ shows⟩

variable (more : index + 1 ≠ batch.groups.length)
  (next : surroundings.Yields (startGroup .forever batch (index + 1)) world
    started address id shown ticking sent)

include more next

theorem yields_follow_continued (taken : started.invalidHashesAt (index + 1) = []) :
    surroundings.Yields (follow .forever address id batch index .success) world
      started address id shown ticking sent := by
  obtain ⟨rfl, last⟩ := next
  constructor <;>
    simp only [follow, waits, complete, more, startNext, Bind.bind, Pure.pure,
      ne_eq, not_true_eq_false, if_false, if_true, run_bind, taken]
  · rfl
  · exact last

theorem yields_follow_stopped
    (refused : started.invalidHashesAt (index + 1) ≠ []) :
    surroundings.Yields (follow .forever address id batch index .success) world
      { started with status := .invalid } address id shown ticking sent := by
  obtain ⟨rfl, last⟩ := next
  constructor <;>
    simp only [follow, waits, complete, more, startNext, Bind.bind, Pure.pure,
      ne_eq, not_true_eq_false, if_false, if_true, run_bind, refused]
  · rfl
  · have told (event : BatchUpdated) : (surroundings.after
        ⟨(surroundings.run (startGroup .forever batch (index + 1)) world).2,
          .publish event⟩).Shows address id shown ticking sent :=
      last.quiet rfl
    exact told _

end Following

end Surroundings

end BatchRelay
