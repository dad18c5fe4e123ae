import BatchRelay.Proofs.Engine.Showing

/-!
# What a refused submission leaves behind

When the network refuses a transaction of the first group nothing is stored, but
the routes of the transactions that it took before stay.  They lead to a name
under which the client may try again with other groups.
-/

namespace BatchRelay

/-- A failed attempt at a batch and a second one.  The network never takes
`refused`, it takes `early` only in the beginning, and it takes the two others
at any time. -/
structure Retry (surroundings : Surroundings) (address id : String)
    (early refused first third : HashedTransaction) (error : GatewayError) :
    Prop where
  works : ∀ moment access, surroundings.fault moment access = none
  clean : Address.Clean address
  named : id ≠ "" ∧ ';' ∉ id.toList
  earlyValid : early.Valid address
  refusedValid : refused.Valid address
  firstValid : first.Valid address
  thirdValid : third.Valid address
  distinct : first.hash ≠ early.hash ∧ first.hash ≠ third.hash ∧
    early.hash ≠ third.hash
  takesEarly : ∀ moment < 5,
    surroundings.send moment early.payload = .ok early.hash
  tiresOfEarly : ∀ moment, 5 ≤ moment →
    surroundings.send moment early.payload = .error error
  refuses : ∀ moment,
    surroundings.send moment refused.payload = .error error
  takesFirst : ∀ moment,
    surroundings.send moment first.payload = .ok first.hash
  takesThird : ∀ moment,
    surroundings.send moment third.payload = .ok third.hash

namespace Retry

open Surroundings

/-- What comes back of the first attempt. -/
def spoiled (id : String) (early refused : HashedTransaction)
    (error : GatewayError) : Batch :=
  ⟨id, [⟨[.waiting early, ⟨refused, .invalid, error.rejection?⟩]⟩], .invalid,
    none⟩

/-- The batch of the second attempt. -/
def offered (id : String) (early first third : HashedTransaction) : Batch :=
  ⟨id, [⟨[.waiting first]⟩, ⟨[.waiting early]⟩, ⟨[.waiting third]⟩], .pending,
    none⟩

/-- The second attempt after the outcome of `early`. -/
def advanced (id : String) (early first third : HashedTransaction) : Batch :=
  ⟨id, [⟨[.waiting first]⟩, ⟨[⟨early, .success, none⟩]⟩, ⟨[.waiting third]⟩],
    .pending, none⟩

/-- The second attempt after the outcomes of `early` and `third`. -/
def closed (id : String) (early first third : HashedTransaction) : Batch :=
  ⟨id, [⟨[.waiting first]⟩, ⟨[⟨early, .success, none⟩]⟩,
    ⟨[⟨third, .success, none⟩]⟩], .success, none⟩

/-- The second attempt after the outcomes of `early` and `first`. -/
def undone (id : String) (early first third : HashedTransaction)
    (error : GatewayError) : Batch :=
  ⟨id, [⟨[⟨first, .success, none⟩]⟩, ⟨[⟨early, .invalid, error.rejection?⟩]⟩,
    ⟨[.waiting third]⟩], .invalid, none⟩

variable {surroundings : Surroundings} {address id : String}
  {early refused first third : HashedTransaction} {error : GatewayError}
  {world : World} {text? : String → Option String} {sendings : List Sending}

section Attempts

variable
  (retry : Retry surroundings address id early refused first third error)

include retry

/-- The first attempt stores nothing, but leaves the route of what was taken. -/
theorem fails (shows : world.Shows address id text? false sendings)
    (begins : world.moment = 0)
    (absent : text? (Records.key address id) = none) :
    surroundings.Yields (submit .forever (.ofGroups id [[early, refused]]) none)
      world (.ok (spoiled id early refused error)) address id
      (fun key => if key = Routes.key early.hash then
        some (Route.encode ⟨id, address, surroundings.now (world.moment + 1)⟩)
        else text? key) false
      ((⟨0, 1⟩, .error error) :: (⟨0, 0⟩, .ok early.hash) :: sendings) := by
  have passes : (BatchRequest.ofGroups id [[early, refused]]).Passes none address
      (.ofGroups id [[early, refused]]) :=
    BatchRequest.passes_ofGroups retry.named (by simp) (by simp)
      (by simp [retry.earlyValid, retry.refusedValid])
  refine shows.submit_refused ((Batch.ofGroups id [[early, refused]]).modifyGroup
    0 fun _ => ⟨[.waiting early, (Item.waiting refused).refuse error.rejection?]⟩)
    retry.works passes rfl absent ?_ ?_
  · intro opened moment opens
    rw [← moment]
    refine yields_startGroup opens ?_ rfl rfl fun next _ nexts => ?_
    · simp [Batch.address?, Batch.ofGroups, Item.waiting, Item.payload,
        retry.earlyValid.sender]
    · refine yields_sendItems_taken nexts retry.works ⟨rfl, rfl⟩
        (retry.takesEarly _ (by omega)) fun last _ lasts => ?_
      exact yields_sendItems_refused lasts ⟨rfl, rfl⟩ (retry.refuses _)
  · simp [Batch.invalidHashesAt, Batch.ofGroups, Batch.modifyGroup,
      Group.invalidHashes]

/-- The second attempt is stored, and the route leads to its second group. -/
theorem succeeds (shows : world.Shows address id text? false sendings)
    (absent : text? (Records.key address id) = none) :
    (surroundings.run (submit .forever
        (.ofGroups id [[first], [early], [third]]) none)
        world).2.Shows address id
      (fun key => if key = Records.key address id then
          some (offered id early first third).render
        else if key = Routes.key first.hash then
          some (Route.encode ⟨id, address, surroundings.now (world.moment + 1)⟩)
        else text? key) false ((⟨0, 0⟩, .ok first.hash) :: sendings) := by
  have passes : (BatchRequest.ofGroups id [[first], [early], [third]]).Passes none
      address (offered id early first third) :=
    BatchRequest.passes_ofGroups retry.named (by simp) (by simp)
      (by simp [retry.earlyValid, retry.firstValid, retry.thirdValid])
  refine shows.submit (offered id early first third) retry.works passes rfl absent
    ?_ rfl ?_
  · intro opened moment opens
    rw [← moment]
    exact yields_startGroup_taken 0 (.waiting first) opens retry.works
      (congrArg some retry.firstValid.sender) rfl rfl (retry.takesFirst _)
  · simp [Batch.invalidHashesAt, offered, Group.invalidHashes, Item.waiting]

section Observing

variable {shard : UInt32} {latest : UInt64} (since : Instant)
  {transaction : ObservedTransaction}
  (confirms : surroundings.Confirms shard latest transaction)
  (unvisited : text? (Checkpoints.key shard) = none)
  (routed : text? (Routes.key transaction.hash) =
    some (Route.encode ⟨id, address, since⟩))
  (shows : world.Shows address id text? false sendings)

include confirms unvisited routed shows

/-- The outcome of `early` completes the second group, and the third is sent. -/
theorem advances (isEarly : transaction.hash = early.hash)
    (stored : text? (Records.key address id) =
      some (offered id early first third).render) :
    (surroundings.run (Watch.tick .forever ⟨[shard], 0⟩)
        world).2.Shows address id
      (fun key => if key = Checkpoints.key shard then
          some (String.ofList (Decimal.ofNat latest.toNat))
        else if key = Routes.key transaction.hash then none
        else if key = Records.key address id then
          some (advanced id early first third).render
        else if key = Routes.key third.hash then
          some (Route.encode ⟨id, address, surroundings.now (world.moment + 6)⟩)
        else text? key) false ((⟨2, 0⟩, .ok third.hash) :: sendings) := by
  have located : (offered id early first third).locate transaction.hash =
      some ⟨1, 0⟩ := by
    simp [isEarly, Batch.locate, Batch.locateFrom, offered, Item.waiting,
      Item.hash, retry.distinct]
  refine shows.tick 0 retry.works rfl confirms unvisited routed
    ⟨retry.clean, retry.named.2⟩ (advanced id early first third) stored located
    rfl rfl (fun opened moment opens => ?_) rfl
  rw [← moment]
  refine yields_follow_continued rfl rfl (Nat.ne_of_beq_eq_false rfl) ?_ rfl
  exact yields_startGroup_taken 2 (.waiting third) opens retry.works
    (congrArg some retry.firstValid.sender) rfl rfl (retry.takesThird _)

variable (stored : text? (Records.key address id) =
  some (advanced id early first third).render)

include stored

/-- The outcome of `third` completes the last group, and the batch with it. -/
theorem closes (isThird : transaction.hash = third.hash) :
    surroundings.stored? (surroundings.run
        (Watch.tick .forever ⟨[shard], 0⟩) world).2 address id =
      some (closed id early first third) := by
  have located : (advanced id early first third).locate transaction.hash =
      some ⟨2, 0⟩ := by
    simp [isThird, Batch.locate, Batch.locateFrom, advanced, Item.waiting,
      Item.hash, retry.distinct]
  have ends := shows.tick 0 retry.works rfl confirms unvisited routed
    ⟨retry.clean, retry.named.2⟩ (closed id early first third) stored located
    rfl rfl (fun _ _ opens => yields_follow_finished rfl rfl opens rfl) rfl
  exact ends.stored? (by simp)

/-- The outcome of `first` sends the second group again, and `early` is refused
now. -/
theorem undoes (isFirst : transaction.hash = first.hash) :
    surroundings.stored? (surroundings.run
        (Watch.tick .forever ⟨[shard], 0⟩) world).2 address id =
      some (undone id early first third error) := by
  have located : (advanced id early first third).locate transaction.hash =
      some ⟨0, 0⟩ := by
    simp [isFirst, Batch.locate, Batch.locateFrom, advanced, Item.waiting,
      Item.hash]
  have follows (opened : World) (moment : opened.moment = world.moment + 6)
      (opens : opened.Shows address id text? true sendings) :
      surroundings.Yields (follow .forever address id
        ((advanced id early first third).setItemStatus ⟨0, 0⟩ .success) 0
        .success) opened (undone id early first third error) address id text?
        true ((⟨1, 0⟩, .error error) :: sendings) := by
    have sent : surroundings.Yields (startGroup .forever
        ((advanced id early first third).setItemStatus ⟨0, 0⟩ .success) 1) opened
        (((advanced id early first third).setItemStatus ⟨0, 0⟩
          .success).modifyGroup 1 fun _ =>
            ⟨[⟨early, .invalid, error.rejection?⟩]⟩)
        address id text? true ((⟨1, 0⟩, .error error) :: sendings) :=
      yields_startGroup_refused 1 ⟨early, .success, none⟩ opens
        (congrArg some retry.firstValid.sender) rfl rfl
        (retry.tiresOfEarly _ (by omega))
    have refused : (((advanced id early first third).setItemStatus ⟨0, 0⟩
        .success).modifyGroup 1 fun _ =>
          ⟨[⟨early, .invalid, error.rejection?⟩]⟩).invalidHashesAt 1 ≠ [] :=
      List.cons_ne_nil early.hash []
    exact yields_follow_stopped rfl rfl (Nat.ne_of_beq_eq_false rfl) sent refused
  have ends := shows.tick 0 retry.works rfl confirms unvisited routed
    ⟨retry.clean, retry.named.2⟩ (undone id early first third error) stored
    located rfl rfl follows rfl
  exact ends.stored? (by simp)

end Observing

end Attempts

/-- Both attempts, and a tick that finds the outcome of `early`. -/
def commands (id : String) (early refused first third : HashedTransaction)
    (shard : UInt32) : List Command :=
  [.submit (.ofGroups id [[early, refused]]) none,
    .submit (.ofGroups id [[first], [early], [third]]) none,
    .tick ⟨[shard], 0⟩]

section Runs

variable {run : Run} {shard other : UInt32} {latest height : UInt64}
  {transaction later : ObservedTransaction}
  (retry : Retry run.surroundings address id early refused first third error)
  (forever : run.lifetimes = .forever)
  (confirms : run.surroundings.Confirms shard latest transaction)
  (isEarly : transaction.hash = early.hash)

include retry forever confirms isEarly

omit confirms isEarly in
theorem stored?_attempts :
    run.surroundings.stored? (run.worldAfter
        [.submit (.ofGroups id [[early, refused]]) none]) address id = none ∧
      run.surroundings.stored? (run.worldAfter
        ([.submit (.ofGroups id [[early, refused]]) none] ++
          [.submit (.ofGroups id [[first], [early], [third]]) none])) address
        id = some (offered id early first third) := by
  have failed := (retry.fails (run.shows_start address id) rfl rfl).shows
  have offering := retry.succeeds failed (by simp)
  rw [Run.worldAfter, Run.worldAfter, forever]
  simp only [List.cons_append, List.nil_append, run_performAll_cons,
    run_perform_submit]
  exact ⟨failed.stored?_eq_none (by simp), offering.stored? (by simp)⟩

theorem shows_commands : ∃ text?,
    (run.worldAfter (commands id early refused first third shard)).Shows address
        id text? false [(⟨2, 0⟩, .ok third.hash), (⟨0, 0⟩, .ok first.hash),
          (⟨0, 1⟩, .error error), (⟨0, 0⟩, .ok early.hash)] ∧
      text? (Records.key address id) =
        some (advanced id early first third).render ∧
      (∃ since, text? (Routes.key first.hash) =
        some (Route.encode ⟨id, address, since⟩)) ∧
      (∃ since, text? (Routes.key third.hash) =
        some (Route.encode ⟨id, address, since⟩)) ∧
      ∀ other, Checkpoints.key other ≠ Checkpoints.key shard →
        text? (Checkpoints.key other) = none := by
  have failed := (retry.fails (run.shows_start address id) rfl rfl).shows
  have offering := retry.succeeds failed (by simp)
  have advancing := retry.advances (run.surroundings.now (run.start.moment + 1))
    confirms (by simp) (by simp [isEarly, Ne.symm retry.distinct.1]) offering
    isEarly (by simp)
  rw [Run.worldAfter, forever]
  simp only [commands, run_performAll_cons, run_perform_submit,
    run_perform_tick]
  refine ⟨_, advancing, by simp, ?_, ?_, by simp +contextual⟩
  · simp only [isEarly, Routes.key_ne_checkpointKey, Routes.key_ne_recordKey,
      Routes.key_eq_iff, retry.distinct, if_false, if_true]
    exact ⟨_, rfl⟩
  · simp only [isEarly, Routes.key_ne_checkpointKey, Routes.key_ne_recordKey,
      Routes.key_eq_iff, Ne.symm retry.distinct.2.2, if_false, if_true]
    exact ⟨_, rfl⟩

variable (commands : run.commands =
    commands id early refused first third shard ++ [.tick ⟨[other], 0⟩])
  (elsewhere : Checkpoints.key other ≠ Checkpoints.key shard)
  (confirmsLater : run.surroundings.Confirms other height later)

include commands elsewhere confirmsLater

/-- When the last tick finds the outcome of `third`, the batch counts as
successful while its first item still waits. -/
theorem stored?_closed (isThird : later.hash = third.hash) :
    run.surroundings.stored? run.final address id =
      some (closed id early first third) := by
  obtain ⟨text?, shows, stored, -, ⟨since, routed⟩, unvisited⟩ :=
    retry.shows_commands forever confirms isEarly
  rw [run.final_append commands, forever, run_performAll_cons, run_perform_tick]
  exact retry.closes since confirmsLater (unvisited other elsewhere)
    (isThird ▸ routed) shows stored isThird

/-- When the last tick finds the outcome of `first`, the item that has succeeded
becomes invalid. -/
theorem stored?_undone (isFirst : later.hash = first.hash) :
    run.surroundings.stored? run.final address id =
      some (undone id early first third error) := by
  obtain ⟨text?, shows, stored, ⟨since, routed⟩, -, unvisited⟩ :=
    retry.shows_commands forever confirms isEarly
  rw [run.final_append commands, forever, run_performAll_cons, run_perform_tick]
  exact retry.undoes since confirmsLater (unvisited other elsewhere)
    (isFirst ▸ routed) shows stored isFirst

end Runs

end Retry

/-! ## A sample -/

namespace Sample

theorem alice_clean : Address.Clean alice :=
  early_valid.sender ▸ BatchRequest.Transaction.clean_of_check early_valid.passes

def noFunds : GatewayError :=
  .rejected "no funds"

/-- How the network shows a transfer that has succeeded. -/
def seen (transaction : HashedTransaction) : ObservedTransaction :=
  ⟨transaction.hash, alice, bob, transaction.payload.nonce, none, .success⟩

/-- A network that never takes the second transfer and takes the first one only
in the beginning.  The first shard shows the first transfer, and every other
shard shows `last`. -/
def network (last : HashedTransaction) : Surroundings where
  fault _ _ := none
  send moment payload :=
    if payload.nonce = 2 ∨ payload.nonce = 1 ∧ 5 ≤ moment then .error noFunds
    else match payload.hash with
      | .ok hash => .ok hash
      | .error _ => .error (.decode "no transaction")
  latestNonce _ _ := .ok 5
  block _ shard _ := .ok [seen (if shard = 0 then early else last)]
  lookup _ _ := .ok none
  now _ := ⟨0, 0⟩
  token _ := ""

variable (last : HashedTransaction)

theorem network_takes {transaction : HashedTransaction} {moment : Nat}
    (valid : transaction.Valid alice)
    (willing : ¬(transaction.payload.nonce = 2 ∨
      transaction.payload.nonce = 1 ∧ 5 ≤ moment)) :
    (network last).send moment transaction.payload = .ok transaction.hash := by
  simp only [network, if_neg willing, valid.hashes]

theorem network_refuses {payload : Transaction} {moment : Nat}
    (unwilling : payload.nonce = 2 ∨ payload.nonce = 1 ∧ 5 ≤ moment) :
    (network last).send moment payload = .error noFunds := by
  simp only [network, if_pos unwilling]

theorem network_forward : (network last).Forward :=
  fun _ _ _ => Int.le_refl _

theorem confirms_early : (network last).Confirms 0 5 (seen early) :=
  ⟨fun _ => rfl, fun _ => rfl, rfl⟩

theorem elsewhere : Checkpoints.key 1 ≠ Checkpoints.key 0 := by
  decide

theorem confirms_last : (network last).Confirms 1 5 (seen last) :=
  ⟨fun _ => rfl, fun _ => rfl, rfl⟩

theorem retry :
    Retry (network last) alice "b" early refused first third noFunds where
  works _ _ := rfl
  clean := alice_clean
  named := by decide
  earlyValid := early_valid
  refusedValid := refused_valid
  firstValid := first_valid
  thirdValid := third_valid
  distinct := by decide
  takesEarly moment before := by
    refine network_takes last early_valid ?_
    simp [early, transfer, before]
  tiresOfEarly moment after := network_refuses last (.inr ⟨rfl, after⟩)
  refuses moment := network_refuses last (.inl rfl)
  takesFirst moment := network_takes last first_valid (by simp [first, transfer])
  takesThird moment := network_takes last third_valid (by simp [third, transfer])

/-- The sample as a run: both attempts, a tick at the first shard, and whatever
comes after. -/
def run (more : List Command) : Run :=
  ⟨network last, .forever, .memory .empty, Cache.entries_empty,
    Retry.commands "b" early refused first third 0 ++ more⟩

theorem run_calm (more : List Command) : (run last more).Calm :=
  Run.calm_of_forever (run last more) (fun _ _ => rfl) rfl

/-- Nothing comes after the tick. -/
def attempts : Run :=
  run third []

/-- Another tick finds the outcome of the third group. -/
def closing : Run :=
  run third [.tick ⟨[1], 0⟩]

/-- Another tick finds the outcome of the first group. -/
def undoing : Run :=
  run first [.tick ⟨[1], 0⟩]

/-- What else comes after that tick. -/
def undoingAnd (more : List Command) : Run :=
  run first ([.tick ⟨[1], 0⟩] ++ more)

theorem undoingAnd_calm (more : List Command) : (undoingAnd more).Calm :=
  run_calm first _

theorem undoingAnd_commands (more : List Command) :
    (undoingAnd more).commands = undoing.commands ++ more := by
  simp only [undoingAnd, undoing, run, List.append_assoc]

theorem undoing_commands : undoing.commands =
    Retry.commands "b" early refused first third 0 ++ [.tick ⟨[1], 0⟩] :=
  rfl

theorem stored?_before_undoing : undoing.surroundings.stored?
      (undoing.worldAfter (Retry.commands "b" early refused first third 0)) alice
      "b" = some (Retry.advanced "b" early first third) := by
  have retry : Retry undoing.surroundings alice "b" early refused first third
      noFunds := Sample.retry first
  have confirms : undoing.surroundings.Confirms 0 5 (seen early) :=
    confirms_early first
  obtain ⟨text?, shows, stored, -⟩ := retry.shows_commands rfl confirms rfl
  exact shows.stored? stored

theorem attempts_shows : ∃ text?, attempts.final.Shows alice "b" text? false
      [(⟨2, 0⟩, .ok third.hash), (⟨0, 0⟩, .ok first.hash),
        (⟨0, 1⟩, .error noFunds), (⟨0, 0⟩, .ok early.hash)] ∧
    text? (Records.key alice "b") =
      some (Retry.advanced "b" early first third).render ∧
    ∃ since, text? (Routes.key first.hash) =
      some (Route.encode ⟨"b", alice, since⟩) := by
  have commands : attempts.commands = Retry.commands "b" early refused first third
      0 := List.append_nil _
  have retry : Retry attempts.surroundings alice "b" early refused first third
      noFunds := Sample.retry third
  have confirms : attempts.surroundings.Confirms 0 5 (seen early) :=
    confirms_early third
  obtain ⟨text?, shows, stored, routed, -⟩ := retry.shows_commands rfl confirms rfl
  exact ⟨text?, attempts.final_eq_worldAfter commands ▸ shows, stored, routed⟩

theorem attempts_sends_third : ∃ step ∈ attempts.steps, ∃ payload,
    step.request = .send ⟨alice, "b", ⟨2, 0⟩⟩ payload := by
  obtain ⟨_, shows, -⟩ := attempts_shows
  obtain ⟨payload, sent⟩ :=
    (shows.sent ⟨2, 0⟩ (.ok third.hash)).2 List.mem_cons_self
  obtain atFirst | ⟨step, member, sends, -⟩ :=
    attempts.linked.sent_mem_journal.1 sent
  · cases atFirst
  · exact ⟨step, member, payload, sends⟩

theorem attempts_spares_second : ¬attempts.final.SentFor alice "b" 1 := by
  obtain ⟨_, shows, -⟩ := attempts_shows
  rintro ⟨place, payload, reply, sent⟩
  have shown := (shows.sent ⟨1, place⟩ reply).1 ⟨payload, sent⟩
  simp at shown

theorem stored?_closing : closing.surroundings.stored? closing.final alice "b" =
    some (Retry.closed "b" early first third) :=
  Retry.stored?_closed (retry third) rfl (confirms_early third) (by rfl) (by rfl)
    elsewhere (confirms_last third) (by rfl)

theorem stored?_undoing : undoing.surroundings.stored? undoing.final alice "b" =
    some (Retry.undone "b" early first third noFunds) :=
  Retry.stored?_undone (retry first) rfl (confirms_early first) (by rfl) (by rfl)
    elsewhere (confirms_last first) (by rfl)

theorem stored?_undoingAnd (more : List Command) :
    (undoingAnd more).surroundings.stored?
        ((undoingAnd more).worldAfter undoing.commands) alice "b" =
      some (Retry.undone "b" early first third noFunds) := by
  have shown := stored?_undoing
  rw [undoing.final_eq_worldAfter rfl] at shown
  simp only [Run.worldAfter, Run.start, undoing, undoingAnd, run] at shown ⊢
  exact shown

end Sample

end BatchRelay
