import BatchRelay.Proofs.Engine.Effects
import BatchRelay.Proofs.Engine.Leftovers

/-!
# What a failed call leaves behind

A submission and the application of an outcome can both come back with an error.
Then no record has changed.  Mostly the call has only looked at the cache.  But
the record of a batch is written last: when that write fails, what was sent is on
its way, with its routes in the index, and what was announced is announced.
-/

namespace BatchRelay

namespace Surroundings

/-- Whether a call ended with an error of the cache at the write of a record, and
did not reach beyond the cache after that. -/
def EndsUnstored (surroundings : Surroundings) (lifetimes : Lifetimes)
    (error : BatchError) (steps : List Step) : Prop :=
  ∃ front middle address batch fault back,
    steps = front ++ .writeRecord lifetimes middle address batch :: back ∧
      surroundings.fault middle.moment
        (.write (Records.key address batch.id)) = some fault ∧
      error = .cache fault ∧
      ∀ step ∈ back, step.request.isOutward = false

/-- What there is after the steps of a call that came back with an error.  The
call may delete its own keys. -/
structure Aborted (surroundings : Surroundings) (lifetimes : Lifetimes)
    (own : List String) (error : BatchError) (steps : List Step)
    (world last : World) : Prop where
  records : ∀ address id,
    surroundings.Unchanged steps world last (Records.key address id)
  others : ∀ key, (∀ hash, surroundings.Takes steps hash → key ≠ Routes.key hash) →
    surroundings.Unchanged steps world last key ∨
      key ∈ own ∧ ∀ now, last.cache.get now key = none
  outward : (∀ step ∈ steps, step.request.isOutward = false) ∨
    surroundings.EndsUnstored lifetimes error steps

/-- The steps of an activity that comes back with an error: it has only read, or
it could not store a batch in the end. -/
inductive Failing (surroundings : Surroundings) (lifetimes : Lifetimes)
    (world : World) : BatchError → List Step → World → Prop
  | early {error : BatchError} {steps : List Step} {last : World}
      (links : surroundings.Linked world steps last)
      (reads : ∀ step ∈ steps, ∃ key, step.request = .read key) :
      Failing surroundings lifetimes world error steps last
  | unstored {address : String} {batch : Batch} {fault : CacheError}
      {steps : List Step} {middle : World}
      (links : surroundings.Linked world steps middle)
      (only : surroundings.OnlyIndexes steps)
      (fails : surroundings.fault middle.moment
        (.write (Records.key address batch.id)) = some fault) :
      Failing surroundings lifetimes world (.cache fault)
        (steps ++ [.writeRecord lifetimes middle address batch])
        (surroundings.written lifetimes middle address batch)

variable {surroundings : Surroundings} {lifetimes : Lifetimes}
  {world last : World} {steps : List Step} {error : BatchError}
  {address id hash key : String}

namespace Failing

variable (failing : surroundings.Failing lifetimes world error steps last)

include failing

theorem linked : surroundings.Linked world steps last := by
  cases failing with
  | early links => exact links
  | unstored links => exact links.append (.cons .nil)

theorem spares
    (free : ∀ hash, surroundings.Takes steps hash → key ≠ Routes.key hash) :
    ∀ step ∈ steps, step.request.touched? ≠ some key ∨
      (surroundings.after step).cache = step.world.cache := by
  cases failing with
  | early links reads =>
      intro step member
      rcases reads step member with ⟨_, isRead⟩
      rw [isRead]
      exact .inl nofun
  | @unstored address batch fault front middle links only fails =>
      rw [List.forall_mem_append]
      constructor
      · intro step member
        refine .inl (only.untouched (fun hash taken => ?_) step member)
        exact free hash (taken.mono (List.subset_append_left _ _))
      · intro step member
        cases List.mem_singleton.1 member
        exact .inr (cache_after_failed_write fails)

theorem outward {back : List Step}
    (inward : ∀ step ∈ back, step.request.isOutward = false) :
    (∀ step ∈ steps ++ back, step.request.isOutward = false) ∨
      surroundings.EndsUnstored lifetimes error (steps ++ back) := by
  cases failing with
  | early links reads =>
      left
      rw [List.forall_mem_append]
      refine ⟨fun step member => ?_, inward⟩
      rcases reads step member with ⟨_, isRead⟩
      rw [isRead]
      rfl
  | @unstored address batch fault front middle links only fails =>
      right
      refine ⟨front, middle, address, batch, fault, back, ?_, fails, rfl, inward⟩
      rw [List.append_assoc]
      rfl

theorem aborted (unique : world.cache.entries.Unique) :
    surroundings.Aborted lifetimes [] error steps world last := by
  have others (key : String) (free : ∀ hash, surroundings.Takes steps hash →
      key ≠ Routes.key hash) : surroundings.Unchanged steps world last key :=
    failing.linked.unchanged unique (failing.spares free)
  constructor
  case records =>
    intro address id
    exact others _ (recordKey_free address id)
  case others =>
    intro key free
    exact .inl (others key free)
  case outward =>
    simpa using failing.outward (List.forall_mem_nil _)

theorem aborted_removing (unique : world.cache.entries.Unique) (hash : String) :
    surroundings.Aborted lifetimes [Routes.key hash] error
      (steps ++ [.removeRoute last hash]) world
      (surroundings.after (.removeRoute last hash)) := by
  have links : surroundings.Linked world (steps ++ [.removeRoute last hash])
      (surroundings.after (.removeRoute last hash)) :=
    failing.linked.append (.cons .nil)
  have unchanged (key : String)
      (free : ∀ taken, surroundings.Takes (steps ++ [.removeRoute last hash])
        taken → key ≠ Routes.key taken)
      (spares : (Step.removeRoute last hash).request.touched? ≠ some key ∨
        (surroundings.after (.removeRoute last hash)).cache = last.cache) :
      surroundings.Unchanged (steps ++ [.removeRoute last hash]) world
        (surroundings.after (.removeRoute last hash)) key := by
    apply links.unchanged unique
    rw [List.forall_mem_append]
    constructor
    · apply failing.spares
      intro taken takes
      exact free taken (takes.mono (List.subset_append_left _ _))
    · intro step member
      cases List.mem_singleton.1 member
      exact spares
  constructor
  case records =>
    intro address id
    exact unchanged _ (recordKey_free address id) (.inl removeRoute_leaves.untouched)
  case others =>
    intro key free
    by_cases same : key = Routes.key hash
    · subst same
      -- The removal may fail as well; then the route is still there.
      cases fault : surroundings.fault last.moment (.delete (Routes.key hash)) with
      | none =>
          refine .inr ⟨List.mem_singleton_self _, fun now => ?_⟩
          rw [Step.removeRoute, cache_after_delete fault, Cache.get_delete]
      | some found =>
          exact .inl (unchanged _ free (.inr (cache_after_failed_delete fault)))
    · refine .inl (unchanged key free (.inl fun touched => same ?_))
      exact (Option.some.inj touched).symm
  case outward =>
    apply failing.outward
    intro step member
    cases List.mem_singleton.1 member
    rfl

end Failing

/-! ## Submissions -/

theorem Sent.unpublished {route : Route} {position : Position}
    {items items' : List Item}
    (sent : surroundings.Sent lifetimes route position items world items' steps
      last) :
    ∀ step ∈ steps, ∀ event, step.request ≠ .publish event := by
  induction sent with
  | none =>
      intro step member
      cases member
  | taken answer rest induction =>
      intro step member
      simp only [List.mem_cons] at member
      rcases member with rfl | rfl | inRest
      · exact fun _ => nofun
      · exact fun _ => nofun
      · exact induction step inRest
  | refused =>
      intro step member
      cases List.mem_singleton.1 member
      exact fun _ => nofun

theorem Started.unpublished {batch batch' : Batch} {index : Nat}
    (started : surroundings.Started lifetimes batch address index world batch'
      steps last) :
    ∀ step ∈ steps, ∀ event, step.request ≠ .publish event := by
  cases started with
  | sent _ sent =>
      rw [List.forall_mem_cons]
      exact ⟨fun _ => nofun, sent.unpublished⟩

theorem Submits.failing {request : BatchRequest}
    (submits : surroundings.Submits lifetimes request world (.error error) steps
      last) :
    surroundings.Failing lifetimes world error steps last := by
  cases submits with
  | malformed => exact .early .nil (List.forall_mem_nil _)
  | rejected =>
      apply Failing.early (.cons .nil)
      intro step member
      cases List.mem_singleton.1 member
      exact ⟨_, rfl⟩
  | unstored offered taken fails =>
      exact .unstored (.cons offered.sent.linked)
        (offered.sent.onlyIndexes.cons rfl) fails

theorem Submits.unpublished {request : BatchRequest}
    {result : Except BatchError Batch}
    (submits : surroundings.Submits lifetimes request world result steps last) :
    ∀ step ∈ steps, ∀ event, step.request ≠ .publish event := by
  cases submits with
  | malformed => exact List.forall_mem_nil _
  | rejected =>
      rw [List.forall_mem_singleton]
      exact fun _ => nofun
  | refused offered =>
      rw [List.forall_mem_cons]
      exact ⟨fun _ => nofun, offered.sent.unpublished⟩
  | stored offered | unstored offered =>
      rw [List.forall_mem_cons, List.forall_mem_append, List.forall_mem_singleton]
      exact ⟨fun _ => nofun, offered.sent.unpublished, fun _ => nofun⟩

/-! ## Outcomes -/

theorem Applies.failing {batchId : String} {outcome : ItemStatus}
    (applies : surroundings.Applies lifetimes hash batchId address outcome world
      (.error error) steps last) :
    surroundings.Failing lifetimes world error steps last := by
  cases applies with
  | idle =>
      apply Failing.early (.cons .nil)
      intro step member
      cases List.mem_singleton.1 member
      exact ⟨_, rfl⟩
  | @unstored batch _ position _ _ _ _ finds follows fails =>
      have only := surroundings.follow_onlyIndexes lifetimes address batchId
        (batch.setItemStatus position outcome) position.group outcome
        (surroundings.after (.readRecord world address batchId))
      rw [follows.steps] at only
      exact .unstored (.cons follows.linked) (only.cons rfl) fails

/-- A call that comes back with an error has changed no record.  It has sent and
announced nothing, and indexed nothing, unless the record of the batch could not
be written in the end; and an outcome may have removed the route of its hash. -/
theorem failed_calls_effects (surroundings : Surroundings)
    (lifetimes : Lifetimes) (world : World)
    (unique : world.cache.entries.Unique) :
    (∀ request sourceIp error,
      (surroundings.run (submit lifetimes request sourceIp) world).1 =
          .error error →
        surroundings.Aborted lifetimes [] error
            (surroundings.steps (submit lifetimes request sourceIp) world) world
            (surroundings.run (submit lifetimes request sourceIp) world).2 ∧
          ∀ step ∈ surroundings.steps (submit lifetimes request sourceIp) world,
            ∀ event, step.request ≠ .publish event) ∧
      ∀ hash batchId address outcome error,
        (surroundings.run
            (reconcile lifetimes hash batchId address outcome) world).1 =
          .error error →
        surroundings.Aborted lifetimes [Routes.key hash] error
          (surroundings.steps
            (reconcile lifetimes hash batchId address outcome) world) world
          (surroundings.run
            (reconcile lifetimes hash batchId address outcome) world).2 := by
  constructor
  · intro request sourceIp error failed
    have submits := surroundings.submit_submits lifetimes request sourceIp world
    have unpublished := submits.unpublished
    rw [failed] at submits
    exact ⟨submits.failing.aborted unique, unpublished⟩
  · intro hash batchId address outcome error failed
    rw [run_reconcile_eq] at failed
    rw [run_reconcile_eq, steps_reconcile]
    have applies := surroundings.applyOutcome_applies lifetimes hash batchId
      address outcome world
    rw [failed] at applies
    exact applies.failing.aborted_removing unique hash

/-! ## A group that is taken and not stored -/

section Unstored

variable {transaction : HashedTransaction} {fault : CacheError}
  (valid : transaction.Valid address)
  (taken : ∀ moment,
    surroundings.send moment transaction.payload = .ok transaction.hash)

include valid taken

variable (lifetimes) in
theorem run_startGroup_taken (id : String) (world : World) :
    ∃ middle, surroundings.run
        (startGroup lifetimes (.ofGroups id [[transaction]]) 0) world =
          (.ofGroups id [[transaction]], middle) ∧
      .sent ⟨address, id, ⟨0, 0⟩⟩ transaction.payload (.ok transaction.hash) ∈
        middle.journal := by
  have isSender : (Batch.ofGroups id [[transaction]]).address? = some address :=
    congrArg some valid.sender
  have present : (Batch.ofGroups id [[transaction]]).groups[0]? =
      some ⟨[.waiting transaction]⟩ := rfl
  have sent (world : World) (route : Route) : surroundings.run
      (sendItems lifetimes route ⟨0, 0⟩ [.waiting transaction]) world =
        ([.waiting transaction], surroundings.after (.writeRoute lifetimes
          (surroundings.after (.send world route ⟨0, 0⟩ transaction.payload))
          transaction.hash route)) := by
    rw [run_sendItems_taken (taken _)]
    rfl
  rw [run_startGroup isSender present, sent]
  refine ⟨_, rfl, ?_⟩
  apply sent_mem_journal_after.2 (.inl _)
  exact sent_mem_journal_after.2 (.inr ⟨rfl, taken _⟩)

theorem run_submit_unstored (named : id ≠ "" ∧ ';' ∉ id.toList)
    (readable : surroundings.fault world.moment
      (.read (Records.key address id)) = none)
    (absent : surroundings.value? world (Records.key address id) = none)
    (fails : ∀ moment, surroundings.fault moment
      (.write (Records.key address id)) = some fault) :
    (surroundings.run (submit lifetimes (.ofGroups id [[transaction]]) none)
        world).1 = .error (.cache fault) ∧
      .sent ⟨address, id, ⟨0, 0⟩⟩ transaction.payload (.ok transaction.hash) ∈
        (surroundings.run (submit lifetimes (.ofGroups id [[transaction]]) none)
          world).2.journal := by
  have passes : (BatchRequest.ofGroups id [[transaction]]).Passes none address
      (.ofGroups id [[transaction]]) :=
    BatchRequest.passes_ofGroups named (by simp) (by simp) (by simp [valid])
  have clean : (Batch.ofGroups id [[transaction]]).invalidHashesAt 0 = [] := rfl
  rcases run_startGroup_taken lifetimes valid taken id
    (surroundings.after (.readRecord world address id)) with
    ⟨middle, started, sent⟩
  have ends : surroundings.run
      (submit lifetimes (.ofGroups id [[transaction]]) none) world = _ :=
    run_submit passes readable absent
  have stored : (surroundings.run
      (Records.put lifetimes address (.ofGroups id [[transaction]])) middle).1 =
        .error fault := put_eq_error_iff.2 (fails _)
  have isId : (BatchRequest.ofGroups id [[transaction]]).id = id := rfl
  simp only [isId, started, clean, if_true, stored] at ends
  rw [ends]
  exact ⟨rfl, sent_mem_journal_after.2 (.inl sent)⟩

end Unstored

theorem run_reconcile_unread {batchId : String} {outcome : ItemStatus}
    {fault : CacheError}
    (unreadable : surroundings.fault world.moment
      (.read (Records.key address batchId)) = some fault) :
    (surroundings.run (reconcile lifetimes hash batchId address outcome)
        world).1 = .error (.cache fault) := by
  rw [run_reconcile_eq]
  simp only [applyOutcome, Bind.bind, Pure.pure, run_bind,
    get_of_fault unreadable, run]

end Surroundings

namespace Sample

def full : CacheError :=
  .backend "no space left"

/-- One record can be read, and every other access to the cache fails. -/
def unwritable : Surroundings :=
  { network third with
    fault := fun _ access =>
      if access = .read (Records.key alice "b") then none else some full }

theorem unwritable_reads (moment : Nat) :
    unwritable.fault moment (.read (Records.key alice "b")) = none := by
  simp [unwritable]

theorem unwritable_fails (moment : Nat) {access : Access}
    (isOther : access ≠ .read (Records.key alice "b")) :
    unwritable.fault moment access = some full := by
  simp [unwritable, isOther]

/-- Nothing has been asked of that cache yet. -/
def unasked : Run :=
  ⟨unwritable, .forever, .memory .empty, Cache.entries_empty, []⟩

theorem submit_unwritable :
    (unwritable.run (submit .forever (.ofGroups "b" [[first]]) none)
        unasked.start).1 = .error (.cache full) ∧
      .sent ⟨alice, "b", ⟨0, 0⟩⟩ first.payload (.ok first.hash) ∈
        (unwritable.run (submit .forever (.ofGroups "b" [[first]]) none)
          unasked.start).2.journal := by
  have taken (moment : Nat) :
      unwritable.send moment first.payload = .ok first.hash := by
    simp only [unwritable]
    exact (retry third).takesFirst moment
  apply Surroundings.run_submit_unstored first_valid taken
  · decide
  · exact unwritable_reads _
  · exact unasked.value?_start _
  · intro moment
    exact unwritable_fails moment nofun

theorem reconcile_unwritable :
    (unwritable.run (reconcile .forever first.hash "c" alice .success)
      unasked.start).1 = .error (.cache full) := by
  apply Surroundings.run_reconcile_unread
  apply unwritable_fails
  decide

end Sample

namespace Surroundings

theorem unwritable_calls_effects :
    Sample.unwritable.Aborted .forever [] (.cache Sample.full)
        (Sample.unwritable.steps
          (submit .forever (.ofGroups "b" [[Sample.first]]) none)
          Sample.unasked.start) Sample.unasked.start
        (Sample.unwritable.run
          (submit .forever (.ofGroups "b" [[Sample.first]]) none)
          Sample.unasked.start).2 ∧
      Sample.unwritable.Aborted .forever [Routes.key Sample.first.hash]
        (.cache Sample.full)
        (Sample.unwritable.steps
          (reconcile .forever Sample.first.hash "c" Sample.alice .success)
          Sample.unasked.start) Sample.unasked.start
        (Sample.unwritable.run
          (reconcile .forever Sample.first.hash "c" Sample.alice .success)
          Sample.unasked.start).2 := by
  have effects := failed_calls_effects Sample.unwritable .forever
    Sample.unasked.start Sample.unasked.sound_start.unique
  constructor
  · exact (effects.1 _ none _ Sample.submit_unwritable.1).1
  · exact effects.2 _ _ _ _ _ Sample.reconcile_unwritable

/-- The submission comes back with an error, but its transaction was sent. -/
theorem unwritable_submission_sent :
    Sample.unasked.start.journal = [] ∧
      (Sample.unwritable.run
          (submit .forever (.ofGroups "b" [[Sample.first]]) none)
          Sample.unasked.start).1 = .error (.cache Sample.full) ∧
      .sent ⟨Sample.alice, "b", ⟨0, 0⟩⟩ Sample.first.payload
          (.ok Sample.first.hash) ∈
        (Sample.unwritable.run
          (submit .forever (.ofGroups "b" [[Sample.first]]) none)
          Sample.unasked.start).2.journal :=
  ⟨rfl, Sample.submit_unwritable⟩

end Surroundings

end BatchRelay
