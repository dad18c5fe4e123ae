import BatchRelay.Proofs.Engine.Acceptances

/-!
# What an activity leaves behind

Where no step touches a key, the key shows the same after an activity as before
it, at every moment that is not earlier than the steps.  Sending a group touches
only the route keys of the hashes under which the network has taken something.

Nothing here is said of a run: the cache may hold anything that has no key twice,
and any access to it may fail.
-/

namespace BatchRelay

/-- Whether a request reaches beyond the cache: to the network with a
transaction, or to subscribers. -/
def Request.isOutward : Request → Bool
  | .send _ _ | .publish _ => true
  | _ => false

namespace Surroundings

/-- Whether a key shows the same in the end as in the beginning, at every moment
from that of the last step on. -/
def Unchanged (surroundings : Surroundings) (steps : List Step)
    (world last : World) (key : String) : Prop :=
  ∀ now, (∀ step ∈ steps, surroundings.millis step.world ≤ now) →
    last.cache.get now key = world.cache.get now key

/-- Whether a moment comes after steps, and before anything that they have written with
this time to live has run out.  Without a time to live every moment does. -/
def Timely (surroundings : Surroundings) (lifetime : Option Nat) (steps : List Step)
    (now : Int) : Prop :=
  ∀ ttl ∈ lifetime, ∀ step ∈ steps, surroundings.millis step.world ≤ now ∧
    now < step.world.cache.deadline (surroundings.millis step.world) ttl

/-- Whether a key holds a value as one of the steps has written it. -/
def Leaves (surroundings : Surroundings) (lifetime : Option Nat) (steps : List Step)
    (key value : String) (world : World) : Prop :=
  ∃ step ∈ steps, (key, ⟨value,
    lifetime.map (step.world.cache.deadline (surroundings.millis step.world))⟩) ∈
      world.cache.entries

/-- Whether the network takes something under a hash. -/
def Takes (surroundings : Surroundings) (steps : List Step) (hash : String) :
    Prop :=
  ∃ step ∈ steps, ∃ origin, surroundings.Accepts step origin hash

/-- Whether steps touch nothing but the routes of what the network takes. -/
def OnlyIndexes (surroundings : Surroundings) (steps : List Step) : Prop :=
  ∀ step ∈ steps, ∀ key, step.request.touched? = some key →
    ∃ hash, key = Routes.key hash ∧ surroundings.Takes steps hash

variable {surroundings : Surroundings} {lifetimes : Lifetimes}
  {world last : World} {steps more : List Step} {step : Step}
  {key hash : String}

/-! ## Keys that nothing touches -/

theorem get_after {now : Int} (unique : step.world.cache.entries.Unique)
    (untouched : step.request.touched? ≠ some key)
    (later : surroundings.millis step.world ≤ now) :
    (surroundings.after step).cache.get now key =
      step.world.cache.get now key := by
  apply Option.ext
  intro value
  rw [Cache.get_eq_some_iff (unique_after unique),
    Cache.get_eq_some_iff unique]
  constructor
  · rintro ⟨entry, member, live, held⟩
    rcases mem_after_cases member with before | written
    · exact ⟨entry, before, live, held⟩
    · exact absurd (Request.touched?_of_written? written) untouched
  · rintro ⟨entry, member, live, held⟩
    have lives : entry.isLive (surroundings.millis step.world) = true :=
      Entry.isLive_mono later live
    exact ⟨entry, mem_after_of_mem untouched member lives, live, held⟩

namespace Linked

theorem unique (links : surroundings.Linked world steps last)
    (unique : world.cache.entries.Unique) : last.cache.entries.Unique :=
  links.keeps (fun world => world.cache.entries.Unique) unique
    fun _ _ => unique_after

theorem mem_of_untouched {entry : Entry} (links : surroundings.Linked world steps last)
    (member : (key, entry) ∈ world.cache.entries) (endless : entry.deadline = none)
    (untouched : ∀ step ∈ steps, step.request.touched? ≠ some key) :
    (key, entry) ∈ last.cache.entries := by
  have live (now : Int) : entry.isLive now = true := by
    simp [Entry.isLive, endless]
  exact links.keeps (fun world => (key, entry) ∈ world.cache.entries) member
    fun step inSteps before =>
      mem_after_of_mem (untouched step inSteps) before (live _)

theorem get_of_untouched {entry : Entry} (links : surroundings.Linked world steps last)
    (unique : world.cache.entries.Unique) (member : (key, entry) ∈ world.cache.entries)
    (endless : entry.deadline = none)
    (untouched : ∀ step ∈ steps, step.request.touched? ≠ some key) (now : Int) :
    last.cache.get now key = some entry.value := by
  have live : entry.isLive now = true := by
    simp [Entry.isLive, endless]
  apply (Cache.get_eq_some_iff (links.unique unique)).2
  exact ⟨entry, links.mem_of_untouched member endless untouched, live, rfl⟩

/-- A step may also touch a key in vain. -/
theorem unchanged (links : surroundings.Linked world steps last)
    (unique : world.cache.entries.Unique)
    (spares : ∀ step ∈ steps, step.request.touched? ≠ some key ∨
      (surroundings.after step).cache = step.world.cache) :
    surroundings.Unchanged steps world last key := by
  intro now later
  -- Were a key there twice, a purge could bring out its other entry.
  have kept := links.keeps
    (fun reached => reached.cache.entries.Unique ∧
      reached.cache.get now key = world.cache.get now key) ⟨unique, rfl⟩
  refine (kept fun step member before => ?_).2
  refine ⟨unique_after before.1, Eq.trans ?_ before.2⟩
  rcases spares step member with untouched | vain
  · exact get_after before.1 untouched (later step member)
  · rw [vain]

end Linked

/-! ## Values that were written -/

theorem Timely.mono {lifetime : Option Nat} {now : Int}
    (timely : surroundings.Timely lifetime more now) (subset : steps ⊆ more) :
    surroundings.Timely lifetime steps now :=
  fun ttl isTtl step member => timely ttl isTtl step (subset member)

theorem Leaves.mono {lifetime : Option Nat} {value : String}
    (leaves : surroundings.Leaves lifetime steps key value world) (subset : steps ⊆ more) :
    surroundings.Leaves lifetime more key value world := by
  obtain ⟨step, member, held⟩ := leaves
  exact ⟨step, subset member, held⟩

theorem leaves_after_write {lifetime : Option Nat} {value : String}
    (works : surroundings.fault world.moment (.write key) = none)
    (member : ⟨world, .write key value lifetime⟩ ∈ steps) :
    surroundings.Leaves lifetime steps key value
      (surroundings.after ⟨world, .write key value lifetime⟩) := by
  refine ⟨_, member, ?_⟩
  rw [cache_after_write works]
  exact Cache.mem_set.2 (.inl ⟨rfl, rfl⟩)

section Timely

variable {lifetime : Option Nat} {value : String} {now : Int}
  (timely : surroundings.Timely lifetime steps now)

include timely

/-- A value that was written counts at a timely moment and at every step before it. -/
theorem Timely.isLive (member : step ∈ steps) {moment : Int}
    (passed : moment = now ∨ ∃ later ∈ steps, moment = surroundings.millis later.world) :
    (Entry.mk value (lifetime.map
      (step.world.cache.deadline (surroundings.millis step.world)))).isLive moment =
        true := by
  cases lifetime with
  | none => rfl
  | some ttl =>
      obtain ⟨-, ends⟩ := timely ttl rfl step member
      have before : moment ≤ now := by
        obtain rfl | ⟨later, inSteps, rfl⟩ := passed
        · exact Int.le_refl _
        · exact (timely ttl rfl later inSteps).1
      simpa [Entry.isLive] using Int.lt_of_le_of_lt before ends

theorem Leaves.get (leaves : surroundings.Leaves lifetime steps key value world)
    (unique : world.cache.entries.Unique) : world.cache.get now key = some value := by
  obtain ⟨step, member, held⟩ := leaves
  exact (Cache.get_eq_some_iff unique).2
    ⟨_, held, timely.isLive member (.inl rfl), rfl⟩

theorem Leaves.after (leaves : surroundings.Leaves lifetime steps key value step.world)
    (member : step ∈ steps) (untouched : step.request.touched? ≠ some key) :
    surroundings.Leaves lifetime steps key value (surroundings.after step) := by
  obtain ⟨writer, isWriter, held⟩ := leaves
  exact ⟨writer, isWriter, mem_after_of_mem untouched held
    (timely.isLive isWriter (.inr ⟨step, member, rfl⟩))⟩

theorem Linked.leaves (links : surroundings.Linked world more last) (subset : more ⊆ steps)
    (untouched : ∀ step ∈ more, step.request.touched? ≠ some key)
    (leaves : surroundings.Leaves lifetime steps key value world) :
    surroundings.Leaves lifetime steps key value last :=
  links.keeps (surroundings.Leaves lifetime steps key value) leaves
    fun step member held => held.after timely (subset member) (untouched step member)

end Timely

theorem get_record_of_written {address : String} {batch : Batch} {now : Int}
    (works : ∀ moment access, surroundings.fault moment access = none)
    (unique : world.cache.entries.Unique)
    (timely : surroundings.Timely lifetimes.batch steps now)
    (own : [.writeRecord lifetimes world address batch,
      .removeRoute (surroundings.written lifetimes world address batch) hash] ⊆ steps) :
    (surroundings.after (.removeRoute
        (surroundings.written lifetimes world address batch) hash)).cache.get now
      (Records.key address batch.id) = some batch.render := by
  obtain ⟨isWrite, isRemove⟩ := List.cons_subset.1 own
  have stored : surroundings.Leaves lifetimes.batch steps (Records.key address batch.id)
      batch.render (surroundings.written lifetimes world address batch) :=
    leaves_after_write (works _ _) isWrite
  refine (Linked.leaves timely (.single surroundings _) isRemove ?_ stored).get timely
    (unique_after (unique_after unique))
  intro step member same
  obtain rfl := List.mem_singleton.1 member
  exact Records.key_ne_routeKey _ _ _ (Option.some.inj same).symm

/-! ## Worlds in which nothing runs out -/

section Steadily

variable {worlds : List World} (steady : surroundings.Steady worlds)
  (tracked : isTracked key = true)

include steady tracked

theorem value?_after_steady (unique : step.world.cache.entries.Unique)
    (isBefore : step.world ∈ worlds) (isAfter : surroundings.after step ∈ worlds)
    (untouched : step.request.touched? ≠ some key) :
    surroundings.value? (surroundings.after step) key =
      surroundings.value? step.world key := by
  apply Option.ext
  intro value
  rw [value?_eq_some_iff (unique_after unique), value?_eq_some_iff unique]
  constructor
  · rintro ⟨entry, member, live, held⟩
    rcases mem_after_cases member with before | written
    · exact ⟨entry, before,
        (steady _ isAfter _ isBefore key entry member tracked).trans live, held⟩
    · exact absurd (Request.touched?_of_written? written) untouched
  · rintro ⟨entry, member, live, held⟩
    exact ⟨entry, mem_after_of_mem untouched member live,
      (steady _ isBefore _ isAfter key entry member tracked).trans live, held⟩

theorem Linked.value?_eq (links : surroundings.Linked world steps last)
    (unique : world.cache.entries.Unique)
    (passed : ∀ step ∈ steps, step.world ∈ worlds ∧ surroundings.after step ∈ worlds)
    (untouched : ∀ step ∈ steps, step.request.touched? ≠ some key) :
    surroundings.value? last key = surroundings.value? world key := by
  have uniqueAt := links.keeps_at (fun world => world.cache.entries.Unique) unique
    fun _ _ => unique_after
  exact (links.constant (surroundings.value? · key) fun step member =>
    value?_after_steady steady tracked (uniqueAt step member) (passed step member).1
      (passed step member).2 (untouched step member)).2

end Steadily

/-! ## Steps that only index -/

theorem Takes.mono (taken : surroundings.Takes steps hash)
    (subset : steps ⊆ more) : surroundings.Takes more hash := by
  rcases taken with ⟨step, member, accepts⟩
  exact ⟨step, subset member, accepts⟩

theorem not_accepts_of_inward {origin : Origin}
    (inward : step.request.isOutward = false) :
    ¬surroundings.Accepts step origin hash := by
  rintro ⟨payload, sends, -⟩
  rw [sends] at inward
  cases inward

theorem not_accepts_of_refuses {origin other : Origin}
    (refuses : surroundings.Refuses step origin) :
    ¬surroundings.Accepts step other hash := by
  rcases refuses with ⟨payload, error, sends, refused⟩
  rintro ⟨_, again, taken⟩
  rw [sends] at again
  cases again
  rw [refused] at taken
  cases taken

theorem Accepts.origin_eq {origin other : Origin} {answer : String}
    (accepts : surroundings.Accepts step origin hash)
    (again : surroundings.Accepts step other answer) : other = origin := by
  rcases accepts with ⟨_, sends, -⟩
  rcases again with ⟨_, sendsAgain, -⟩
  rw [sends] at sendsAgain
  cases sendsAgain
  rfl

theorem recordKey_free (address id : String) :
    ∀ hash, surroundings.Takes steps hash →
      Records.key address id ≠ Routes.key hash :=
  fun hash _ => Records.key_ne_routeKey address id hash

theorem Takes.of_cons (taken : surroundings.Takes (step :: steps) hash)
    (inward : step.request.isOutward = false) :
    surroundings.Takes steps hash := by
  rcases taken with ⟨found, member, origin, accepts⟩
  rcases List.mem_cons.1 member with rfl | inRest
  · exact absurd accepts (not_accepts_of_inward inward)
  · exact ⟨found, inRest, origin, accepts⟩

namespace OnlyIndexes

theorem nil : surroundings.OnlyIndexes [] := by
  intro step member
  cases member

theorem of_untouched (untouched : ∀ step ∈ steps, step.request.touched? = none) :
    surroundings.OnlyIndexes steps := by
  intro step member key touched
  rw [untouched step member] at touched
  cases touched

theorem append (first : surroundings.OnlyIndexes steps)
    (second : surroundings.OnlyIndexes more) :
    surroundings.OnlyIndexes (steps ++ more) := by
  intro step member key touched
  rcases List.mem_append.1 member with inFirst | inSecond
  · rcases first step inFirst key touched with ⟨hash, same, taken⟩
    exact ⟨hash, same, taken.mono (List.subset_append_left _ _)⟩
  · rcases second step inSecond key touched with ⟨hash, same, taken⟩
    exact ⟨hash, same, taken.mono (List.subset_append_right _ _)⟩

theorem cons (only : surroundings.OnlyIndexes steps)
    (untouched : step.request.touched? = none) :
    surroundings.OnlyIndexes (step :: steps) := by
  have alone : surroundings.OnlyIndexes [step] :=
    of_untouched (by simpa using untouched)
  exact alone.append only

theorem taken {route : Route} {position : Position} {payload : Transaction}
    {later : World} (answer : surroundings.send world.moment payload = .ok hash) :
    surroundings.OnlyIndexes [.send world route position payload,
      .writeRoute lifetimes later hash route] := by
  intro step member key touched
  simp only [List.mem_cons, List.not_mem_nil, or_false] at member
  rcases member with rfl | rfl
  · cases touched
  · refine ⟨hash, (Option.some.inj touched).symm, ?_⟩
    exact ⟨_, List.mem_cons_self, _, _, rfl, answer⟩

theorem untouched (only : surroundings.OnlyIndexes steps)
    (free : ∀ hash, surroundings.Takes steps hash → key ≠ Routes.key hash) :
    ∀ step ∈ steps, step.request.touched? ≠ some key := by
  intro step member touched
  rcases only step member key touched with ⟨hash, same, taken⟩
  exact free hash taken same

end OnlyIndexes

theorem Sent.onlyIndexes {route : Route} {position : Position}
    {items items' : List Item}
    (sent : surroundings.Sent lifetimes route position items world items' steps
      last) :
    surroundings.OnlyIndexes steps := by
  induction sent with
  | none => exact .nil
  | taken answer _ induction =>
      exact (OnlyIndexes.taken answer).append induction
  | refused => exact .of_untouched (by simp [Step.send, Request.touched?])

theorem Started.onlyIndexes {batch batch' : Batch} {address : String}
    {index : Nat}
    (started : surroundings.Started lifetimes batch address index world batch'
      steps last) :
    surroundings.OnlyIndexes steps := by
  cases started with
  | sent _ sent => exact sent.onlyIndexes.cons rfl

/-! ## Groups of any batch -/

section AnyBatch

variable (surroundings lifetimes)

theorem startGroup_onlyIndexes (batch : Batch) (index : Nat) (world : World) :
    surroundings.OnlyIndexes
      (surroundings.steps (startGroup lifetimes batch index) world) := by
  cases sender : batch.address? with
  | none =>
      simp only [startGroup, sender]
      exact .nil
  | some address =>
      by_cases inside : index < batch.groups.length
      · exact (surroundings.startGroup_started lifetimes sender inside
          world).onlyIndexes
      · have absent : batch.groups[index]? = none :=
          List.getElem?_eq_none (Nat.le_of_not_lt inside)
        simp only [startGroup, sender, absent]
        exact .nil

theorem startNext_onlyIndexes (address batchId : String) (batch : Batch)
    (next : Nat) (world : World) :
    surroundings.OnlyIndexes (surroundings.steps
      (startNext lifetimes address batchId batch next) world) := by
  simp only [startNext, Bind.bind, Pure.pure, steps_bind]
  apply (surroundings.startGroup_onlyIndexes lifetimes batch next world).append
  split
  · exact .nil
  · apply OnlyIndexes.of_untouched
    intro step member
    cases List.mem_singleton.1 member
    rfl

theorem follow_onlyIndexes (address batchId : String) (batch : Batch)
    (index : Nat) (outcome : ItemStatus) (world : World) :
    surroundings.OnlyIndexes (surroundings.steps
      (follow lifetimes address batchId batch index outcome) world) := by
  simp only [follow, Pure.pure]
  split
  · exact .nil
  · cases outcome with
    | success =>
        simp only
        split
        · split
          · exact .nil
          · exact surroundings.startNext_onlyIndexes lifetimes address batchId
              batch (index + 1) world
        · exact .nil
    | pending | invalid | dropped => exact .nil

end AnyBatch

end Surroundings

end BatchRelay
