import BatchRelay.Proofs.Cache.Operations
import BatchRelay.Proofs.Engine.Effects
import BatchRelay.Proofs.Engine.Evaluation
import BatchRelay.Proofs.Engine.Leases
import BatchRelay.Proofs.Engine.Overflows
import BatchRelay.Proofs.Engine.Reconciling
import BatchRelay.Proofs.Guarantees.LeaseSafety
import BatchRelay.Proofs.Registry.Checkpoints
import BatchRelay.Settings.Basic

/-!
# Times to live

What is written with a time to live is found by all reads before its end and by
none from then on.  Times to live are set in seconds, and moments are counted in
milliseconds.  As long as nobody else touches the key, nothing but the end that
was set decides.

A write overflows when there is no room for the sum that makes its end.  A table
cuts the time to live down to 64 bits before.  A time that does not fit wraps
around, and then the entry runs out before its time.
-/

namespace BatchRelay

/-- What is written with a time to live that can be set. -/
inductive Span where
  | route
  | batch
  | checkpoint
  | lease
  deriving DecidableEq

namespace Settings

/-- The time to live that is set, in seconds. -/
def seconds (settings : Settings) : Span → UInt64
  | .route => settings.lifetime.routeSeconds
  | .batch => settings.lifetime.batchSeconds
  | .checkpoint => settings.lifetime.checkpointSeconds
  | .lease => settings.reaper.leaseSeconds

/-- The time to live that is set, in milliseconds.  Zero seconds are for ever,
except for a lease. -/
def ttl? (settings : Settings) (span : Span) : Option Nat :=
  if settings.seconds span = 0 ∧ span ≠ .lease then none
  else some ((settings.seconds span).toNat * 1000)

/-- The end of a time to live that begins now, in milliseconds. -/
def end? (settings : Settings) (span : Span) (now : Int) : Option Int :=
  (settings.ttl? span).map fun ttl : Nat => now + ttl

end Settings

/-- Whether a moment is before the end, if there is one. -/
def IsBefore (end? : Option Int) (moment : Int) : Prop :=
  ∀ last, end? = some last → moment < last

namespace Surroundings

/-- Under these settings a value is written, or its write overflows. -/
inductive Writes (surroundings : Surroundings) (settings : Settings)
    (world : World) : Span → String → String → Except Overflow World → Prop
  | route {hash : String} {route : Route} {written : Except Overflow World}
      (ran : surroundings.run? (Routes.insert settings.lifetime.toLifetimes hash
        route) world = written.map fun last => (.ok (), last)) :
      Writes surroundings settings world .route (Routes.key hash) route.encode
        written
  | batch {address : String} {batch : Batch} {written : Except Overflow World}
      (ran : surroundings.run? (Records.put settings.lifetime.toLifetimes address
        batch) world = written.map fun last => (.ok (), last)) :
      Writes surroundings settings world .batch (Records.key address batch.id)
        batch.render written
  | checkpoint {shard : UInt32} {nonce : UInt64}
      {written : Except Overflow World}
      (ran : surroundings.run? (Checkpoints.set settings.lifetime.toLifetimes
        shard nonce) world = written.map fun last => (.ok (), last)) :
      Writes surroundings settings world .checkpoint (Checkpoints.key shard)
        (Checkpoints.encode nonce) written
  | lease {sweep : SweepSettings} {token : String}
      {written : Except Overflow World} (isSet : settings.sweep? = some sweep)
      (ran : surroundings.run? (sweep.lease.acquire token) world =
        written.map fun last => (.ok true, last)) :
      Writes surroundings settings world .lease sweep.lease.key token written

/-- All reads that get an answer find the same under a key. -/
structure Reveals (surroundings : Surroundings) (world : World) (key : String)
    (found : Option String) : Prop where
  read : ∀ value, (surroundings.answer world (.read key)).1 = .ok value →
    value = found
  readMany : ∀ keys values,
    (surroundings.answer world (.readMany keys)).1 = .ok values →
    ∀ pair ∈ keys.zip values, pair.1 = key → pair.2 = found
  scan : ∀ leading keys,
    (surroundings.answer world (.scan leading)).1 = .ok keys →
    Pieces.leads leading key = true → '\x00' ∉ leading.toList →
      (key ∈ keys ↔ found.isSome = true)
  writeIfAbsent : ∀ value ttl stored,
    (surroundings.answer world (.writeIfAbsent key value ttl)).1 = .ok stored →
      stored = found.isNone

/-- Steps of any kind that leave a key alone. -/
structure Spared (surroundings : Surroundings) (key : String) (world : World)
    (steps : List Step) (last : World) : Prop where
  linked : surroundings.Linked world steps last
  untouched : ∀ step ∈ steps, step.request.touched? ≠ some key

/-- What was written is found up to an end and not from then on.  A clock that may
go back must not have been at the end before. -/
structure Lives (surroundings : Surroundings) (key value : String)
    (end? : Option Int) (written : World) : Prop where
  before : ∀ steps last, surroundings.Spared key written steps last →
    (surroundings.Forward ∨
      ∀ step ∈ steps, IsBefore end? (surroundings.millis step.world)) →
    IsBefore end? (surroundings.millis last) →
      surroundings.Reveals last key (some value)
  onwards : ∀ steps last, surroundings.Spared key written steps last →
    ¬IsBefore end? (surroundings.millis last) →
      surroundings.Reveals last key none

/-- There is a moment before an end from which on what was written is not
found. -/
def RunsOutBefore (surroundings : Surroundings) (key : String) (now limit : Int)
    (written : World) : Prop :=
  ∃ moment, TableCache.IsMoment moment ∧ now ≤ moment ∧ moment < limit ∧
    ∀ steps last, surroundings.Spared key written steps last →
      moment ≤ surroundings.millis last → surroundings.Reveals last key none

end Surroundings

/-! ## Moments -/

theorem LifetimeSettings.ttl_ofSeconds (seconds : UInt64) :
    (ofSeconds seconds).map (· * 1000) =
      if seconds = 0 then none else some (seconds.toNat * 1000) := by
  unfold ofSeconds
  split <;> rfl

namespace Settings

variable (settings : Settings)

theorem toLifetimes_eq : settings.lifetime.toLifetimes =
    ⟨settings.ttl? .batch, settings.ttl? .route, settings.ttl? .checkpoint⟩ := by
  simp [LifetimeSettings.toLifetimes, LifetimeSettings.batch,
    LifetimeSettings.route, LifetimeSettings.checkpoint,
    LifetimeSettings.ttl_ofSeconds, ttl?, seconds]

theorem ttl_lease {sweep : SweepSettings} (isSet : settings.sweep? = some sweep) :
    settings.ttl? .lease = some sweep.lease.ttl := by
  obtain ⟨threshold, -, isSweep⟩ := Option.bind_eq_some_iff.1 isSet
  cases isSweep
  simp [ttl?, seconds]

end Settings

theorem isLive_iff {value : String} {end? : Option Int} {moment : Int} :
    Entry.isLive moment ⟨value, end?⟩ = true ↔ IsBefore end? moment := by
  cases end? <;> simp [Entry.isLive, IsBefore]

namespace Surroundings

variable {surroundings : Surroundings} {settings : Settings} {span : Span}
  {world written last : World} {key value : String} {found : Option String}
  {steps : List Step}

/-! ## What reads find -/

theorem reveals (unique : world.cache.entries.Unique)
    (isFound : surroundings.value? world key = found) :
    surroundings.Reveals world key found where
  read := by
    intro value answer
    cases fault : surroundings.fault world.moment (.read key) with
    | some error =>
        rw [answer_failed_read fault] at answer
        cases answer
    | none =>
        rw [answer_read fault] at answer
        cases answer
        exact isFound
  readMany := by
    intro keys values answer pair member same
    obtain ⟨error, fails⟩ | works := surroundings.answer_readMany world keys
    · rw [fails] at answer
      cases answer
    · rw [works] at answer
      cases answer
      obtain ⟨index, _, rfl⟩ := List.getElem_of_mem member
      simp only [List.getElem_zip, List.getElem_map] at same ⊢
      rw [same, isFound]
  scan := by
    intro leading keys answer leads plain
    simp only [Surroundings.answer, access] at answer
    split at answer
    · cases answer
    · cases answer
      rw [Cache.mem_keys unique plain, ← isFound]
      exact and_iff_left leads
  writeIfAbsent := by
    intro value ttl stored answer
    simp only [Surroundings.answer, access] at answer
    split at answer
    · cases answer
    · cases answer
      rw [← isFound]
      exact Cache.setIfAbsent_answer unique

/-! ## What is left of an entry -/

theorem Linked.millis_le {step : Step}
    (links : surroundings.Linked written steps last)
    (forward : surroundings.Forward) (member : step ∈ steps) :
    surroundings.millis step.world ≤ surroundings.millis last := by
  obtain ⟨back, onwards, -⟩ := links.since member
  apply onwards.keeps
    (fun world => surroundings.millis step.world ≤ surroundings.millis world)
    (Int.le_refl _)
  intro other _ before
  exact Int.le_trans before (forward.millis_after other)

section Entry

variable {entry : Entry} (spared : surroundings.Spared key written steps last)
  (unique : written.cache.entries.Unique)
  (member : (key, entry) ∈ written.cache.entries)

include spared member

theorem Spared.mem (live : ∀ step ∈ steps,
    entry.isLive (surroundings.millis step.world) = true) :
    (key, entry) ∈ last.cache.entries := by
  apply spared.linked.keeps (fun world => (key, entry) ∈ world.cache.entries)
    member
  intro step inSteps before
  exact mem_after_of_mem (spared.untouched step inSteps) before
    (live step inSteps)

include unique

theorem Spared.eq_entry {other : Entry}
    (isOther : (key, other) ∈ last.cache.entries) : other = entry := by
  have only := spared.linked.keeps
    (fun world => ∀ other, (key, other) ∈ world.cache.entries → other = entry)
    (fun other isOther => unique.eq_of_mem isOther member)
  apply only ?_ other isOther
  intro step inSteps same other inAfter
  obtain before | isWritten := mem_after_cases inAfter
  · exact same other before
  · exact absurd (Request.touched?_of_written? isWritten)
      (spared.untouched step inSteps)

theorem Spared.reveals_none
    (ended : entry.isLive (surroundings.millis last) = false) :
    surroundings.Reveals last key none := by
  have uniqueLast := spared.linked.unique unique
  apply reveals uniqueLast
  rw [Option.eq_none_iff_forall_ne_some]
  intro value isFound
  obtain ⟨other, isOther, live, -⟩ :=
    (value?_eq_some_iff uniqueLast).1 isFound
  rw [spared.eq_entry unique member isOther, ended] at live
  cases live

theorem Spared.reveals_some (live : ∀ step ∈ steps,
      entry.isLive (surroundings.millis step.world) = true)
    (lives : entry.isLive (surroundings.millis last) = true) :
    surroundings.Reveals last key (some entry.value) := by
  have uniqueLast := spared.linked.unique unique
  apply reveals uniqueLast
  exact (value?_eq_some_iff uniqueLast).2
    ⟨entry, spared.mem member live, lives, rfl⟩

end Entry

theorem lives_of_mem {end? : Option Int} (unique : written.cache.entries.Unique)
    (member : (key, ⟨value, end?⟩) ∈ written.cache.entries) :
    surroundings.Lives key value end? written where
  before := by
    intro steps last spared past now
    apply spared.reveals_some unique member
    · intro step inSteps
      apply isLive_iff.2
      obtain forward | earlier := past
      · intro limit isEnd
        have order := spared.linked.millis_le forward inSteps
        exact Int.lt_of_le_of_lt order (now limit isEnd)
      · exact earlier step inSteps
    · exact isLive_iff.2 now
  onwards := by
    intro steps last spared ended
    apply spared.reveals_none unique member
    rw [← Bool.not_eq_true, isLive_iff]
    exact ended

/-! ## What is written -/

theorem Writes.eq_error_iff {written : Except Overflow World} {overflow : Overflow}
    (writes : surroundings.Writes settings world span key value written) :
    written = .error overflow ↔
      (∃ ttl ∈ settings.ttl? span,
        ¬world.cache.Fits (surroundings.millis world) ttl) ∧
        overflow = .deadline := by
  cases writes with
  | route ran | batch ran | checkpoint ran =>
      rw [settings.toLifetimes_eq] at ran
      exact write_eq_error_iff ((run?_request _).symm.trans ran)
  | lease isSet ran =>
      rw [settings.ttl_lease isSet]
      simpa using writeIfAbsent_eq_error_iff ((run?_request _).symm.trans ran)

theorem Writes.mem
    (writes : surroundings.Writes settings world span key value (.ok written))
    (unique : world.cache.entries.Unique) :
    written.cache.entries.Unique ∧
      (key, ⟨value, (settings.ttl? span).map
        (world.cache.deadline (surroundings.millis world))⟩) ∈
          written.cache.entries := by
  have plain {key value : String} {ttl : Option Nat}
      (answer : surroundings.answer world (.write key value ttl) =
        (.ok (), written)) :
      written.cache.entries.Unique ∧
        (key, ⟨value,
          ttl.map (world.cache.deadline (surroundings.millis world))⟩) ∈
          written.cache.entries := by
    have isAfter : surroundings.after ⟨world, .write key value ttl⟩ = written :=
      congrArg Prod.snd answer
    rw [← isAfter]
    refine ⟨unique_after unique, ?_⟩
    rw [cache_after_write (answer_write_eq_ok_iff.1 (congrArg Prod.fst answer)),
      Cache.mem_set]
    exact .inl ⟨rfl, rfl⟩
  cases writes with
  | route ran | batch ran | checkpoint ran =>
      rw [settings.toLifetimes_eq] at ran
      exact plain (run?_eq_ok ran)
  | @lease sweep _ _ isSet ran =>
      have answer : surroundings.answer world
          (.writeIfAbsent sweep.lease.key value sweep.lease.ttl) =
            (.ok true, written) := run?_eq_ok ran
      have isAfter : surroundings.after
          ⟨world, .writeIfAbsent sweep.lease.key value sweep.lease.ttl⟩ = written :=
        congrArg Prod.snd answer
      rw [settings.ttl_lease isSet, ← isAfter]
      exact ⟨unique_after unique,
        (writeIfAbsent_taken unique (congrArg Prod.fst answer)).2⟩

theorem Writes.lives
    (writes : surroundings.Writes settings world span key value (.ok written))
    (unique : world.cache.entries.Unique)
    (reaches : ∀ ttl ∈ settings.ttl? span,
      world.cache.Reaches (surroundings.millis world) ttl) :
    surroundings.Lives key value
      (settings.end? span (surroundings.millis world)) written := by
  obtain ⟨uniqueAfter, member⟩ := writes.mem unique
  have isEnd : (settings.ttl? span).map
      (world.cache.deadline (surroundings.millis world)) =
      settings.end? span (surroundings.millis world) := by
    rw [Settings.end?]
    cases isTtl : settings.ttl? span with
    | none => rfl
    | some ttl => exact congrArg some (reaches ttl isTtl).deadline_eq
  rw [isEnd] at member
  exact lives_of_mem uniqueAfter member

/-- An end that is no moment of the cache leaves a moment before it from which on
the entry is not found. -/
theorem Writes.lost {ttl : Nat}
    (writes : surroundings.Writes settings world span key value (.ok written))
    (unique : world.cache.entries.Unique) (isTtl : settings.ttl? span = some ttl)
    (isMoment : TableCache.IsMoment (surroundings.millis world))
    (unreached : ¬world.cache.Reaches (surroundings.millis world) ttl) :
    surroundings.RunsOutBefore key (surroundings.millis world)
      (surroundings.millis world + ttl) written := by
  obtain ⟨uniqueAfter, member⟩ := writes.mem unique
  cases isTable : world.cache with
  | memory cache =>
      rw [isTable] at unreached
      exact absurd trivial unreached
  | table cache =>
      rw [isTable] at unreached
      rw [isTtl, isTable] at member
      let deadline := TableCache.deadline (surroundings.millis world) ttl
      have isDeadline : TableCache.IsMoment deadline :=
        ⟨Int64.minValue_le_toInt _, Int64.toInt_le _⟩
      -- The true end is beyond all moments, and the computed one is a moment.
      have beyond : Int64.maxValue.toInt < surroundings.millis world + ttl := by
        apply Int.not_le.1
        intro within
        apply unreached
        exact ⟨by have := isMoment.1; omega, within⟩
      refine ⟨max (surroundings.millis world) deadline, ?_, Int.le_max_left _ _, ?_,
        ?_⟩
      · exact ⟨Int.le_trans isMoment.1 (Int.le_max_left _ _),
          Int.max_le.2 ⟨isMoment.2, isDeadline.2⟩⟩
      · exact Int.lt_of_le_of_lt (Int.max_le.2 ⟨isMoment.2, isDeadline.2⟩) beyond
      · intro steps last spared late
        apply spared.reveals_none uniqueAfter member
        have isOver := Int.le_trans (Int.le_max_right _ _) late
        rw [Entry.isLive, Option.map_some, decide_eq_false_iff_not, Int.not_lt]
        exact isOver

/-- A write overflows just when there is no room for the sum that makes its end.
What is written lives as long as is set, if the cache gets to the end, and a table
that does not get to it loses the entry before. -/
theorem times_to_live {written : Except Overflow World}
    (writes : surroundings.Writes settings world span key value written)
    (unique : world.cache.entries.Unique) :
    let now := surroundings.millis world
    (∀ overflow, written = .error overflow ↔
      (∃ ttl ∈ settings.ttl? span, ¬world.cache.Fits now ttl) ∧
        overflow = .deadline) ∧
    ∀ last, written = .ok last →
      ((∀ ttl ∈ settings.ttl? span, world.cache.Reaches now ttl) →
        surroundings.Lives key value (settings.end? span now) last) ∧
      ∀ ttl ∈ settings.ttl? span, TableCache.IsMoment now →
        ¬world.cache.Reaches now ttl →
          surroundings.RunsOutBefore key now (now + ttl) last := by
  refine ⟨fun overflow => writes.eq_error_iff, ?_⟩
  rintro last rfl
  constructor
  · exact writes.lives unique
  · intro ttl isTtl isMoment unreached
    exact writes.lost unique isTtl isMoment unreached

end Surroundings

namespace Sample

/-- Settings with a time to live of checkpoints. -/
def withCheckpointSeconds (seconds : UInt64) : Settings :=
  { lifetime := { checkpointSeconds := seconds } }

/-- The world after the first checkpoint has been written to an empty table. -/
def checkpointed (clock : Nat → Instant) (seconds : UInt64) : World :=
  ((timed clock).run (Checkpoints.set
    (withCheckpointSeconds seconds).lifetime.toLifetimes 0 5)
      (.start (.table .empty))).2

theorem checkpointed_writes (clock : Nat → Instant) {seconds : UInt64} {ttl : Nat}
    (isTtl : (withCheckpointSeconds seconds).ttl? .checkpoint = some ttl)
    (room : TableCache.IsMoment
      ((Int64.ofInt (clock 0).toMillis).toInt + (Int64.ofNat ttl).toInt)) :
    (timed clock).Writes (withCheckpointSeconds seconds) (.start (.table .empty))
      .checkpoint (Checkpoints.key 0) (Checkpoints.encode 5)
      (.ok (checkpointed clock seconds)) := by
  refine .checkpoint (Surroundings.run?_of_room (List.forall_mem_singleton.2 ?_))
  rw [Settings.toLifetimes_eq, isTtl]
  rintro ttl ⟨⟩
  exact room

/-- The clock goes on by twenty seconds with every request, and the checkpoint
lives for a minute. -/
theorem minute_lives :
    let clock (moment : Nat) : Instant := ⟨20 * moment, 0⟩
    (timed clock).Writes (withCheckpointSeconds 60) (.start (.table .empty))
        .checkpoint (Checkpoints.key 0) (Checkpoints.encode 5)
        (.ok (checkpointed clock 60)) ∧
      (timed clock).Lives (Checkpoints.key 0) (Checkpoints.encode 5) (some 60000)
        (checkpointed clock 60) := by
  intro clock
  have isTtl : (withCheckpointSeconds 60).ttl? .checkpoint = some 60000 := by
    decide
  have isEnd : (withCheckpointSeconds 60).end? .checkpoint
      ((timed clock).millis (.start (.table .empty))) = some 60000 := by
    decide
  have writes := checkpointed_writes clock isTtl (by decide)
  obtain ⟨lives, -⟩ :=
    (Surroundings.times_to_live writes List.nodup_nil).2 _ rfl
  rw [isEnd, isTtl] at lives
  refine ⟨writes, lives ?_⟩
  rintro ttl ⟨⟩
  show TableCache.IsMoment _
  decide

/-- After another request a minute has passed. -/
example :
    let clock (moment : Nat) : Instant := ⟨20 * moment, 0⟩
    let get := Checkpoints.get 0
    let second := (timed clock).run get (checkpointed clock 60)
    let third := (timed clock).run get second.2
    (second.1, third.1, ((timed clock).run get third.2).1) =
      (.ok (some 5), .ok (some 5), .ok none) := by
  rfl

/-- The first number of seconds whose milliseconds have more than 63 bits. -/
def ages : UInt64 :=
  9223372036854776

/-- In a table such a time to live is over at once, although no time has
passed. -/
theorem ages_over_at_once :
    let clock (_ : Nat) : Instant := ⟨0, 0⟩
    (timed clock).Writes (withCheckpointSeconds ages) (.start (.table .empty))
        .checkpoint (Checkpoints.key 0) (Checkpoints.encode 5)
        (.ok (checkpointed clock ages)) ∧
      (withCheckpointSeconds ages).end? .checkpoint
        ((timed clock).millis (.start (.table .empty))) =
          some 9223372036854776000 ∧
      (timed clock).millis (checkpointed clock ages) = 0 ∧
      ((timed clock).run (Checkpoints.get 0) (checkpointed clock ages)).1 =
        .ok none := by
  intro clock
  have absent : (timed clock).value? (checkpointed clock ages)
      (Checkpoints.key 0) = none := by
    decide +kernel
  have read := Surroundings.run_getCheckpoint (fun _ _ => rfl) absent
  have isTtl : (withCheckpointSeconds ages).ttl? .checkpoint =
      some 9223372036854776000 := by
    decide
  exact ⟨checkpointed_writes clock isTtl (by decide), by decide, by decide,
    congrArg Prod.fst read⟩

/-- A second less overflows in a table whose clock has gone on by a second, and in a
process the longest time to live does. -/
example :
    let clock (_ : Nat) : Instant := ⟨1, 0⟩
    let set (seconds : UInt64) :=
      Checkpoints.set (withCheckpointSeconds seconds).lifetime.toLifetimes 0 5
    ((timed clock).run? (set (ages - 1)) (.start (.table .empty))).toOption = none ∧
      ((timed clock).run? (set (-1)) (.start (.memory .empty))).toOption = none := by
  decide +kernel

end Sample

end BatchRelay
