import BatchRelay.Proofs.Engine.Knowledge
import BatchRelay.Proofs.Guarantees.CheckpointProgress
import BatchRelay.Proofs.Guarantees.RecordsReadBack

/-!
# Where reading resumes

A visit goes on after the checkpoint, or at the earliest block that may still be
read.  While a shard keeps a checkpoint no block is fetched at or below it,
whatever takes turns with the ticks and leaves checkpoints alone.  Nonces have 64
bits, and the last of them has no next one: a visit that finds its checkpoint there
overflows, even if there is nothing to read.
-/

namespace BatchRelay

/-- With this checkpoint a visit goes on after it, unless it has come to the latest
block. -/
structure Watch.Resumes (checkpoint latest lookBehind : UInt64) : Prop where
  computes : ∃ found, startNonce (some checkpoint) latest lookBehind = .ok found
  reached : startNonce (some checkpoint) latest lookBehind = .ok none ↔
    latest ≤ checkpoint
  begins : ∀ start,
    startNonce (some checkpoint) latest lookBehind = .ok (some start) →
      checkpoint < start ∧ start ≤ latest ∧
        start.toNat =
          max (checkpoint.toNat + 1) (latest.toNat - lookBehind.toNat)

/-- A step that leaves all checkpoints alone. -/
def Step.SparesCheckpoints (step : Step) : Prop :=
  ∀ shard, step.request.touched? ≠ some (Checkpoints.key shard)

namespace Surroundings

/-- Whether the checkpoint of a shard, if it has one, is below a number. -/
def Passed (surroundings : Surroundings) (shard : UInt32) (number : Nat)
    (world : World) : Prop :=
  ∀ checkpoint, surroundings.checkpoint? world shard = some checkpoint →
    checkpoint.toNat < number

/-- A step moves no checkpoint back. -/
def Rises (surroundings : Surroundings) (step : Step) : Prop :=
  ∀ shard before later,
    surroundings.checkpoint? step.world shard = some before →
    surroundings.checkpoint? (surroundings.after step) shard = some later →
      before ≤ later

/-- No checkpoint that has run out counts again: the clock never goes back, or all
checkpoints stay for ever. -/
structure Orderly (surroundings : Surroundings) (lifetimes : Lifetimes)
    (world : World) : Prop where
  unique : world.cache.entries.Unique
  ages : surroundings.Forward ∨ lifetimes.checkpoint = none ∧
    ∀ shard entry, (Checkpoints.key shard, entry) ∈ world.cache.entries →
      entry.deadline = none

/-- A step fetches blocks beyond the checkpoint only, moves no checkpoint back, and
leaves an orderly world. -/
structure Ahead (surroundings : Surroundings) (lifetimes : Lifetimes)
    (step : Step) : Prop where
  fetches : ∀ shard nonce, step.request.fetched? = some (shard, nonce) →
    surroundings.Passed shard nonce.toNat step.world
  rises : surroundings.Rises step
  orderly : surroundings.Orderly lifetimes (surroundings.after step)

/-- What a visit knows before it fetches a block. -/
structure Standing (surroundings : Surroundings) (lifetimes : Lifetimes)
    (shard : UInt32) (number : Nat) (world : World) : Prop where
  orderly : surroundings.Orderly lifetimes world
  passed : surroundings.Passed shard number world

/-- The checkpoint of a shard is the one of an earlier world, if there still is
one. -/
structure Recalls (surroundings : Surroundings) (lifetimes : Lifetimes)
    (shard : UInt32) (earlier world : World) : Prop where
  orderly : surroundings.Orderly lifetimes world
  same : ∀ checkpoint, surroundings.checkpoint? world shard = some checkpoint →
    surroundings.checkpoint? earlier shard = some checkpoint

/-- In orderly worlds all steps of an activity are ahead. -/
def Careful (surroundings : Surroundings) (lifetimes : Lifetimes) {α : Type}
    (activity : Activity α) : Prop :=
  surroundings.Knows Step.SparesCheckpoints (surroundings.Ahead lifetimes)
    (fun _ => surroundings.Orderly lifetimes) (surroundings.Orderly lifetimes)
    activity

/-- Ticks take turns with others (`false`) that leave checkpoints alone.  There
may be more to do for the ticks. -/
structure Watched (surroundings : Surroundings) (lifetimes : Lifetimes)
    (ticks : List WatchSettings) (world : World) (turns : List (Bool × Step))
    (last : World) : Prop where
  orderly : surroundings.Orderly lifetimes world
  linked : surroundings.Linked world (turns.map Prod.snd) last
  ticks : ∃ more result, surroundings.Performs
    (performAll lifetimes (ticks.map .tick)) (ownSteps turns true ++ more) result
  others : ∀ step ∈ ownSteps turns false, step.SparesCheckpoints

/-- A block that a tick fetches is beyond every checkpoint that its shard has had
since it was last without one. -/
def ReadsOn (surroundings : Surroundings) (turns : List (Bool × Step)) : Prop :=
  ∀ front stretch step back,
    turns.map Prod.snd = front ++ (stretch ++ step :: back) →
    step ∈ ownSteps turns true →
    ∀ shard nonce, step.request.fetched? = some (shard, nonce) →
    (∀ other ∈ stretch ++ [step], ∃ checkpoint,
      surroundings.checkpoint? other.world shard = some checkpoint) →
    ∀ other ∈ stretch ++ [step], ∀ checkpoint,
      surroundings.checkpoint? other.world shard = some checkpoint →
        checkpoint < nonce

end Surroundings

/-! ## The start of a visit -/

namespace Watch

variable {checkpoint latest lookBehind start : UInt64}

theorem lt_of_begins
    (begins : startNonce (some checkpoint) latest lookBehind = .ok (some start)) :
    checkpoint.toNat < start.toNat := by
  rw [firstNonce_eq begins]
  exact Nat.le_max_left _ _

theorem resumes_iff : Resumes checkpoint latest lookBehind ↔
    checkpoint.toNat + 1 < UInt64.size := by
  constructor
  · intro resumes
    apply Nat.not_le.1
    intro isLast
    obtain ⟨found, computes⟩ := resumes.computes
    rw [startNonce_last isLast] at computes
    cases computes
  · intro small
    have isNext : nextUnread (some checkpoint) latest lookBehind =
        .ok (max (checkpoint + 1) (behind latest lookBehind)) :=
      Except.bind_eq_ok_iff.2 ⟨_, successor_eq_ok_iff.2 ⟨small, rfl⟩, rfl⟩
    constructor
    case computes => exact ⟨_, startNonce_eq_ok_iff.2 ⟨_, isNext, rfl⟩⟩
    case reached =>
      simp only [startNonce_eq_ok_iff, isNext, Except.ok.injEq, exists_eq_left',
        ite_eq_right_iff, reduceCtorEq, imp_false, UInt64.le_iff_toNat_le, toNat_max,
        toNat_behind, toNat_succ small]
      omega
    case begins =>
      intro start begins
      exact ⟨UInt64.lt_iff_toNat_lt.2 (lt_of_begins begins),
        Surroundings.le_of_startNonce begins, firstNonce_eq begins⟩

end Watch

namespace Surroundings

variable {surroundings : Surroundings} {lifetimes : Lifetimes}
  {world last : World} {step : Step} {shard : UInt32} {nonce : UInt64}
  {number : Nat}

/-! ## Steps and checkpoints -/

namespace Orderly

theorem live {entry : Entry} (orderly : surroundings.Orderly lifetimes step.world)
    (member : (Checkpoints.key shard, entry) ∈ step.world.cache.entries)
    (later : entry.isLive (surroundings.millis (surroundings.after step)) = true) :
    entry.isLive (surroundings.millis step.world) = true := by
  obtain forward | ⟨-, lasting⟩ := orderly.ages
  · exact Entry.isLive_mono (forward.millis_after step) later
  · rw [Entry.isLive, lasting shard entry member]

theorem checkpoint?_after_cases
    (orderly : surroundings.Orderly lifetimes step.world)
    (held : surroundings.checkpoint? (surroundings.after step) shard =
      some nonce) :
    surroundings.checkpoint? step.world shard = some nonce ∨
      ∃ text, step.request.written? = some (Checkpoints.key shard, text) ∧
        (Checkpoints.decode text).toOption = some nonce := by
  unfold checkpoint? at held ⊢
  obtain ⟨text, found, decodes⟩ := Option.bind_eq_some_iff.1 held
  obtain ⟨entry, member, later, rfl⟩ :=
    (value?_eq_some_iff (unique_after orderly.unique)).1 found
  obtain before | written := mem_after_cases member
  · have isFound := (value?_eq_some_iff orderly.unique).2
      ⟨entry, before, orderly.live before later, rfl⟩
    exact .inl (Option.bind_eq_some_iff.2 ⟨_, isFound, decodes⟩)
  · exact .inr ⟨entry.value, written, decodes⟩

theorem checkpoint?_of_after (orderly : surroundings.Orderly lifetimes step.world)
    (spares : step.SparesCheckpoints)
    (held : surroundings.checkpoint? (surroundings.after step) shard =
      some nonce) :
    surroundings.checkpoint? step.world shard = some nonce := by
  obtain before | ⟨text, written, -⟩ := orderly.checkpoint?_after_cases held
  · exact before
  · exact absurd (Request.touched?_of_written? written) (spares shard)

theorem checkpoint?_after_mark (orderly : surroundings.Orderly lifetimes world)
    {later : UInt64}
    (held : surroundings.checkpoint?
      (surroundings.after (.mark lifetimes world shard nonce)) shard =
        some later) :
    surroundings.checkpoint? world shard = some later ∨ later = nonce := by
  have marking : surroundings.Orderly lifetimes
      (Step.mark lifetimes world shard nonce).world := orderly
  obtain before | ⟨text, written, decoded⟩ :=
    marking.checkpoint?_after_cases held
  · exact .inl before
  · cases written
    rw [Checkpoints.decode_encode] at decoded
    exact .inr (Option.some.inj decoded).symm

theorem after_spares (orderly : surroundings.Orderly lifetimes step.world)
    (spares : step.SparesCheckpoints) :
    surroundings.Orderly lifetimes (surroundings.after step) where
  unique := unique_after orderly.unique
  ages := by
    apply orderly.ages.imp_right
    intro ⟨forever, lasting⟩
    refine ⟨forever, ?_⟩
    intro shard entry member
    obtain before | written := mem_after_cases member
    · exact lasting shard entry before
    · exact absurd (Request.touched?_of_written? written) (spares shard)

theorem after_mark (orderly : surroundings.Orderly lifetimes world) :
    surroundings.Orderly lifetimes
      (surroundings.after (.mark lifetimes world shard nonce)) where
  unique := unique_after orderly.unique
  ages := by
    apply orderly.ages.imp_right
    intro ⟨forever, lasting⟩
    refine ⟨forever, ?_⟩
    intro other entry member
    cases fault : surroundings.fault world.moment
        (.write (Checkpoints.key shard)) with
    | some error =>
        rw [Step.mark, cache_after_failed_write fault] at member
        exact lasting other entry member
    | none =>
        rw [Step.mark, cache_after_write fault, Cache.mem_set, forever] at member
        obtain ⟨-, rfl⟩ | ⟨⟨before, -⟩, -⟩ := member
        · rfl
        · exact lasting other entry before

theorem rises (orderly : surroundings.Orderly lifetimes step.world)
    (spares : step.SparesCheckpoints) : surroundings.Rises step := by
  intro shard before later held isLater
  rw [orderly.checkpoint?_of_after spares isLater] at held
  cases held
  exact UInt64.le_refl _

theorem ahead (orderly : surroundings.Orderly lifetimes step.world)
    (spares : step.SparesCheckpoints)
    (fetches : ∀ shard nonce, step.request.fetched? = some (shard, nonce) →
      surroundings.Passed shard nonce.toNat step.world) :
    surroundings.Ahead lifetimes step :=
  ⟨fetches, orderly.rises spares, orderly.after_spares spares⟩

theorem stable : surroundings.Stable Step.SparesCheckpoints
    (surroundings.Orderly lifetimes) :=
  fun _ spares orderly => orderly.after_spares spares

end Orderly

namespace Standing

theorem ahead_mark
    (standing : surroundings.Standing lifetimes shard nonce.toNat world) :
    surroundings.Ahead lifetimes (.mark lifetimes world shard nonce) where
  fetches _ _ fetched := by cases fetched
  orderly := standing.orderly.after_mark
  rises := by
    intro other before later held isLater
    by_cases same : other = shard
    · subst same
      obtain unchanged | rfl := standing.orderly.checkpoint?_after_mark isLater
      · rw [show surroundings.checkpoint? world other = some before from held]
          at unchanged
        cases unchanged
        exact UInt64.le_refl _
      · have below := standing.passed before held
        exact UInt64.le_iff_toNat_le.2 (Nat.le_of_lt below)
    · have marking : surroundings.Orderly lifetimes
          (Step.mark lifetimes world shard nonce).world := standing.orderly
      obtain unchanged | ⟨text, written, -⟩ :=
        marking.checkpoint?_after_cases isLater
      · rw [held] at unchanged
        cases unchanged
        exact UInt64.le_refl _
      · obtain ⟨isOther, -⟩ := Prod.mk.inj (Option.some.inj written)
        exact absurd (Checkpoints.key_inj isOther).symm same

theorem after_mark
    (standing : surroundings.Standing lifetimes shard nonce.toNat world) :
    surroundings.Standing lifetimes shard (nonce.toNat + 1)
      (surroundings.after (.mark lifetimes world shard nonce)) where
  orderly := standing.orderly.after_mark
  passed := by
    intro checkpoint held
    obtain before | rfl := standing.orderly.checkpoint?_after_mark held
    · exact Nat.lt_succ_of_lt (standing.passed checkpoint before)
    · exact Nat.lt_succ_self _

theorem stable : surroundings.Stable Step.SparesCheckpoints
    (surroundings.Standing lifetimes shard number) := by
  intro step spares standing
  refine ⟨standing.orderly.after_spares spares, ?_⟩
  intro checkpoint held
  exact standing.passed checkpoint
    (standing.orderly.checkpoint?_of_after spares held)

end Standing

theorem Recalls.stable {earlier : World} :
    surroundings.Stable Step.SparesCheckpoints
      (surroundings.Recalls lifetimes shard earlier) := by
  intro step spares recalls
  refine ⟨recalls.orderly.after_spares spares, ?_⟩
  intro checkpoint held
  exact recalls.same checkpoint
    (recalls.orderly.checkpoint?_of_after spares held)

/-! ## Ticks -/

theorem careful_request {request : Request} (untouched : request.touched? = none)
    (unfetched : request.fetched? = none) :
    surroundings.Careful lifetimes (Activity.request request) := by
  apply Knows.request
  intro world orderly
  have spares : Step.SparesCheckpoints ⟨world, request⟩ := by
    intro shard
    rw [untouched]
    exact nofun
  refine ⟨?_, Orderly.stable, orderly.after_spares spares⟩
  apply orderly.ahead spares
  intro shard nonce fetched
  rw [unfetched] at fetched
  cases fetched

theorem knows_fetch :
    surroundings.Knows Step.SparesCheckpoints (surroundings.Ahead lifetimes)
      (fun _ => surroundings.Standing lifetimes shard nonce.toNat)
      (surroundings.Standing lifetimes shard nonce.toNat)
      (Activity.request (.block shard nonce)) := by
  apply Knows.request
  intro world standing
  have spares : Step.SparesCheckpoints (.fetch world shard nonce) :=
    fun _ => nofun
  refine ⟨?_, Standing.stable, Standing.stable _ spares standing⟩
  apply standing.orderly.ahead spares
  intro other number fetched
  cases fetched
  exact standing.passed

theorem knows_processBlock {transactions : List ObservedTransaction} :
    surroundings.Knows Step.SparesCheckpoints (surroundings.Ahead lifetimes)
      (fun _ => surroundings.Standing lifetimes shard number)
      (surroundings.Standing lifetimes shard number)
      (Watch.processBlock lifetimes transactions) := by
  apply Knows.of_quiet Standing.stable
  intro steps result performs step member
  have settled := performs.processBlock_settles step member
  refine ⟨settled.untouched, fun standing => ?_⟩
  apply standing.orderly.ahead settled.untouched
  intro shard nonce fetched
  rw [settled.fetched] at fetched
  cases fetched

theorem knows_set :
    surroundings.Knows Step.SparesCheckpoints (surroundings.Ahead lifetimes)
      (fun _ => surroundings.Standing lifetimes shard (nonce.toNat + 1))
      (surroundings.Standing lifetimes shard nonce.toNat)
      (Checkpoints.set lifetimes shard nonce) := by
  apply Knows.request
  intro world standing
  exact ⟨standing.ahead_mark, Standing.stable, standing.after_mark⟩

/-- What carries the induction is that the checkpoint is below the next block to be
fetched. -/
theorem knows_readBlocks {count : Nat}
    (small : nonce.toNat + count ≤ UInt64.size) :
    surroundings.Knows Step.SparesCheckpoints (surroundings.Ahead lifetimes)
      (fun _ => surroundings.Orderly lifetimes)
      (surroundings.Standing lifetimes shard nonce.toNat)
      (Watch.readBlocks lifetimes shard count nonce) := by
  induction count generalizing nonce with
  | zero => exact fun _ standing => standing.orderly
  | succ count induction =>
      apply knows_fetch.bind
      intro answer
      cases answer with
      | error error => exact fun _ standing => standing.orderly
      | ok transactions =>
          apply knows_processBlock.bind
          intro result
          cases result with
          | error error => exact fun _ standing => standing.orderly
          | ok attempts =>
              apply knows_set.bind
              intro stored
              cases stored with
              | error error => exact fun _ standing => standing.orderly
              | ok _ =>
                  have others : surroundings.Knows Step.SparesCheckpoints
                      (surroundings.Ahead lifetimes)
                      (fun _ => surroundings.Orderly lifetimes)
                      (surroundings.Standing lifetimes shard (nonce.toNat + 1))
                      (Watch.readBlocks lifetimes shard count (nonce + 1)) := by
                    by_cases smaller : nonce.toNat + 1 < UInt64.size
                    · rw [← toNat_succ smaller]
                      apply induction
                      rw [toNat_succ smaller]
                      omega
                    · -- The last nonce of all was the last one to read.
                      obtain rfl : count = 0 := by omega
                      exact fun _ standing => standing.orderly
                  apply others.bind
                  exact fun _ _ orderly => orderly

theorem knows_get : surroundings.Knows Step.SparesCheckpoints
    (surroundings.Ahead lifetimes)
    (fun result world => surroundings.Orderly lifetimes world ∧
      ∀ found, result = .ok found → ∀ checkpoint,
        surroundings.checkpoint? world shard = some checkpoint →
          found = some checkpoint)
    (surroundings.Orderly lifetimes) (Checkpoints.get shard) := by
  intro world orderly
  have spares : Step.SparesCheckpoints (.readCheckpoint world shard) :=
    fun _ => nofun
  have ahead : surroundings.Ahead lifetimes (.readCheckpoint world shard) :=
    orderly.ahead spares nofun
  have recalls : surroundings.Recalls lifetimes shard world
      (surroundings.after (.readCheckpoint world shard)) :=
    Recalls.stable _ spares ⟨orderly, fun _ held => held⟩
  refine ⟨ahead, _, Recalls.stable, recalls, ?_⟩
  have isHeld (found : Option UInt64) := @eq_of_getCheckpoint surroundings world
    shard found
  simp only [Checkpoints.get, Activity.request, Bind.bind, Activity.bind, run]
    at isHeld ⊢
  generalize (surroundings.answer world (.read (Checkpoints.key shard))).1 =
    answer at isHeld ⊢
  split at isHeld
  all_goals
    intro later recalls
    refine ⟨recalls.orderly, ?_⟩
    intro found isRead checkpoint held
    rw [isHeld found isRead]
    exact recalls.same checkpoint held

theorem careful_visit {lookBehind : UInt64} :
    surroundings.Careful lifetimes (Watch.visit lifetimes lookBehind shard) := by
  have asks : surroundings.Careful lifetimes (Activity.request (.latestNonce shard)) :=
    careful_request rfl rfl
  apply asks.bind
  intro answer
  cases answer with
  | error error => exact fun _ orderly => orderly
  | ok latest =>
      apply knows_get.bind
      intro result
      cases result with
      | error error => exact fun _ known => known.1
      | ok found =>
          dsimp only
          split
          case h_1 => exact fun _ known => known.1
          case h_2 => exact fun _ known => known.1
          case h_3 start begins =>
            have order := UInt64.le_iff_toNat_le.1 (le_of_startNonce begins)
            have bound := latest.toNat_lt_size
            have reads := @knows_readBlocks surroundings lifetimes shard start
              (latest.toNat - start.toNat + 1) (by omega)
            have ends : surroundings.Knows Step.SparesCheckpoints
                (surroundings.Ahead lifetimes)
                (fun _ => surroundings.Orderly lifetimes)
                (surroundings.Standing lifetimes shard start.toNat)
                (Watch.readBlocks lifetimes shard
                  (latest.toNat - start.toNat + 1) start >>= fun attempts =>
                    pure (Except.ok attempts : Except Overflow (List Attempt))) :=
              reads.bind fun _ _ orderly => orderly
            apply ends.from_more
            intro world known
            refine ⟨known.1, ?_⟩
            intro checkpoint held
            rw [known.2 found rfl checkpoint held] at begins
            exact Watch.lt_of_begins begins

theorem careful_visitAll {lookBehind : UInt64} (shards : List UInt32) :
    surroundings.Careful lifetimes (Watch.visitAll lifetimes lookBehind shards) := by
  induction shards with
  | nil => exact fun _ orderly => orderly
  | cons shard shards induction =>
      apply careful_visit.bind
      intro result
      cases result with
      | error overflow => exact fun _ orderly => orderly
      | ok attempts =>
          apply induction.bind
          exact fun _ _ orderly => orderly

theorem careful_publishAll (events : List BatchUpdated) :
    surroundings.Careful lifetimes (publishAll events) := by
  induction events with
  | nil => exact fun _ orderly => orderly
  | cons event events induction =>
      have first : surroundings.Careful lifetimes (Activity.request (.publish event)) :=
        careful_request rfl rfl
      apply first.bind
      exact fun _ => induction

theorem careful_tick (settings : WatchSettings) :
    surroundings.Careful lifetimes (Watch.tick lifetimes settings) := by
  have begins : surroundings.Careful lifetimes Watch.tryBegin :=
    careful_request rfl rfl
  have finishes : surroundings.Careful lifetimes Watch.finish :=
    careful_request rfl rfl
  have passes : surroundings.Careful lifetimes (Watch.pass lifetimes settings) := by
    apply (careful_visitAll settings.shards).bind
    intro result
    cases result with
    | error overflow => exact fun _ orderly => orderly
    | ok attempts =>
        apply (careful_publishAll (announcements attempts)).bind
        exact fun _ _ orderly => orderly
  apply begins.bind
  intro isFirst
  cases isFirst with
  | false => exact fun _ orderly => orderly
  | true =>
      apply passes.bind
      intro attempts
      apply finishes.bind
      exact fun _ _ orderly => orderly

theorem careful_ticks (ticks : List WatchSettings) :
    surroundings.Careful lifetimes (performAll lifetimes (ticks.map .tick)) := by
  induction ticks with
  | nil => exact fun _ orderly => orderly
  | cons settings ticks induction =>
      have first : surroundings.Careful lifetimes
          (Command.perform lifetimes (.tick settings)) := by
        apply (careful_tick settings).bind
        exact fun _ _ orderly => orderly
      apply first.bind
      exact fun _ => induction

/-! ## Turns -/

/-- A checkpoint that never goes back while it is there stays below what it is
below in the end.  The induction is from the last step back. -/
theorem lt_of_rises {stretch back : List Step}
    (links : surroundings.Linked world (stretch ++ step :: back) last)
    (rises : ∀ other ∈ stretch, surroundings.Rises other)
    (held : ∀ other ∈ stretch ++ [step], ∃ checkpoint,
      surroundings.checkpoint? other.world shard = some checkpoint)
    (passed : surroundings.Passed shard nonce.toNat step.world) :
    ∀ other ∈ stretch ++ [step], ∀ checkpoint,
      surroundings.checkpoint? other.world shard = some checkpoint →
        checkpoint < nonce := by
  induction stretch generalizing world with
  | nil =>
      intro other member checkpoint isHeld
      obtain rfl := List.mem_singleton.1 member
      exact UInt64.lt_iff_toNat_lt.2 (passed checkpoint isHeld)
  | cons first stretch induction =>
      rw [List.cons_append, List.forall_mem_cons] at held ⊢
      obtain ⟨rise, rises⟩ := List.forall_mem_cons.1 rises
      obtain ⟨-, rest⟩ := Linked.cons_iff.1 links
      have later := induction rest rises held.2
      refine ⟨?_, later⟩
      intro checkpoint isHeld
      -- The step leads to the next one, whose checkpoint is below the nonce.
      obtain ⟨next, inRest, isNext⟩ : ∃ next ∈ stretch ++ [step],
          next.world = surroundings.after first := by
        cases stretch with
        | nil => exact ⟨step, List.mem_cons_self, (Linked.cons_iff.1 rest).1⟩
        | cons second _ =>
            exact ⟨second, List.mem_cons_self, (Linked.cons_iff.1 rest).1⟩
      obtain ⟨following, isFollowing⟩ := held.2 next inRest
      have below := later next inRest following isFollowing
      rw [isNext] at isFollowing
      exact UInt64.lt_of_le_of_lt
        (rise shard checkpoint following isHeld isFollowing) below

namespace Watched

variable {ticks : List WatchSettings} {turns : List (Bool × Step)}
  (watched : surroundings.Watched lifetimes ticks world turns last)

include watched

theorem ahead : ∀ step ∈ ownSteps turns true,
    surroundings.Ahead lifetimes step := by
  obtain ⟨more, result, performs⟩ := watched.ticks
  apply (careful_ticks ticks).permits Orderly.stable watched.orderly
    watched.linked performs
  intro turn member isOther
  obtain ⟨who, step⟩ := turn
  cases who with
  | true => exact absurd rfl isOther
  | false => exact watched.others step (mem_ownSteps.2 member)

theorem rises : ∀ step ∈ turns.map Prod.snd, surroundings.Rises step := by
  have kept (step : Step) (member : step ∈ turns.map Prod.snd)
      (orderly : surroundings.Orderly lifetimes step.world) :
      surroundings.Orderly lifetimes (surroundings.after step) := by
    obtain ⟨who, own⟩ := exists_ownSteps member
    cases who with
    | true => exact (watched.ahead step own).orderly
    | false => exact orderly.after_spares (watched.others step own)
  intro step member
  have orderly := watched.linked.keeps_at _ watched.orderly kept step member
  obtain ⟨who, own⟩ := exists_ownSteps member
  cases who with
  | true => exact (watched.ahead step own).rises
  | false => exact orderly.rises (watched.others step own)

theorem readsOn : surroundings.ReadsOn turns := by
  intro front stretch step back all own shard nonce fetched held
  have links := watched.linked
  rw [all] at links
  obtain ⟨middle, -, onwards⟩ := links.split
  apply lt_of_rises onwards ?_ held
  · exact (watched.ahead step own).fetches shard nonce fetched
  · intro other member
    apply watched.rises
    rw [all]
    exact List.mem_append_right _ (List.mem_append_left _ member)

end Watched

theorem watched_alone (orderly : surroundings.Orderly lifetimes world)
    (ticks : List WatchSettings) :
    surroundings.Watched lifetimes ticks world
      ((surroundings.steps (performAll lifetimes (ticks.map .tick)) world).map
        (true, ·))
      (surroundings.run (performAll lifetimes (ticks.map .tick)) world).2 where
  orderly := orderly
  linked := by
    simp only [List.map_map, Function.comp_def, List.map_id']
    exact surroundings.linked _
  ticks := by
    refine ⟨[], (), ?_⟩
    rw [ownSteps_map_self, List.append_nil]
    exact steps_performs _ world
  others := by
    rw [ownSteps_map_of_ne (by decide)]
    exact fun _ => nofun

/-- A visit goes on after its checkpoint exactly if this has a next nonce, and
overflows otherwise.  No block is fetched at or below a checkpoint that its shard
keeps. -/
theorem reading_resumes {ticks : List WatchSettings}
    {turns : List (Bool × Step)}
    (watched : surroundings.Watched lifetimes ticks world turns last) :
    (∀ checkpoint latest lookBehind,
      Watch.Resumes checkpoint latest lookBehind ↔
        checkpoint.toNat + 1 < UInt64.size) ∧
    (∀ checkpoint latest lookBehind, UInt64.size ≤ checkpoint.toNat + 1 →
      Watch.startNonce (some checkpoint) latest lookBehind = .error .nonce) ∧
    surroundings.ReadsOn turns := by
  refine ⟨?_, ?_, watched.readsOn⟩
  · intro checkpoint latest lookBehind
    exact Watch.resumes_iff
  · intro checkpoint latest lookBehind isLast
    exact Watch.startNonce_last isLast

end Surroundings

namespace Sample

/-- A network whose shards have empty blocks up to some nonce. -/
def chain (latest : UInt64) : Surroundings :=
  { silence with
    latestNonce := fun _ _ => .ok latest
    block := fun _ _ _ => .ok [] }

/-- A world in which the first shard has a checkpoint. -/
def reached (checkpoint : UInt64) : World :=
  .start (.memory ⟨[(Checkpoints.key 0,
    ⟨Checkpoints.encode checkpoint, none⟩)]⟩)

theorem reached_orderly (latest checkpoint : UInt64) :
    (chain latest).Orderly .forever (reached checkpoint) where
  unique := List.pairwise_singleton _ _
  ages := by
    refine .inr ⟨rfl, ?_⟩
    intro shard entry member
    obtain ⟨-, rfl⟩ := Prod.mk.inj (List.mem_singleton.1 member)
    rfl

theorem chain_read_on :
    let turns := ((chain 7).steps (performAll .forever [.tick ⟨[0], 3⟩])
      (reached 5)).map (true, ·)
    turns.filterMap (fun turn => turn.2.request.fetched?) = [(0, 6), (0, 7)] ∧
      Watch.Resumes 5 7 3 ∧ (chain 7).ReadsOn turns := by
  obtain ⟨resumes, -, readsOn⟩ := Surroundings.reading_resumes
    (Surroundings.watched_alone (reached_orderly 7 5) [⟨[0], 3⟩])
  exact ⟨rfl, (resumes 5 7 3).2 (by decide), readsOn⟩

/-- With a checkpoint at the last nonce a shard is up to date, and yet its visit
overflows and ends the tick. -/
theorem last_nonce_overflows :
    (5 : UInt64) ≤ Watch.lastNonce ∧
      Watch.startNonce (some Watch.lastNonce) 5 1 ≠ .ok none ∧
      ((chain 5).run (Watch.tick .forever ⟨[0], 1⟩)
        (reached Watch.lastNonce)).1 = .error .nonce := by
  refine ⟨by decide, ?_, rfl⟩
  rw [Watch.startNonce_last (by decide)]
  exact nofun

end Sample

end BatchRelay
