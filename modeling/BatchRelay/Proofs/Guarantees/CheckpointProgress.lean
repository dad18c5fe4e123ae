import BatchRelay.Proofs.Engine.Leftovers
import BatchRelay.Proofs.Engine.Visits

/-!
# The progress of checkpoints

A checkpoint never goes back, and no block is passed over: each visit reads on
from the block after the checkpoint, or from the earliest one that may still be
read, and leaves behind the last block that was dealt with and marked.  All of
this holds whatever the gateway and the cache refuse, as long as there is a next
nonce after every latest one and checkpoints stay for ever.
-/

namespace BatchRelay

/-- A world in which every checkpoint is a nonce with a next one and counts for
ever. -/
structure World.Marked (world : World) : Prop where
  unique : world.cache.entries.Unique
  marks : ∀ shard entry,
    (Checkpoints.key shard, entry) ∈ world.cache.entries →
    ∃ nonce : UInt64, nonce.toNat + 1 < UInt64.size ∧
      entry = ⟨Checkpoints.encode nonce, none⟩

/-- The number of the first block that a visit reads, if it reads any. -/
def Watch.firstNonce (checkpoint : Option UInt64) (latest lookBehind : UInt64) :
    Nat :=
  match checkpoint with
  | none => latest.toNat
  | some last => max (last.toNat + 1) (latest.toNat - lookBehind.toNat)

theorem Watch.toNat_behind (latest distance : UInt64) :
    (behind latest distance).toNat = latest.toNat - distance.toNat := by
  unfold behind
  split
  case isTrue less =>
    have order := UInt64.lt_iff_toNat_lt.1 less
    rw [UInt64.toNat_zero]
    omega
  case isFalse notLess =>
    exact UInt64.toNat_sub_of_le _ _ (UInt64.not_lt.1 notLess)

theorem toNat_max (left right : UInt64) :
    (max left right).toNat = max left.toNat right.toNat := by
  rw [show max left right = if left ≤ right then right else left from rfl]
  split
  case isTrue order =>
    rw [Nat.max_eq_right (UInt64.le_iff_toNat_le.1 order)]
  case isFalse order =>
    have reverse := UInt64.le_of_lt (UInt64.not_le.1 order)
    rw [Nat.max_eq_left (UInt64.le_iff_toNat_le.1 reverse)]

theorem Watch.toNat_nextUnread {checkpoint : Option UInt64}
    {latest lookBehind next : UInt64}
    (isNext : nextUnread checkpoint latest lookBehind = .ok next) :
    next.toNat = firstNonce checkpoint latest lookBehind := by
  cases checkpoint with
  | none =>
      cases isNext
      rfl
  | some last =>
      obtain ⟨after, isAfter, same⟩ := Except.bind_eq_ok_iff.1 isNext
      obtain ⟨small, rfl⟩ := successor_eq_ok_iff.1 isAfter
      cases same
      rw [toNat_max, toNat_behind, toNat_succ small]
      rfl

theorem Watch.firstNonce_eq {checkpoint : Option UInt64}
    {latest lookBehind start : UInt64}
    (begins : startNonce checkpoint latest lookBehind = .ok (some start)) :
    start.toNat = firstNonce checkpoint latest lookBehind := by
  obtain ⟨next, isNext, ends⟩ := startNonce_eq_ok_iff.1 begins
  obtain ⟨-, same⟩ := Option.ite_none_right_eq_some.1 ends
  cases same
  exact toNat_nextUnread isNext

theorem Watch.count_le {checkpoint : Option UInt64}
    {latest lookBehind : UInt64} :
    latest.toNat - firstNonce checkpoint latest lookBehind ≤
      lookBehind.toNat := by
  cases checkpoint with
  | none => simp [firstNonce]
  | some last =>
      simp only [firstNonce]
      omega

/-- The nonce of the last round that has moved the checkpoint on. -/
def Round.lastMarked (rounds : List Round) : Option UInt64 :=
  (rounds.filter Round.isMarked).getLast?.map Round.nonce

theorem Request.Settles.untouched {request : Request}
    (settles : request.Settles) (shard : UInt32) :
    request.touched? ≠ some (Checkpoints.key shard) := by
  intro touched
  have tracked := settles.tracked _ touched
  simp [isTracked] at tracked

theorem Round.lastMarked_cons {round : Round} {rounds : List Round} :
    Round.lastMarked (round :: rounds) = (Round.lastMarked rounds).or
      (if round.isMarked = true then some round.nonce else none) := by
  unfold Round.lastMarked
  cases marked : round.isMarked with
  | false => simp [marked]
  | true =>
      simp only [List.filter_cons_of_pos marked, List.getLast?_cons, if_true]
      cases (rounds.filter Round.isMarked).getLast? <;> rfl

/-- A visit of a shard with the worlds in which it begins and ends. -/
structure Visit where
  shard : UInt32
  world : World
  rounds : List Round
  steps : List Step
  last : World

namespace Surroundings

/-- The checkpoint of a shard that a world holds. -/
def checkpoint? (surroundings : Surroundings) (world : World) (shard : UInt32) :
    Option UInt64 :=
  (surroundings.value? world (Checkpoints.key shard)).bind fun text =>
    (Checkpoints.decode text).toOption

/-- Whether the checkpoint of a shard is still there later and has not gone
back. -/
def Advances (surroundings : Surroundings) (shard : UInt32)
    (earlier later : World) : Prop :=
  ∀ nonce, surroundings.checkpoint? earlier shard = some nonce →
    ∃ next, surroundings.checkpoint? later shard = some next ∧ nonce ≤ next

/-- What a visit fetches follows from the checkpoint that it finds, and the
checkpoint that it leaves behind from what it has fetched and dealt with. -/
structure Follows (surroundings : Surroundings) (lifetimes : Lifetimes)
    (lookBehind : UInt64) (visit : Visit) : Prop where
  linked : surroundings.Linked visit.world visit.steps visit.last
  visiting : surroundings.Visiting lifetimes lookBehind visit.shard visit.rounds
    visit.steps
  fetches : visit.steps.filterMap (fun step => step.request.fetched?) =
    visit.rounds.map fun round => (visit.shard, round.nonce)
  begins : visit.rounds ≠ [] → ∃ latest,
    surroundings.latestNonce visit.world.moment visit.shard = .ok latest ∧
    visit.rounds.map (fun round => round.nonce.toNat) =
      List.range' (Watch.firstNonce
        (surroundings.checkpoint? visit.world visit.shard) latest lookBehind)
        visit.rounds.length
  few : visit.rounds.length ≤ lookBehind.toNat + 1
  ends : surroundings.checkpoint? visit.last visit.shard =
    (Round.lastMarked visit.rounds).or
      (surroundings.checkpoint? visit.world visit.shard)

/-- Visits of which each begins where the one before it ends. -/
inductive Tours : World → List Visit → World → Prop
  | done {world : World} : Tours world [] world
  | next {visit : Visit} {visits : List Visit} {last : World}
      (rest : Tours visit.last visits last) :
      Tours visit.world (visit :: visits) last

/-- A tick visits all its shards in their order, and then it only announces
changes and ends. -/
structure Ticks (surroundings : Surroundings) (lifetimes : Lifetimes)
    (settings : WatchSettings) (world : World) (visits : List Visit) : Prop where
  shards : visits.map Visit.shard = settings.shards
  follows : ∀ visit ∈ visits,
    surroundings.Follows lifetimes settings.lookBehind visit
  tours : ∃ last, Tours (surroundings.after ⟨world, .beginTick⟩) visits last
  steps : ∃ rest, surroundings.steps (Watch.tick lifetimes settings) world =
      ⟨world, .beginTick⟩ :: (visits.flatMap Visit.steps ++ rest) ∧
    ∀ step ∈ rest, step.request = .endTick ∨
      ∃ event, step.request = .publish event

variable {surroundings : Surroundings} {lifetimes : Lifetimes}
  {world last : World} {step : Step} {steps : List Step}
  {shard other : UInt32} {nonce : UInt64}

/-! ## Checkpoints and steps -/

theorem Advances.of_eq (same : surroundings.checkpoint? last shard =
    surroundings.checkpoint? world shard) :
    surroundings.Advances shard world last :=
  fun nonce held => ⟨nonce, same.trans held, UInt64.le_refl nonce⟩

theorem Advances.trans {middle : World}
    (first : surroundings.Advances shard world middle)
    (second : surroundings.Advances shard middle last) :
    surroundings.Advances shard world last := by
  intro nonce held
  rcases first nonce held with ⟨between, found, order⟩
  rcases second between found with ⟨next, later, orderOn⟩
  exact ⟨next, later, UInt64.le_trans order orderOn⟩

theorem checkpoint?_eq_some_iff (marked : world.Marked) :
    surroundings.checkpoint? world shard = some nonce ↔
      (Checkpoints.key shard, ⟨Checkpoints.encode nonce, none⟩) ∈
        world.cache.entries := by
  rw [checkpoint?, Option.bind_eq_some_iff]
  constructor
  · rintro ⟨text, read, decoded⟩
    rcases (value?_eq_some_iff marked.unique).1 read with
      ⟨entry, member, -, rfl⟩
    rcases marked.marks shard entry member with ⟨written, -, rfl⟩
    rw [Checkpoints.decode_encode] at decoded
    cases decoded
    exact member
  · intro member
    refine ⟨_, (value?_eq_some_iff marked.unique).2 ⟨_, member, rfl, rfl⟩, ?_⟩
    rw [Checkpoints.decode_encode]
    rfl

theorem small_of_checkpoint? (marked : world.Marked)
    (held : surroundings.checkpoint? world shard = some nonce) :
    nonce.toNat + 1 < UInt64.size := by
  have member := (checkpoint?_eq_some_iff marked).1 held
  rcases marked.marks shard _ member with ⟨written, small, same⟩
  have isSame : Checkpoints.encode nonce = Checkpoints.encode written :=
    congrArg Entry.value same
  have decoded := Checkpoints.decode_encode written
  rw [← isSame, Checkpoints.decode_encode] at decoded
  cases decoded
  exact small

theorem checkpoint?_congr (marked : world.Marked)
    (same : last.cache = world.cache) :
    last.Marked ∧ ∀ shard, surroundings.checkpoint? last shard =
      surroundings.checkpoint? world shard := by
  have markedLast : last.Marked :=
    ⟨same ▸ marked.unique, same ▸ marked.marks⟩
  refine ⟨markedLast, fun shard => Option.ext fun nonce => ?_⟩
  rw [checkpoint?_eq_some_iff markedLast, checkpoint?_eq_some_iff marked, same]

theorem checkpoint?_after (marked : step.world.Marked)
    (markedAfter : (surroundings.after step).Marked)
    (untouched : step.request.touched? ≠ some (Checkpoints.key shard)) :
    surroundings.checkpoint? (surroundings.after step) shard =
      surroundings.checkpoint? step.world shard := by
  apply Option.ext
  intro nonce
  rw [checkpoint?_eq_some_iff markedAfter, checkpoint?_eq_some_iff marked]
  constructor
  · intro member
    rcases mem_after_cases member with before | written
    · exact before
    · exact absurd (Request.touched?_of_written? written) untouched
  · intro member
    exact mem_after_of_mem untouched member rfl

theorem marked_after (marked : step.world.Marked)
    (untouched : ∀ shard,
      step.request.touched? ≠ some (Checkpoints.key shard)) :
    (surroundings.after step).Marked where
  unique := unique_after marked.unique
  marks shard entry member := by
    rcases mem_after_cases member with before | written
    · exact marked.marks shard entry before
    · exact absurd (Request.touched?_of_written? written) (untouched shard)

/-- Steps that leave every checkpoint as it is. -/
structure Spares (surroundings : Surroundings) (world : World)
    (steps : List Step) (last : World) : Prop where
  marked : last.Marked
  along : ∀ step ∈ steps, ∀ shard, surroundings.checkpoint? step.world shard =
    surroundings.checkpoint? world shard
  ends : ∀ shard, surroundings.checkpoint? last shard =
    surroundings.checkpoint? world shard
  advances : ∀ step ∈ steps, ∀ shard,
    surroundings.Advances shard step.world (surroundings.after step)

theorem Linked.spares (links : surroundings.Linked world steps last)
    (untouched : ∀ step ∈ steps, ∀ shard,
      step.request.touched? ≠ some (Checkpoints.key shard))
    (marked : world.Marked) : surroundings.Spares world steps last := by
  have kept (step : Step) (member : step ∈ steps)
      (marked : step.world.Marked) : (surroundings.after step).Marked :=
    marked_after marked (untouched step member)
  have markedAt := links.keeps_at World.Marked marked kept
  have same (step : Step) (member : step ∈ steps) (shard : UInt32) :
      surroundings.checkpoint? (surroundings.after step) shard =
        surroundings.checkpoint? step.world shard :=
    checkpoint?_after (markedAt step member) (kept step member
      (markedAt step member)) (untouched step member shard)
  have constant (shard : UInt32) := links.constant
    (surroundings.checkpoint? · shard) fun step member => same step member shard
  exact
    { marked := links.keeps World.Marked marked kept
      along := fun step member shard => (constant shard).1 step member
      ends := fun shard => (constant shard).2
      advances := fun step member shard => .of_eq (same step member shard) }

theorem marked_after_mark (forever : lifetimes.checkpoint = none)
    (works : surroundings.fault world.moment
      (.write (Checkpoints.key shard)) = none)
    (small : nonce.toNat + 1 < UInt64.size) (marked : world.Marked) :
    (surroundings.after (.mark lifetimes world shard nonce)).Marked ∧
      surroundings.checkpoint?
        (surroundings.after (.mark lifetimes world shard nonce)) shard =
          some nonce ∧
      ∀ other, other ≠ shard → surroundings.checkpoint?
        (surroundings.after (.mark lifetimes world shard nonce)) other =
          surroundings.checkpoint? world other := by
  have entries {key : String} {entry : Entry} : (key, entry) ∈
      (surroundings.after (.mark lifetimes world shard nonce)).cache.entries ↔
        key = Checkpoints.key shard ∧
            entry = ⟨Checkpoints.encode nonce, none⟩ ∨
          ((key, entry) ∈ world.cache.entries ∧
            entry.isLive (surroundings.millis world) = true) ∧
            key ≠ Checkpoints.key shard := by
    rw [Step.mark, cache_after_write works, Cache.mem_set, forever]
    rfl
  have markedAfter :
      (surroundings.after (.mark lifetimes world shard nonce)).Marked := by
    refine ⟨unique_after marked.unique, fun other entry member => ?_⟩
    rcases entries.1 member with ⟨-, rfl⟩ | ⟨⟨before, -⟩, -⟩
    · exact ⟨nonce, small, rfl⟩
    · exact marked.marks other entry before
  refine ⟨markedAfter, ?_, fun other isOther => ?_⟩
  · exact (checkpoint?_eq_some_iff markedAfter).2 (entries.2 (.inl ⟨rfl, rfl⟩))
  · apply checkpoint?_after marked markedAfter
    intro touched
    exact isOther (Checkpoints.key_inj (Option.some.inj touched)).symm

theorem eq_of_getCheckpoint {checkpoint : Option UInt64}
    (read : (surroundings.run (Checkpoints.get shard) world).1 =
      .ok checkpoint) :
    checkpoint = surroundings.checkpoint? world shard := by
  cases fault : surroundings.fault world.moment
      (.read (Checkpoints.key shard)) with
  | some error =>
      simp only [Checkpoints.get, Activity.request, Bind.bind, Activity.bind, run,
        answer_failed_read fault, Pure.pure] at read
      cases read
  | none =>
      simp only [Checkpoints.get, Activity.request, Bind.bind, Activity.bind, run,
        answer_read fault, Pure.pure] at read
      unfold checkpoint?
      cases found : surroundings.value? world (Checkpoints.key shard) with
      | none =>
          simp only [found, run] at read
          cases read
          rfl
      | some text =>
          simp only [found, run] at read
          cases decoded : Checkpoints.decode text with
          | error error =>
              rw [decoded] at read
              cases read
          | ok nonce =>
              rw [decoded] at read
              cases read
              rw [Option.bind_some, decoded]
              rfl

/-! ## Rounds -/

section Rounds

variable {round : Round} {rounds : List Round}

theorem Reads.fetches (reads : surroundings.Reads lifetimes shard round) :
    round.steps.filterMap (fun step => step.request.fetched?) =
      [(shard, round.nonce)] := by
  have inward {transactions : List ObservedTransaction} {steps : List Step}
      (deals : surroundings.Deals transactions steps) :
      steps.filterMap (fun step => step.request.fetched?) = [] := by
    rw [List.filterMap_eq_nil_iff]
    exact fun step member => (deals.settles step member).fetched
  cases reads with
  | unfetched | unindexed => rfl
  | unmarked _ deals | marked _ deals =>
      rw [List.filterMap_cons, List.filterMap_append, inward deals]
      rfl

theorem fetches_of_reads
    (reads : ∀ round ∈ rounds, surroundings.Reads lifetimes shard round) :
    (rounds.flatMap Round.steps).filterMap
        (fun step => step.request.fetched?) =
      rounds.map fun round => (shard, round.nonce) := by
  induction rounds with
  | nil => rfl
  | cons round rounds induction =>
      rcases List.forall_mem_cons.1 reads with ⟨first, others⟩
      rw [List.flatMap_cons, List.filterMap_append, first.fetches,
        induction others]
      rfl

theorem Reads.moves (reads : surroundings.Reads lifetimes shard round)
    (links : surroundings.Linked world round.steps last)
    (forever : lifetimes.checkpoint = none)
    (small : round.nonce.toNat + 1 < UInt64.size) (marked : world.Marked)
    (ahead : ∀ before, surroundings.checkpoint? world shard = some before →
      before ≤ round.nonce) :
    last.Marked ∧
      surroundings.checkpoint? last shard =
        (if round.isMarked = true then some round.nonce
          else surroundings.checkpoint? world shard) ∧
      ∀ step ∈ round.steps, ∀ other,
        surroundings.Advances other step.world (surroundings.after step) := by
  -- What comes before the mark leaves all checkpoints alone.
  have dealing {nonce : UInt64} {start later last : World}
      {transactions : List ObservedTransaction} {steps : List Step}
      (deals : surroundings.Deals transactions steps)
      (links : surroundings.Linked world (.fetch start shard nonce ::
        (steps ++ [.mark lifetimes later shard nonce])) last) :
      surroundings.Spares world (.fetch start shard nonce :: steps) later ∧
        surroundings.after (.mark lifetimes later shard nonce) = last := by
    rw [← List.cons_append] at links
    rcases links.split with ⟨middle, front, back⟩
    have untouched : ∀ step ∈ .fetch start shard nonce :: steps, ∀ other,
        step.request.touched? ≠ some (Checkpoints.key other) := by
      rw [List.forall_mem_cons]
      exact ⟨fun _ => nofun, fun step member =>
        (deals.settles step member).untouched⟩
    cases back with
    | cons ends =>
        cases ends
        exact ⟨front.spares untouched marked, rfl⟩
  cases reads with
  | unfetched | unindexed =>
      have spares := links.spares
        (by simp [Step.fetch, Step.lookUp, Request.touched?]) marked
      exact ⟨spares.marked, spares.ends shard, spares.advances⟩
  | @unmarked start later nonce _ _ _ _ deals fails =>
      rcases dealing deals links with ⟨spares, rfl⟩
      have vain : (surroundings.after
          (.mark lifetimes later shard nonce)).cache = later.cache :=
        cache_after_failed_write fails
      rcases checkpoint?_congr spares.marked vain with ⟨markedLast, unchanged⟩
      refine ⟨markedLast, (unchanged shard).trans (spares.ends shard), ?_⟩
      rw [← List.cons_append, List.forall_mem_append, List.forall_mem_singleton]
      exact ⟨spares.advances, fun other => .of_eq (unchanged other)⟩
  | @marked start later nonce _ _ _ deals works =>
      rcases dealing deals links with ⟨spares, rfl⟩
      rcases marked_after_mark forever works small spares.marked with
        ⟨markedLast, written, others⟩
      refine ⟨markedLast, written, ?_⟩
      rw [← List.cons_append, List.forall_mem_append, List.forall_mem_singleton]
      refine ⟨spares.advances, fun other => ?_⟩
      by_cases isSame : other = shard
      · subst isSame
        intro before held
        exact ⟨nonce, written, ahead before ((spares.ends other).symm.trans held)⟩
      · exact .of_eq (others other isSame)

/-- Rounds that go on from a checkpoint leave behind the last one that is
marked. -/
theorem rounds_move {start : Nat}
    (reads : ∀ round ∈ rounds, surroundings.Reads lifetimes shard round)
    (nonces : rounds.map (fun round => round.nonce.toNat) =
      List.range' start rounds.length)
    (small : start + rounds.length < UInt64.size)
    (links : surroundings.Linked world (rounds.flatMap Round.steps) last)
    (forever : lifetimes.checkpoint = none) (marked : world.Marked)
    (ahead : ∀ before, surroundings.checkpoint? world shard = some before →
      before.toNat < start) :
    last.Marked ∧
      surroundings.checkpoint? last shard = (Round.lastMarked rounds).or
        (surroundings.checkpoint? world shard) ∧
      ∀ step ∈ rounds.flatMap Round.steps, ∀ other,
        surroundings.Advances other step.world (surroundings.after step) := by
  induction rounds generalizing world start with
  | nil =>
      cases links
      exact ⟨marked, rfl, fun _ member => by cases member⟩
  | cons round rounds induction =>
      rw [List.flatMap_cons] at links ⊢
      rw [List.map_cons, List.length_cons, List.range'_succ,
        List.cons.injEq] at nonces
      rw [List.length_cons] at small
      rcases List.forall_mem_cons.1 reads with ⟨first, others⟩
      rcases nonces with ⟨isStart, nonces⟩
      rcases links.split with ⟨middle, front, back⟩
      have reached (before : UInt64)
          (held : surroundings.checkpoint? world shard = some before) :
          before ≤ round.nonce := by
        rw [UInt64.le_iff_toNat_le, isStart]
        exact Nat.le_of_lt (ahead before held)
      rcases first.moves front forever (by omega) marked reached with
        ⟨markedMiddle, moved, advances⟩
      have aheadOn (before : UInt64)
          (held : surroundings.checkpoint? middle shard = some before) :
          before.toNat < start + 1 := by
        rw [moved] at held
        split at held
        · cases held
          omega
        · exact Nat.lt_succ_of_lt (ahead before held)
      rcases induction others nonces (by omega) back markedMiddle aheadOn with
        ⟨markedLast, movedOn, advancesOn⟩
      refine ⟨markedLast, ?_, List.forall_mem_append.2 ⟨advances, advancesOn⟩⟩
      rw [movedOn, moved, Round.lastMarked_cons, Option.or_assoc]
      split <;> rfl

end Rounds

/-! ## Visits -/

section Visiting

variable {lookBehind : UInt64} {rounds : List Round}
  (small : ∀ moment shard latest,
    surroundings.latestNonce moment shard = .ok latest →
    latest.toNat + 1 < UInt64.size)
  (forever : lifetimes.checkpoint = none)

include small forever

omit small forever in
theorem Visiting.follows_idle
    (visiting : surroundings.Visiting lifetimes lookBehind shard [] steps)
    (links : surroundings.Linked world steps last) (marked : world.Marked)
    (asks : ∀ step ∈ steps, step.request.touched? = none)
    (fetches : steps.filterMap (fun step => step.request.fetched?) = []) :
    surroundings.Follows lifetimes lookBehind ⟨shard, world, [], steps, last⟩ ∧
      last.Marked ∧
      ∀ step ∈ steps, ∀ other,
        surroundings.Advances other step.world (surroundings.after step) := by
  have untouched : ∀ step ∈ steps, ∀ other,
      step.request.touched? ≠ some (Checkpoints.key other) := by
    intro step member other
    rw [asks step member]
    exact nofun
  have spares := links.spares untouched marked
  exact ⟨⟨links, visiting, fetches, fun none => absurd rfl none,
    Nat.zero_le _, spares.ends shard⟩, spares.marked, spares.advances⟩

omit small forever in
theorem Linked.checkpoint_of_read {start later : World}
    {checkpoint : Option UInt64}
    (links : surroundings.Linked world
      (.askLatest start shard :: .readCheckpoint later shard :: steps) last)
    (marked : world.Marked)
    (read : (surroundings.run (Checkpoints.get shard) later).1 =
      .ok checkpoint) :
    checkpoint = surroundings.checkpoint? world shard := by
  have cut : surroundings.Linked world
      ([.askLatest start shard, .readCheckpoint later shard] ++ steps) last :=
    links
  obtain ⟨middle, front, -⟩ := cut.split
  have spares := front.spares
    (by simp [Step.askLatest, Step.readCheckpoint, Request.touched?]) marked
  exact (eq_of_getCheckpoint read).trans
    (spares.along (.readCheckpoint later shard) (by simp) shard)

omit small forever in
theorem Visits.ok {result : Except Overflow (List Attempt)}
    (visits : surroundings.Visits lifetimes lookBehind shard steps result)
    (links : surroundings.Linked world steps last) (marked : world.Marked) :
    ∃ attempts, result = .ok attempts := by
  cases visits with
  | idle | begun => exact ⟨_, rfl⟩
  | overflowed asked read isLast =>
      have held := links.checkpoint_of_read marked read
      have small := small_of_checkpoint? marked held.symm
      have tooLarge := (Watch.successor_eq_error_iff.1 isLast).1
      omega

theorem Visiting.follows
    (visiting : surroundings.Visiting lifetimes lookBehind shard rounds steps)
    (links : surroundings.Linked world steps last) (marked : world.Marked) :
    surroundings.Follows lifetimes lookBehind ⟨shard, world, rounds, steps, last⟩ ∧
      last.Marked ∧
      ∀ step ∈ steps, ∀ other,
        surroundings.Advances other step.world (surroundings.after step) := by
  cases visiting with
  | unasked fails =>
      exact (Visiting.unasked fails).follows_idle links marked
        (by simp [Step.askLatest, Request.touched?]) rfl
  | unread asked fails =>
      exact (Visiting.unread asked fails).follows_idle links marked
        (by simp [Step.askLatest, Step.readCheckpoint, Request.touched?]) rfl
  | reached asked read upToDate =>
      exact (Visiting.reached asked read upToDate).follows_idle links marked
        (by simp [Step.askLatest, Step.readCheckpoint, Request.touched?]) rfl
  | @begun start later latest first checkpoint _ asked read begins reads =>
      have visiting := Visiting.begun asked read begins reads
      have cut : surroundings.Linked world
          ([.askLatest start shard, .readCheckpoint later shard] ++
            rounds.flatMap Round.steps) last := links
      rcases cut.split with ⟨middle, front, back⟩
      have isWorld : start = world := by
        cases front
        rfl
      rw [isWorld] at asked
      have spares := front.spares
        (by simp [Step.askLatest, Step.readCheckpoint, Request.touched?]) marked
      have isHeld : checkpoint = surroundings.checkpoint? world shard :=
        links.checkpoint_of_read marked read
      have isFirst := Watch.firstNonce_eq begins
      have order := UInt64.le_iff_toNat_le.1 (le_of_startNonce begins)
      have bound := small _ _ _ asked
      have atMost := reads.atMost
      have ahead (before : UInt64)
          (held : surroundings.checkpoint? middle shard = some before) :
          before.toNat < first.toNat := by
        rw [spares.ends, ← isHeld] at held
        rw [isFirst, held]
        exact Nat.lt_of_lt_of_le (Nat.lt_succ_self _) (Nat.le_max_left _ _)
      rcases rounds_move reads.reads reads.nonces (by omega) back forever
        spares.marked ahead with ⟨markedLast, moved, advances⟩
      have follows : surroundings.Follows lifetimes lookBehind
          ⟨shard, world, rounds, _, last⟩ :=
        { linked := links
          visiting := visiting
          fetches := fetches_of_reads reads.reads
          begins := fun _ => ⟨latest, asked, by
            rw [← isHeld, ← isFirst]
            exact reads.nonces⟩
          few := by
            have count := @Watch.count_le checkpoint latest lookBehind
            rw [← isFirst] at count
            exact Nat.le_trans atMost (Nat.succ_le_succ count)
          ends := by rw [moved, spares.ends] }
      exact ⟨follows, markedLast,
        List.forall_mem_append.2 ⟨spares.advances, advances⟩⟩

/-- The visits of all shards, with what holds of checkpoints all along. -/
structure Toured (surroundings : Surroundings) (lifetimes : Lifetimes)
    (lookBehind : UInt64) (shards : List UInt32) (world : World)
    (visits : List Visit) (steps : List Step) (last : World) : Prop where
  shards : visits.map Visit.shard = shards
  follows : ∀ visit ∈ visits, surroundings.Follows lifetimes lookBehind visit
  tours : Tours world visits last
  covers : steps = visits.flatMap Visit.steps
  marked : last.Marked
  advances : ∀ step ∈ steps, ∀ other,
    surroundings.Advances other step.world (surroundings.after step)

theorem visitAll_toured (shards : List UInt32) (marked : world.Marked) :
    (∃ attempts, (surroundings.run
      (Watch.visitAll lifetimes lookBehind shards) world).1 = .ok attempts) ∧
    ∃ visits, surroundings.Toured lifetimes lookBehind shards world visits
      (surroundings.steps (Watch.visitAll lifetimes lookBehind shards) world)
      (surroundings.run
        (Watch.visitAll lifetimes lookBehind shards) world).2 := by
  induction shards generalizing world with
  | nil =>
      exact ⟨⟨[], rfl⟩, [],
        { shards := rfl
          follows := fun _ member => by cases member
          tours := .done
          covers := rfl
          marked := marked
          advances := fun _ member => by cases member }⟩
  | cons shard shards induction =>
      let visit := Watch.visit lifetimes lookBehind shard
      have visits := (surroundings.steps_performs visit world).visit
      have links : surroundings.Linked world (surroundings.steps visit world)
        (surroundings.run visit world).2 := surroundings.linked visit
      rcases visits.ok links marked with ⟨attempts, done⟩
      rw [done] at visits
      rcases visits.rounds fun moment latest => small moment shard latest with
        ⟨rounds, visiting⟩
      rcases visiting.follows small forever links marked with
        ⟨follows, markedMiddle, advances⟩
      rcases induction markedMiddle with ⟨⟨others, doneOthers⟩, visits, toured⟩
      let first : Visit := ⟨shard, world, rounds, surroundings.steps visit world,
        (surroundings.run visit world).2⟩
      have tours : Tours first.world (first :: visits) _ := .next toured.tours
      simp only [visit] at done doneOthers
      simp only [Watch.visitAll, Bind.bind, Pure.pure, run_bind, steps_bind, done,
        doneOthers, run, steps, List.append_nil]
      refine ⟨⟨_, rfl⟩, first :: visits, ?_⟩
      exact
        { shards := congrArg (shard :: ·) toured.shards
          follows := List.forall_mem_cons.2 ⟨follows, toured.follows⟩
          tours := tours
          covers := congrArg (surroundings.steps visit world ++ ·) toured.covers
          marked := toured.marked
          advances := List.forall_mem_append.2 ⟨advances, toured.advances⟩ }

/-! ## Ticks -/

theorem tick_ticks (settings : WatchSettings) (marked : world.Marked)
    (idle : world.ticking = false) :
    (∃ visits, surroundings.Ticks lifetimes settings world visits) ∧
      (surroundings.run (Watch.tick lifetimes settings) world).2.Marked ∧
      (surroundings.run (Watch.tick lifetimes settings) world).2.ticking =
        false ∧
      ∀ step ∈ surroundings.steps (Watch.tick lifetimes settings) world,
        ∀ other,
          surroundings.Advances other step.world (surroundings.after step) := by
  have begins : (surroundings.answer world .beginTick).1 = true := by
    simp [answer, idle]
  have beginning := (Linked.single surroundings ⟨world, .beginTick⟩).spares
    (by simp [Request.touched?]) marked
  rcases visitAll_toured small forever settings.shards beginning.marked with
    ⟨⟨attempts, done⟩, visits, toured⟩
  let visiting := Watch.visitAll lifetimes settings.lookBehind settings.shards
  let visited := surroundings.run visiting
    (surroundings.after ⟨world, .beginTick⟩)
  let publishing := publishAll (announcements attempts)
  let ending : Activity Unit := publishing.bind fun _ => Watch.finish
  have endings : ∀ step ∈ surroundings.steps ending visited.2,
      step.request = .endTick ∨ ∃ event, step.request = .publish event := by
    simp only [ending, steps_bind]
    rw [List.forall_mem_append]
    have publishes := surroundings.steps_performs publishing visited.2
    exact ⟨fun step member => .inr (publishes.request_of_publishAll member),
      List.forall_mem_singleton.2 (.inl rfl)⟩
  have spares := (surroundings.linked ending).spares
    (fun step member shard => by
      rcases endings step member with same | ⟨event, same⟩
      all_goals
        rw [same]
        intro touched
        cases touched) toured.marked
  simp only [after] at done
  have steps : surroundings.steps (Watch.tick lifetimes settings) world =
      ⟨world, .beginTick⟩ :: (surroundings.steps visiting
        (surroundings.after ⟨world, .beginTick⟩) ++
          surroundings.steps ending visited.2) := by
    simp only [Watch.tick, Watch.tryBegin, Activity.request, Bind.bind, Pure.pure,
      Activity.bind, Surroundings.steps, begins, if_true, Watch.pass, steps_bind,
      run_bind, run, List.append_nil, List.append_assoc, ending, publishing,
      visited, visiting, after, done]
  have run : (surroundings.run (Watch.tick lifetimes settings) world).2 =
      (surroundings.run ending visited.2).2 := by
    simp only [Watch.tick, Watch.tryBegin, Activity.request, Bind.bind, Pure.pure,
      Activity.bind, begins, if_true, Watch.pass, run_bind, Surroundings.run,
      ending, publishing, visited, visiting, after, done]
  rw [run, steps]
  refine ⟨⟨visits, toured.shards, toured.follows, ⟨_, toured.tours⟩, _, ?_,
    endings⟩, spares.marked, ?_, ?_⟩
  · rw [steps, toured.covers]
  · simp only [ending, run_bind]
    rfl
  · rw [List.forall_mem_cons, List.forall_mem_append]
    exact ⟨beginning.advances _ List.mem_cons_self, toured.advances,
      spares.advances⟩

/-- Between ticks nothing is left to be done for checkpoints. -/
theorem ticks_marked (ticks : List WatchSettings) (marked : world.Marked)
    (idle : world.ticking = false) :
    (surroundings.run (performAll lifetimes (ticks.map .tick)) world).2.Marked ∧
      (surroundings.run (performAll lifetimes (ticks.map .tick))
        world).2.ticking = false ∧
      ∀ step ∈ surroundings.steps (performAll lifetimes (ticks.map .tick)) world,
        ∀ other,
          surroundings.Advances other step.world (surroundings.after step) := by
  induction ticks generalizing world with
  | nil => exact ⟨marked, idle, fun _ member => by cases member⟩
  | cons settings ticks induction =>
      rcases tick_ticks small forever settings marked idle with
        ⟨-, markedMiddle, idleMiddle, advances⟩
      rcases induction markedMiddle idleMiddle with
        ⟨markedLast, idleLast, advancesOn⟩
      simp only [List.map_cons, performAll, Bind.bind, run_bind, steps_bind,
        run_perform_tick, steps_perform_tick]
      exact ⟨markedLast, idleLast, List.forall_mem_append.2
        ⟨advances, advancesOn⟩⟩

end Visiting

/-- The world after some ticks. -/
def afterTicks (surroundings : Surroundings) (lifetimes : Lifetimes)
    (ticks : List WatchSettings) (world : World) : World :=
  (surroundings.run (performAll lifetimes (ticks.map .tick)) world).2

/-- In a run of ticks that begins without checkpoints no checkpoint ever goes
back, and each tick visits each of its shards and follows its checkpoint. -/
theorem checkpoints_follow_blocks (surroundings : Surroundings)
    (lifetimes : Lifetimes) (ticks : List WatchSettings) (world : World)
    (unique : world.cache.entries.Unique) (idle : world.ticking = false)
    (fresh : ∀ shard, world.Clears (Checkpoints.key shard))
    (forever : lifetimes.checkpoint = none)
    (small : ∀ moment shard latest,
      surroundings.latestNonce moment shard = .ok latest →
      latest.toNat + 1 < UInt64.size) :
    (∀ shard, ((surroundings.steps (performAll lifetimes (ticks.map .tick))
        world).map Step.world ++
          [surroundings.afterTicks lifetimes ticks world]).Pairwise
      (surroundings.Advances shard)) ∧
    ∀ front settings back, ticks = front ++ settings :: back →
      ∃ visits, surroundings.Ticks lifetimes settings
        (surroundings.afterTicks lifetimes front world) visits := by
  have marked : world.Marked :=
    ⟨unique, fun shard entry member => absurd member (fresh shard entry)⟩
  constructor
  · intro shard
    have advances := (ticks_marked small forever ticks marked idle).2.2
    exact (Linked.pairwise_iff (surroundings.Advances shard) .trans
      (surroundings.linked _)).2 fun step member => advances step member shard
  · intro front settings back _
    rcases ticks_marked small forever front marked idle with
      ⟨markedLast, idleLast, -⟩
    exact (tick_ticks small forever settings markedLast idleLast).1

theorem sample_checkpoints_follow :
    (∀ shard, (((Sample.network Sample.third).steps (performAll .forever
        ([⟨[0, 1], 3⟩, ⟨[1], 0⟩].map .tick))
          (World.start (.memory .empty))).map Step.world ++
        [(Sample.network Sample.third).afterTicks .forever
            [⟨[0, 1], 3⟩, ⟨[1], 0⟩] (World.start (.memory .empty))]).Pairwise
      ((Sample.network Sample.third).Advances shard)) ∧
    ∃ visits, (Sample.network Sample.third).Ticks .forever ⟨[1], 0⟩
      ((Sample.network Sample.third).afterTicks .forever [⟨[0, 1], 3⟩]
        (World.start (.memory .empty))) visits := by
  have follow := checkpoints_follow_blocks (Sample.network Sample.third) .forever
    [⟨[0, 1], 3⟩, ⟨[1], 0⟩] (World.start (.memory .empty)) List.nodup_nil rfl
    (fun _ _ member => by cases member) rfl
    (fun _ _ latest asked => by
      cases asked
      decide)
  exact ⟨follow.1, follow.2 [⟨[0, 1], 3⟩] ⟨[1], 0⟩ [] rfl⟩

/-- Without a checkpoint the latest block alone is read and marked. -/
example : (Sample.network Sample.third).checkpoint?
    ((Sample.network Sample.third).afterTicks .forever [⟨[0, 1], 3⟩]
      (World.start (.memory .empty))) 1 = some 5 := by
  cbv

end Surroundings

end BatchRelay
