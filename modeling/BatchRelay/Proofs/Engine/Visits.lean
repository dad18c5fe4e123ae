import BatchRelay.Proofs.Engine.Passes
import BatchRelay.Proofs.Engine.Performances
import BatchRelay.Proofs.Registry.Checkpoints

/-!
# What a visit of a shard reads

A visit reads blocks in rounds.  A round fetches one block, looks up its hashes,
applies what was found and marks the block as the checkpoint; the first of these
that fails, apart from applying, ends the visit.  `Reads` gives the steps of a
round for each way in which it can end.

A tick overflows just when one of its visits finds a checkpoint after which there
is no nonce.
-/

namespace BatchRelay

/-- The block that a request fetches. -/
def Request.fetched? : Request → Option (UInt32 × UInt64)
  | .block shard nonce => some (shard, nonce)
  | _ => none

/-- A request that fetches nothing, reads no checkpoint, and touches only records
and routes. -/
structure Request.Settles (request : Request) : Prop where
  fetched : request.fetched? = none
  unread : ∀ shard, request ≠ .read (Checkpoints.key shard)
  tracked : ∀ key, request.touched? = some key → isTracked key = true

theorem Request.Sends.settles {request : Request} {lifetimes : Lifetimes}
    {address id : String} {group : Nat}
    (sends : request.Sends lifetimes address id group) : request.Settles := by
  cases sends with
  | write =>
      refine ⟨rfl, nofun, ?_⟩
      intro key touched
      cases touched
      exact isTracked_routeKey _
  | _ => exact ⟨rfl, nofun, nofun⟩

/-- How the reading of a block has ended: it was not fetched, its hashes were not
looked up, its nonce was not written as the checkpoint, or all of that was
done. -/
inductive Fate where
  | unfetched
  | unindexed
  | unmarked
  | marked
  deriving DecidableEq

/-- The reading of one block, with its steps. -/
structure Round where
  nonce : UInt64
  fate : Fate
  steps : List Step

theorem toNat_succ {nonce : UInt64} (small : nonce.toNat + 1 < UInt64.size) :
    (nonce + 1).toNat = nonce.toNat + 1 := by
  rw [UInt64.toNat_add]
  exact Nat.mod_eq_of_lt small

namespace Watch

variable {nonce latest lookBehind start : UInt64} {checkpoint : Option UInt64}

theorem successor_eq_ok_iff {next : UInt64} : successor nonce = .ok next ↔
    nonce.toNat + 1 < UInt64.size ∧ nonce + 1 = next := by
  unfold successor
  split
  case isTrue small => simp [small]
  case isFalse isLast => simp [isLast]

theorem successor_eq_error_iff {overflow : Overflow} :
    successor nonce = .error overflow ↔
      UInt64.size ≤ nonce.toNat + 1 ∧ overflow = .nonce := by
  unfold successor
  split
  case isTrue small => simp [Nat.not_le.2 small]
  case isFalse isLast => simp [Nat.not_lt.1 isLast, eq_comm]

theorem startNonce_eq_error_iff {overflow : Overflow} :
    startNonce checkpoint latest lookBehind = .error overflow ↔
      ∃ last, checkpoint = some last ∧ successor last = .error overflow := by
  cases checkpoint with
  | none => simp [startNonce, nextUnread, Pure.pure, Except.pure]
  | some last =>
      cases next : successor last <;>
        simp [startNonce, nextUnread, next, Bind.bind, Except.bind, Pure.pure,
          Except.pure]

/-- The last nonce of all. -/
def lastNonce : UInt64 :=
  18446744073709551615

theorem startNonce_last {last : UInt64} (isLast : UInt64.size ≤ last.toNat + 1) :
    startNonce (some last) latest lookBehind = .error .nonce :=
  startNonce_eq_error_iff.2 ⟨last, rfl, successor_eq_error_iff.2 ⟨isLast, rfl⟩⟩

theorem startNonce_eq_ok_iff {found : Option UInt64} :
    startNonce checkpoint latest lookBehind = .ok found ↔
      ∃ start, nextUnread checkpoint latest lookBehind = .ok start ∧
        (if start ≤ latest then some start else none) = found := by
  rw [startNonce, Except.bind_eq_ok_iff]
  simp [Pure.pure, Except.pure]

end Watch

/-- Whether a round has moved the checkpoint on. -/
def Round.isMarked (round : Round) : Bool :=
  round.fate = .marked

namespace Step

/-- The step that asks for the latest nonce of a shard. -/
def askLatest (world : World) (shard : UInt32) : Step :=
  ⟨world, .latestNonce shard⟩

/-- The step that reads a checkpoint. -/
def readCheckpoint (world : World) (shard : UInt32) : Step :=
  ⟨world, .read (Checkpoints.key shard)⟩

/-- The step that fetches a block. -/
def fetch (world : World) (shard : UInt32) (nonce : UInt64) : Step :=
  ⟨world, .block shard nonce⟩

/-- The step that looks up the hashes of transactions. -/
def lookUp (world : World) (transactions : List ObservedTransaction) : Step :=
  ⟨world, .readMany
    ((transactions.map ObservedTransaction.hash).map Routes.key)⟩

/-- The step that writes a checkpoint. -/
def mark (lifetimes : Lifetimes) (world : World) (shard : UInt32)
    (nonce : UInt64) : Step :=
  ⟨world, .write (Checkpoints.key shard) (Checkpoints.encode nonce)
    lifetimes.checkpoint⟩

end Step

namespace Surroundings

/-- Steps that deal with the transactions of a block: unless there are none, their
hashes are looked up, and then their outcomes are settled. -/
inductive Deals (surroundings : Surroundings)
    (transactions : List ObservedTransaction) : List Step → Prop
  | nothing (none : transactions = []) : Deals surroundings transactions []
  | found {world : World} {values : List (Option String)} {steps : List Step}
      (answer : (surroundings.answer world
        (Step.lookUp world transactions).request).1 = .ok values)
      (settles : ∀ step ∈ steps, step.request.Settles) :
      Deals surroundings transactions (.lookUp world transactions :: steps)

/-- The steps of a round are as its fate says. -/
inductive Reads (surroundings : Surroundings) (lifetimes : Lifetimes)
    (shard : UInt32) : Round → Prop
  | unfetched {world : World} {nonce : UInt64} {error : GatewayError}
      (fails : surroundings.block world.moment shard nonce = .error error) :
      Reads surroundings lifetimes shard
        ⟨nonce, .unfetched, [.fetch world shard nonce]⟩
  | unindexed {world later : World} {nonce : UInt64}
      {transactions : List ObservedTransaction} {error : CacheError}
      (fetched : surroundings.block world.moment shard nonce =
        .ok transactions)
      (fails : (surroundings.answer later
        (Step.lookUp later transactions).request).1 = .error error) :
      Reads surroundings lifetimes shard
        ⟨nonce, .unindexed,
          [.fetch world shard nonce, .lookUp later transactions]⟩
  | unmarked {world later : World} {nonce : UInt64}
      {transactions : List ObservedTransaction} {steps : List Step}
      {error : CacheError}
      (fetched : surroundings.block world.moment shard nonce =
        .ok transactions)
      (deals : surroundings.Deals transactions steps)
      (fails : surroundings.fault later.moment
        (.write (Checkpoints.key shard)) = some error) :
      Reads surroundings lifetimes shard
        ⟨nonce, .unmarked, .fetch world shard nonce ::
          (steps ++ [.mark lifetimes later shard nonce])⟩
  | marked {world later : World} {nonce : UInt64}
      {transactions : List ObservedTransaction} {steps : List Step}
      (fetched : surroundings.block world.moment shard nonce =
        .ok transactions)
      (deals : surroundings.Deals transactions steps)
      (works : surroundings.fault later.moment
        (.write (Checkpoints.key shard)) = none) :
      Reads surroundings lifetimes shard
        ⟨nonce, .marked, .fetch world shard nonce ::
          (steps ++ [.mark lifetimes later shard nonce])⟩

/-- Rounds that read blocks from one nonce on, each of them the next one, until
`count` blocks are read or a round does not reach its end. -/
structure ReadsFrom (surroundings : Surroundings) (lifetimes : Lifetimes)
    (shard : UInt32) (count : Nat) (start : UInt64) (rounds : List Round) :
    Prop where
  reads : ∀ round ∈ rounds, surroundings.Reads lifetimes shard round
  nonces : rounds.map (fun round => round.nonce.toNat) =
    List.range' start.toNat rounds.length
  atMost : rounds.length ≤ count
  goesOn : ∀ round ∈ rounds.dropLast, round.isMarked = true
  stops : rounds.length < count →
    ∃ round ∈ rounds.getLast?, round.isMarked = false

variable {surroundings : Surroundings} {lifetimes : Lifetimes}
  {steps : List Step} {shard : UInt32}

/-! ## One block -/

theorem Performs.reconcile_settles {hash batchId address : String}
    {outcome : ItemStatus} {result : Except BatchError Reconciled}
    (performs : surroundings.Performs
      (BatchRelay.reconcile lifetimes hash batchId address outcome) steps
      result) :
    ∀ step ∈ steps, step.request.Settles := by
  rcases performs.reconcile with ⟨front, world, rfl, handles⟩
  have reads (read : World) :
      (Step.readRecord read address batchId).request.Settles := by
    refine ⟨rfl, fun shard same => ?_, nofun⟩
    exact Records.key_ne_checkpointKey shard _ _ (Request.read.inj same)
  rw [List.forall_mem_append, List.forall_mem_singleton]
  constructor
  · cases handles with
    | unread | missing | stray | settled =>
        exact List.forall_mem_singleton.2 (reads _)
    | stored _ _ _ _ follows | unstored _ _ _ _ follows =>
        rw [List.forall_mem_cons, List.forall_mem_append,
          List.forall_mem_singleton]
        refine ⟨reads _, fun step member => ?_, ⟨rfl, nofun, ?_⟩⟩
        · rcases follows.follow_onlySends.sends step member with ⟨_, sends⟩
          exact sends.settles
        · intro key touched
          cases touched
          exact isTracked_recordKey _ _
  · refine ⟨rfl, nofun, ?_⟩
    intro key touched
    cases touched
    exact isTracked_routeKey hash

theorem Performs.applyObserved_settles {routes : List (String × Route)}
    {transactions : List ObservedTransaction} {attempts : List Attempt}
    (performs : surroundings.Performs
      (Watch.applyObserved lifetimes routes transactions) steps attempts) :
    ∀ step ∈ steps, step.request.Settles := by
  induction transactions generalizing steps attempts with
  | nil =>
      rcases performs_pure.1 performs with ⟨rfl, -⟩
      exact fun _ member => by cases member
  | cons transaction transactions induction =>
      unfold Watch.applyObserved at performs
      split at performs
      case h_1 =>
        rcases performs_bind.1 performs with ⟨_, _, _, rfl, attempt, rest⟩
        rcases performs_bind.1 attempt with ⟨_, _, _, rfl, reconciles, made⟩
        rcases performs_bind.1 rest with ⟨_, _, _, rfl, others, ends⟩
        rcases performs_pure.1 made with ⟨rfl, -⟩
        rcases performs_pure.1 ends with ⟨rfl, -⟩
        rw [List.append_nil, List.append_nil, List.forall_mem_append]
        exact ⟨reconciles.reconcile_settles, induction others⟩
      case h_2 => exact induction performs

theorem Performs.processBlock {transactions : List ObservedTransaction}
    {result : Except CacheError (List Attempt)}
    (performs : surroundings.Performs
      (Watch.processBlock lifetimes transactions) steps result) :
    (∃ attempts, result = .ok attempts ∧
        surroundings.Deals transactions steps) ∨
      ∃ world error, result = .error error ∧
        steps = [.lookUp world transactions] ∧
        (surroundings.answer world
          (Step.lookUp world transactions).request).1 = .error error := by
  unfold Watch.processBlock at performs
  split at performs
  case isTrue empty =>
    rcases performs_pure.1 performs with ⟨rfl, rfl⟩
    exact .inl ⟨[], rfl, .nothing empty⟩
  case isFalse =>
    rcases performs_bind.1 performs with ⟨_, routes, _, rfl, first, second⟩
    rcases performs_bind.1 first with ⟨_, answer, _, rfl, reads, ends⟩
    rcases performs_request.1 reads with ⟨world, rfl, same⟩
    cases answer with
    | error error =>
        rcases performs_pure.1 ends with ⟨rfl, rfl⟩
        rcases performs_pure.1 second with ⟨rfl, rfl⟩
        exact .inr ⟨world, error, rfl, rfl, same.symm⟩
    | ok values =>
        rcases performs_pure.1 ends with ⟨rfl, rfl⟩
        rcases performs_bind.1 second with ⟨_, attempts, _, rfl, applies, ends⟩
        rcases performs_pure.1 ends with ⟨rfl, rfl⟩
        refine .inl ⟨attempts, rfl, ?_⟩
        rw [List.append_nil, List.append_nil]
        exact .found same.symm applies.applyObserved_settles

theorem Deals.settles {transactions : List ObservedTransaction}
    (deals : surroundings.Deals transactions steps) :
    ∀ step ∈ steps, step.request.Settles := by
  cases deals with
  | nothing => exact fun _ member => by cases member
  | found _ settles =>
      exact List.forall_mem_cons.2 ⟨⟨rfl, nofun, nofun⟩, settles⟩

theorem Performs.processBlock_settles {transactions : List ObservedTransaction}
    {result : Except CacheError (List Attempt)}
    (performs : surroundings.Performs
      (Watch.processBlock lifetimes transactions) steps result) :
    ∀ step ∈ steps, step.request.Settles := by
  rcases performs.processBlock with ⟨_, -, deals⟩ | ⟨world, _, -, rfl, -⟩
  · exact deals.settles
  · exact List.forall_mem_singleton.2 ⟨rfl, nofun, nofun⟩

/-! ## The blocks of a visit -/

namespace ReadsFrom

variable {count : Nat} {nonce : UInt64} {round : Round} {rounds : List Round}

theorem none :
    surroundings.ReadsFrom lifetimes shard 0 nonce [] where
  reads _ member := by cases member
  nonces := rfl
  atMost := Nat.le_refl 0
  goesOn _ member := by cases member
  stops less := absurd less (Nat.lt_irrefl 0)

theorem single (reads : surroundings.Reads lifetimes shard round)
    (unmarked : round.isMarked = false) :
    surroundings.ReadsFrom lifetimes shard (count + 1) round.nonce [round] where
  reads := List.forall_mem_singleton.2 reads
  nonces := rfl
  atMost := Nat.le_add_left 1 count
  goesOn _ member := by cases member
  stops _ := ⟨round, rfl, unmarked⟩

theorem cons (reads : surroundings.Reads lifetimes shard round)
    (marked : round.isMarked = true)
    (small : round.nonce.toNat + 1 < UInt64.size)
    (rest : surroundings.ReadsFrom lifetimes shard count (round.nonce + 1)
      rounds) :
    surroundings.ReadsFrom lifetimes shard (count + 1) round.nonce
      (round :: rounds) where
  reads := List.forall_mem_cons.2 ⟨reads, rest.reads⟩
  nonces := by
    rw [List.map_cons, rest.nonces, toNat_succ small, List.length_cons,
      List.range'_succ]
  atMost := Nat.succ_le_succ rest.atMost
  goesOn := by
    intro other member
    cases rounds with
    | nil => cases member
    | cons head tail =>
        rcases List.mem_cons.1 member with rfl | inRest
        · exact marked
        · exact rest.goesOn other inRest
  stops less := by
    rcases rest.stops (Nat.lt_of_succ_lt_succ less) with ⟨last, isLast, stopped⟩
    refine ⟨last, ?_, stopped⟩
    rw [Option.mem_def] at isLast ⊢
    rw [List.getLast?_cons, isLast]
    rfl

end ReadsFrom

theorem Performs.readBlocks {count : Nat} {nonce : UInt64}
    {attempts : List Attempt}
    (performs : surroundings.Performs
      (Watch.readBlocks lifetimes shard count nonce) steps attempts)
    (small : nonce.toNat + count < UInt64.size) :
    ∃ rounds, steps = rounds.flatMap Round.steps ∧
      surroundings.ReadsFrom lifetimes shard count nonce rounds := by
  induction count generalizing nonce steps attempts with
  | zero =>
      rcases performs_pure.1 performs with ⟨rfl, -⟩
      exact ⟨[], rfl, .none⟩
  | succ count induction =>
      rcases performs_bind.1 performs with ⟨_, answer, _, rfl, fetches, second⟩
      rcases performs_request.1 fetches with ⟨world, rfl, same⟩
      cases answer with
      | error error =>
          rcases performs_pure.1 second with ⟨rfl, -⟩
          exact ⟨[⟨nonce, .unfetched, [.fetch world shard nonce]⟩], rfl,
            .single (.unfetched same.symm) rfl⟩
      | ok transactions =>
          rcases performs_bind.1 second with ⟨work, result, _, rfl, first, third⟩
          rcases first.processBlock with ⟨found, rfl, deals⟩ |
            ⟨later, error, rfl, rfl, fails⟩
          case inr =>
            rcases performs_pure.1 third with ⟨rfl, -⟩
            exact ⟨[⟨nonce, .unindexed, [.fetch world shard nonce,
              .lookUp later transactions]⟩], rfl,
              .single (.unindexed same.symm fails) rfl⟩
          case inl =>
            rcases performs_bind.1 third with ⟨_, stored, _, rfl, writes, fourth⟩
            rcases performs_request.1 writes with ⟨later, rfl, written⟩
            cases stored with
            | error error =>
                rcases performs_pure.1 fourth with ⟨rfl, -⟩
                have fails := answer_write_eq_error_iff.1 written.symm
                refine ⟨[⟨nonce, .unmarked, .fetch world shard nonce ::
                  (work ++ [.mark lifetimes later shard nonce])⟩], ?_,
                  .single (.unmarked same.symm deals fails) rfl⟩
                simp [Step.fetch, Step.mark, Checkpoints.encode]
            | ok _ =>
                rcases performs_bind.1 fourth with
                  ⟨_, others, _, rfl, reads, ends⟩
                rcases performs_pure.1 ends with ⟨rfl, -⟩
                have works := answer_write_eq_ok_iff.1 written.symm
                have smaller : nonce.toNat + 1 < UInt64.size := by omega
                have next := toNat_succ smaller
                rcases induction reads (by omega) with ⟨rounds, rfl, readsOn⟩
                refine ⟨⟨nonce, .marked, .fetch world shard nonce ::
                  (work ++ [.mark lifetimes later shard nonce])⟩ :: rounds, ?_,
                  .cons (.marked same.symm deals works) rfl smaller readsOn⟩
                simp [Step.fetch, Step.mark, Checkpoints.encode]

/-! ## A whole visit -/

/-- The rounds and the steps of a visit.  It has none when it cannot learn where
to begin, or when there is nothing to read. -/
inductive Visiting (surroundings : Surroundings) (lifetimes : Lifetimes)
    (lookBehind : UInt64) (shard : UInt32) : List Round → List Step → Prop
  | unasked {world : World} {error : GatewayError}
      (fails : surroundings.latestNonce world.moment shard = .error error) :
      Visiting surroundings lifetimes lookBehind shard []
        [.askLatest world shard]
  | unread {world later : World} {latest : UInt64} {error : CacheError}
      (asked : surroundings.latestNonce world.moment shard = .ok latest)
      (fails : (surroundings.run (Checkpoints.get shard) later).1 =
        .error error) :
      Visiting surroundings lifetimes lookBehind shard []
        [.askLatest world shard, .readCheckpoint later shard]
  | reached {world later : World} {latest : UInt64} {checkpoint : Option UInt64}
      (asked : surroundings.latestNonce world.moment shard = .ok latest)
      (read : (surroundings.run (Checkpoints.get shard) later).1 =
        .ok checkpoint)
      (upToDate : Watch.startNonce checkpoint latest lookBehind = .ok none) :
      Visiting surroundings lifetimes lookBehind shard []
        [.askLatest world shard, .readCheckpoint later shard]
  | begun {world later : World} {latest start : UInt64}
      {checkpoint : Option UInt64} {rounds : List Round}
      (asked : surroundings.latestNonce world.moment shard = .ok latest)
      (read : (surroundings.run (Checkpoints.get shard) later).1 =
        .ok checkpoint)
      (begins : Watch.startNonce checkpoint latest lookBehind = .ok (some start))
      (reads : surroundings.ReadsFrom lifetimes shard
        (latest.toNat - start.toNat + 1) start rounds) :
      Visiting surroundings lifetimes lookBehind shard rounds
        (.askLatest world shard :: .readCheckpoint later shard ::
          rounds.flatMap Round.steps)

theorem Performs.getCheckpoint {result : Except CacheError (Option UInt64)}
    (performs : surroundings.Performs (Checkpoints.get shard) steps result) :
    ∃ world, steps = [.readCheckpoint world shard] ∧
      (surroundings.run (Checkpoints.get shard) world).1 = result := by
  apply performs.single
  rintro (error | _ | text) <;> exact ⟨_, rfl⟩

theorem le_of_startNonce {checkpoint : Option UInt64}
    {latest lookBehind start : UInt64}
    (begins : Watch.startNonce checkpoint latest lookBehind = .ok (some start)) :
    start ≤ latest := by
  obtain ⟨first, -, ends⟩ := Watch.startNonce_eq_ok_iff.1 begins
  obtain ⟨order, same⟩ := Option.ite_none_right_eq_some.1 ends
  cases same
  exact order

/-- The steps of a visit and what comes of it: it has nothing to read, it finds a
checkpoint after which there is no nonce, or it reads blocks. -/
inductive Visits (surroundings : Surroundings) (lifetimes : Lifetimes)
    (lookBehind : UInt64) (shard : UInt32) :
    List Step → Except Overflow (List Attempt) → Prop
  | idle {steps : List Step}
      (visiting : surroundings.Visiting lifetimes lookBehind shard [] steps) :
      Visits surroundings lifetimes lookBehind shard steps (.ok [])
  | overflowed {world later : World} {latest checkpoint : UInt64}
      {overflow : Overflow}
      (asked : surroundings.latestNonce world.moment shard = .ok latest)
      (read : (surroundings.run (Checkpoints.get shard) later).1 =
        .ok (some checkpoint))
      (isLast : Watch.successor checkpoint = .error overflow) :
      Visits surroundings lifetimes lookBehind shard
        [.askLatest world shard, .readCheckpoint later shard] (.error overflow)
  | begun {world later : World} {latest start : UInt64}
      {checkpoint : Option UInt64} {steps : List Step} {attempts : List Attempt}
      (asked : surroundings.latestNonce world.moment shard = .ok latest)
      (read : (surroundings.run (Checkpoints.get shard) later).1 =
        .ok checkpoint)
      (begins : Watch.startNonce checkpoint latest lookBehind = .ok (some start))
      (performs : surroundings.Performs (Watch.readBlocks lifetimes shard
        (latest.toNat - start.toNat + 1) start) steps attempts) :
      Visits surroundings lifetimes lookBehind shard
        (.askLatest world shard :: .readCheckpoint later shard :: steps)
        (.ok attempts)

theorem Performs.visit {lookBehind : UInt64}
    {result : Except Overflow (List Attempt)}
    (performs : surroundings.Performs
      (Watch.visit lifetimes lookBehind shard) steps result) :
    surroundings.Visits lifetimes lookBehind shard steps result := by
  rcases performs_bind.1 performs with ⟨_, answer, _, rfl, asks, second⟩
  rcases performs_request.1 asks with ⟨world, rfl, same⟩
  cases answer with
  | error error =>
      rcases performs_pure.1 second with ⟨rfl, rfl⟩
      exact .idle (.unasked same.symm)
  | ok latest =>
      have asked : surroundings.latestNonce world.moment shard = .ok latest :=
        same.symm
      rcases performs_bind.1 second with ⟨_, mark, _, rfl, reads, third⟩
      rcases reads.getCheckpoint with ⟨later, rfl, read⟩
      cases mark with
      | error error =>
          rcases performs_pure.1 third with ⟨rfl, rfl⟩
          exact .idle (.unread asked read)
      | ok checkpoint =>
          dsimp only at third
          split at third
          case h_1 overflow overflows =>
            rcases performs_pure.1 third with ⟨rfl, rfl⟩
            rcases Watch.startNonce_eq_error_iff.1 overflows with
              ⟨last, rfl, isLast⟩
            exact .overflowed asked read isLast
          case h_2 upToDate =>
            rcases performs_pure.1 third with ⟨rfl, rfl⟩
            exact .idle (.reached asked read upToDate)
          case h_3 start begins =>
            rcases performs_bind.1 third with ⟨_, _, _, rfl, blocks, ends⟩
            rcases performs_pure.1 ends with ⟨rfl, rfl⟩
            rw [List.append_nil]
            exact .begun asked read begins blocks

/-- The rounds of a visit that reads no block of the last nonce of all. -/
theorem Visits.rounds {lookBehind : UInt64} {attempts : List Attempt}
    (visits : surroundings.Visits lifetimes lookBehind shard steps (.ok attempts))
    (small : ∀ moment latest,
      surroundings.latestNonce moment shard = .ok latest →
      latest.toNat + 1 < UInt64.size) :
    ∃ rounds,
      surroundings.Visiting lifetimes lookBehind shard rounds steps := by
  cases visits with
  | idle visiting => exact ⟨[], visiting⟩
  | begun asked read begins performs =>
      have order := UInt64.le_iff_toNat_le.1 (le_of_startNonce begins)
      have bound := small _ _ asked
      rcases performs.readBlocks (by omega) with ⟨rounds, rfl, readsFrom⟩
      exact ⟨rounds, .begun asked read begins readsFrom⟩

/-! ## Overflows -/

/-- Whether steps find a checkpoint after which there is no nonce. -/
def FindsLast (surroundings : Surroundings) (steps : List Step) : Prop :=
  ∃ world shard checkpoint, .readCheckpoint world shard ∈ steps ∧
    (surroundings.run (Checkpoints.get shard) world).1 = .ok (some checkpoint) ∧
    UInt64.size ≤ checkpoint.toNat + 1

section Overflows

variable {lookBehind : UInt64} {more : List Step}

theorem findsLast_append : surroundings.FindsLast (steps ++ more) ↔
    surroundings.FindsLast steps ∨ surroundings.FindsLast more := by
  simp only [FindsLast, List.mem_append, or_and_right, exists_or]

theorem not_findsLast (unread : ∀ step ∈ steps, ∀ shard,
      step.request ≠ .read (Checkpoints.key shard)) :
    ¬surroundings.FindsLast steps := by
  rintro ⟨world, shard, _, member, -⟩
  exact unread _ member shard rfl

theorem findsLast_readCheckpoint {later : World} :
    surroundings.FindsLast [.readCheckpoint later shard] ↔ ∃ checkpoint,
      (surroundings.run (Checkpoints.get shard) later).1 = .ok (some checkpoint) ∧
        UInt64.size ≤ checkpoint.toNat + 1 := by
  constructor
  · rintro ⟨world, other, checkpoint, member, read, isLast⟩
    obtain ⟨rfl, same⟩ := Step.mk.inj (List.mem_singleton.1 member)
    cases Checkpoints.key_inj (Request.read.inj same)
    exact ⟨checkpoint, read, isLast⟩
  · rintro ⟨checkpoint, read, isLast⟩
    exact ⟨later, shard, checkpoint, List.mem_cons_self, read, isLast⟩

theorem findsLast_visit {world later : World} :
    surroundings.FindsLast
        (.askLatest world shard :: .readCheckpoint later shard :: more) ↔
      (∃ checkpoint, (surroundings.run (Checkpoints.get shard) later).1 =
          .ok (some checkpoint) ∧ UInt64.size ≤ checkpoint.toNat + 1) ∨
        surroundings.FindsLast more := by
  have asks : ¬surroundings.FindsLast [.askLatest world shard] :=
    not_findsLast (List.forall_mem_singleton.2 fun _ => nofun)
  rw [← findsLast_readCheckpoint, ← findsLast_append, ← List.singleton_append,
    findsLast_append, or_iff_right asks, List.singleton_append]

theorem Performs.readBlocks_unread {count : Nat} {nonce : UInt64}
    {attempts : List Attempt}
    (performs : surroundings.Performs
      (Watch.readBlocks lifetimes shard count nonce) steps attempts) :
    ∀ step ∈ steps, ∀ other, step.request ≠ .read (Checkpoints.key other) := by
  induction count generalizing nonce steps attempts with
  | zero =>
      rcases performs_pure.1 performs with ⟨rfl, -⟩
      exact fun _ member => by cases member
  | succ count induction =>
      rcases performs_bind.1 performs with ⟨_, answer, _, rfl, fetches, second⟩
      rcases performs_request.1 fetches with ⟨world, rfl, -⟩
      rw [List.singleton_append, List.forall_mem_cons]
      refine ⟨fun _ => nofun, ?_⟩
      cases answer with
      | error error =>
          rcases performs_pure.1 second with ⟨rfl, -⟩
          exact fun _ member => by cases member
      | ok transactions =>
          rcases performs_bind.1 second with ⟨work, result, _, rfl, first, third⟩
          rw [List.forall_mem_append]
          refine ⟨fun step member =>
            (first.processBlock_settles step member).unread, ?_⟩
          cases result with
          | error error =>
              rcases performs_pure.1 third with ⟨rfl, -⟩
              exact fun _ member => by cases member
          | ok found =>
              rcases performs_bind.1 third with ⟨_, stored, _, rfl, writes, fourth⟩
              rcases performs_request.1 writes with ⟨later, rfl, -⟩
              rw [List.singleton_append, List.forall_mem_cons]
              refine ⟨fun _ => nofun, ?_⟩
              cases stored with
              | error error =>
                  rcases performs_pure.1 fourth with ⟨rfl, -⟩
                  exact fun _ member => by cases member
              | ok _ =>
                  rcases performs_bind.1 fourth with ⟨_, _, _, rfl, reads, ends⟩
                  rcases performs_pure.1 ends with ⟨rfl, -⟩
                  rw [List.append_nil]
                  exact induction reads

/-- A visit that has a start, or nothing to read, does not find the last nonce. -/
theorem not_findsLast_visit {world later : World} {latest : UInt64}
    {checkpoint found : Option UInt64}
    (read : (surroundings.run (Checkpoints.get shard) later).1 = .ok checkpoint)
    (starts : Watch.startNonce checkpoint latest lookBehind = .ok found)
    (others : ¬surroundings.FindsLast more) :
    ¬surroundings.FindsLast
      (.askLatest world shard :: .readCheckpoint later shard :: more) := by
  rw [findsLast_visit]
  rintro (⟨last, alsoRead, isLast⟩ | finds)
  · rw [read] at alsoRead
    cases alsoRead
    rw [Watch.startNonce_last isLast] at starts
    cases starts
  · exact others finds

/-- A visit overflows just when it finds a checkpoint after which there is no
nonce. -/
theorem Visits.eq_error_iff {result : Except Overflow (List Attempt)}
    {overflow : Overflow}
    (visits : surroundings.Visits lifetimes lookBehind shard steps result) :
    result = .error overflow ↔
      surroundings.FindsLast steps ∧ overflow = .nonce := by
  have nothing : ¬surroundings.FindsLast [] := not_findsLast nofun
  cases visits with
  | @overflowed world later _ _ _ asked read isLast =>
      obtain ⟨tooLarge, rfl⟩ := Watch.successor_eq_error_iff.1 isLast
      have finds : surroundings.FindsLast
          [.askLatest world shard, .readCheckpoint later shard] :=
        findsLast_visit.2 (.inl ⟨_, read, tooLarge⟩)
      simp [finds, eq_comm]
  | begun asked read begins performs =>
      exact iff_of_false nofun (not_and.2 fun finds =>
        absurd finds (not_findsLast_visit read begins
          (not_findsLast performs.readBlocks_unread)))
  | idle visiting =>
      refine iff_of_false nofun (not_and.2 fun finds => absurd finds ?_)
      cases visiting with
      | unasked fails =>
          exact not_findsLast (List.forall_mem_singleton.2 fun _ => nofun)
      | unread asked fails =>
          rw [findsLast_visit, fails]
          rintro (⟨_, read, -⟩ | finds)
          · cases read
          · exact nothing finds
      | reached asked read upToDate =>
          exact not_findsLast_visit read upToDate nothing
      | begun asked read begins _ => exact not_findsLast_visit read begins nothing

theorem Performs.visitAll_eq_error_iff {shards : List UInt32}
    {result : Except Overflow (List Attempt)} {overflow : Overflow}
    (performs : surroundings.Performs
      (Watch.visitAll lifetimes lookBehind shards) steps result) :
    result = .error overflow ↔
      surroundings.FindsLast steps ∧ overflow = .nonce := by
  induction shards generalizing steps result with
  | nil =>
      rcases performs_pure.1 performs with ⟨rfl, rfl⟩
      exact iff_of_false nofun (not_and.2 fun finds =>
        absurd finds (not_findsLast nofun))
  | cons shard shards induction =>
      rcases performs_bind.1 performs with ⟨front, visited, _, rfl, visits, rest⟩
      have ofVisit (overflow : Overflow) : visited = .error overflow ↔
          surroundings.FindsLast front ∧ overflow = .nonce :=
        visits.visit.eq_error_iff
      rw [findsLast_append]
      cases visited with
      | error found =>
          rcases performs_pure.1 rest with ⟨rfl, rfl⟩
          obtain ⟨finds, rfl⟩ := (ofVisit found).1 rfl
          simp [finds, eq_comm]
      | ok attempts =>
          rcases performs_bind.1 rest with ⟨back, others, _, rfl, tours, ends⟩
          rcases performs_pure.1 ends with ⟨rfl, rfl⟩
          have notFront : ¬surroundings.FindsLast front := fun finds =>
            absurd ((ofVisit .nonce).2 ⟨finds, rfl⟩) nofun
          rw [List.append_nil, or_iff_right notFront, ← induction tours]
          cases others <;> simp [Except.map]

/-- A tick overflows just when it finds a checkpoint after which there is no
nonce. -/
theorem Performs.tick_eq_error_iff {settings : WatchSettings}
    {result : Except Overflow Bool} {overflow : Overflow}
    (performs : surroundings.Performs (Watch.tick lifetimes settings) steps
      result) :
    result = .error overflow ↔
      surroundings.FindsLast steps ∧ overflow = .nonce := by
  rcases performs_bind.1 performs with ⟨_, free, _, rfl, begins, rest⟩
  rcases performs_request.1 begins with ⟨world, rfl, -⟩
  have begun : ¬surroundings.FindsLast [⟨world, .beginTick⟩] :=
    not_findsLast (List.forall_mem_singleton.2 fun _ => nofun)
  have ended (later : World) : ¬surroundings.FindsLast [⟨later, .endTick⟩] :=
    not_findsLast (List.forall_mem_singleton.2 fun _ => nofun)
  rw [findsLast_append, or_iff_right begun]
  cases free with
  | false =>
      rcases performs_pure.1 rest with ⟨rfl, rfl⟩
      exact iff_of_false nofun (not_and.2 fun finds =>
        absurd finds (not_findsLast nofun))
  | true =>
      rcases performs_bind.1 rest with ⟨passing, passed, _, rfl, passes, rest⟩
      rcases performs_bind.1 rest with ⟨_, _, _, rfl, finishes, ends⟩
      rcases performs_request.1 finishes with ⟨later, rfl, -⟩
      rcases performs_pure.1 ends with ⟨rfl, rfl⟩
      rw [List.append_nil, findsLast_append, or_iff_left (ended later)]
      rcases performs_bind.1 passes with ⟨touring, toured, _, rfl, tours, rest⟩
      have ofTour : toured = .error overflow ↔
          surroundings.FindsLast touring ∧ overflow = .nonce :=
        tours.visitAll_eq_error_iff
      cases toured with
      | error found =>
          rcases performs_pure.1 rest with ⟨rfl, rfl⟩
          rw [List.append_nil, ← ofTour]
          simp [Except.map]
      | ok attempts =>
          rcases performs_bind.1 rest with ⟨closing, _, _, rfl, publishes, ends⟩
          rcases performs_pure.1 ends with ⟨rfl, rfl⟩
          have silent : ¬surroundings.FindsLast closing := by
            apply not_findsLast
            intro step member other
            obtain ⟨event, isEvent⟩ := publishes.request_of_publishAll member
            rw [isEvent]
            exact nofun
          rw [List.append_nil, findsLast_append, or_iff_left silent, ← ofTour]
          simp [Except.map]

end Overflows

end Surroundings

end BatchRelay
