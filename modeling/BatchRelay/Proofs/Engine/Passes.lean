import BatchRelay.Engine.Sweep
import BatchRelay.Engine.Watch
import BatchRelay.Proofs.Engine.Contents

/-!
# Ticks and sweeps by their parts

Apart from reconciliations, ticks and sweeps make requests aside only, those that
change neither records nor routes and send nothing.  `Traversal` lists what has
to be shown of a property of activities so that all ticks and sweeps have it.
The property may depend on the routes that a pass has found and still works on.
-/

namespace BatchRelay

/-- Whether a request has nothing to do with records, routes and sending. -/
def Request.isAside : Request → Bool
  | .write key _ _ => !isTracked key
  | .writeIfAbsent key _ _ => !isTracked key
  | .delete key => !isTracked key
  | .deleteIfEquals key _ => !isTracked key
  | .send _ _ => false
  | _ => true

theorem Request.touched?_of_isAside {request : Request} {key : String}
    (isAside : request.isAside = true) (tracked : isTracked key = true) :
    request.touched? ≠ some key := by
  intro touched
  cases request with
  | write | writeIfAbsent | delete | deleteIfEquals =>
      cases touched
      simp [Request.isAside, tracked] at isAside
  | _ => cases touched

theorem ObservedStatus.isTerminal_of_outcome? {status : ObservedStatus}
    {outcome : ItemStatus} (final : status.outcome? = some outcome) :
    outcome.isTerminal = true := by
  cases status <;> cases final <;> rfl

theorem Sweep.isTerminal_of_outcome?
    {answer : Except GatewayError (Option ObservedTransaction)}
    {outcome : ItemStatus} (final : outcome? answer = some outcome) :
    outcome.isTerminal = true := by
  unfold outcome? at final
  split at final
  case h_1 => exact ObservedStatus.isTerminal_of_outcome? final
  case h_2 =>
    cases final
    rfl
  case h_3 => cases final

/-- What has to be shown of a property of activities so that passes have it. -/
structure Traversal (lifetimes : Lifetimes)
    (has : ∀ {α : Type}, List (String × Route) → Activity α → Prop) :
    Prop where
  pure {α : Type} {routes : List (String × Route)} (result : α) :
    has routes (Pure.pure result : Activity α)
  bind {α β : Type} {routes : List (String × Route)} {first : Activity α}
      {next : α → Activity β} :
    has routes first → (∀ result, has routes (next result)) →
      has routes (first >>= next)
  request {routes : List (String × Route)} {request : Request} :
    request.isAside = true → has routes (Activity.request request)
  /-- Work that begins with a look-up goes on with the routes that were found. -/
  readMany {α : Type} {keys : List String}
      (taken : List (Option String) → List (String × Route))
      {next : Except CacheError (List (Option String)) → Activity α} :
    (∀ (read : String → Option String), ∀ pair ∈ taken (keys.map read),
      (read (Routes.key pair.1)).map Route.decode = some pair.2) →
    (∀ error, has [] (next (.error error))) →
    (∀ values, has (taken values) (next (.ok values))) →
    has [] (Activity.request (.readMany keys) >>= next)
  reconcile {routes : List (String × Route)} {hash : String} {route : Route}
      {outcome : ItemStatus} :
    (hash, route) ∈ routes → outcome.isTerminal = true →
      has routes
        (reconcile lifetimes hash route.batchId route.address outcome)

namespace Traversal

theorem mem_of_lookup {routes : List (String × Route)} {hash : String}
    {route : Route} (located : routes.lookup hash = some route) :
    (hash, route) ∈ routes := by
  obtain ⟨front, back, rfl, -⟩ := List.lookup_eq_some_iff.1 located
  simp

theorem pairs_map {names : List String} {name : String → String}
    {read : String → Option String} {pair : String × Route}
    (member : pair ∈ Routes.pairs names ((names.map name).map read)) :
    (read (name pair.1)).map Route.decode = some pair.2 := by
  induction names with
  | nil => cases member
  | cons head tail induction =>
      simp only [Routes.pairs, List.map_cons, List.zip_cons_cons] at member
      obtain ⟨⟨key, value⟩, zipped, isPair⟩ := List.mem_filterMap.1 member
      obtain ⟨text, isText, rfl⟩ := Option.map_eq_some_iff.1 isPair
      obtain same | inTail := List.mem_cons.1 zipped
      · cases same
        exact congrArg (Option.map Route.decode) isText
      · exact induction (List.mem_filterMap.2 ⟨_, inTail, isPair⟩)

/-- The routes that a sweep finds under keys, each with its hash. -/
def hashed (keys : List String) (values : List (Option String)) :
    List (String × Route) :=
  (Routes.pairs keys values).filterMap fun (key, route) =>
    (Routes.hash? key).map fun hash => (hash, route)

theorem hashed_eq (keys : List String) (read : String → Option String) :
    hashed keys (keys.map read) = keys.filterMap fun key =>
      (Routes.hash? key).bind fun hash =>
        (read key).map fun text => (hash, Route.decode text) := by
  induction keys with
  | nil => rfl
  | cons key keys induction =>
      simp only [hashed, Routes.pairs, List.map_cons, List.zip_cons_cons,
        List.filterMap_cons] at induction ⊢
      cases read key <;> cases hash : Routes.hash? key <;> simp [induction, hash]

theorem mem_hashed {keys : List String} {read : String → Option String} {hash : String}
    {route : Route} :
    (hash, route) ∈ hashed keys (keys.map read) ↔ Routes.key hash ∈ keys ∧
      (read (Routes.key hash)).map Route.decode = some route := by
  rw [hashed_eq, List.mem_filterMap]
  constructor
  · rintro ⟨key, member, isPair⟩
    obtain ⟨held, isHash, isPair⟩ := Option.bind_eq_some_iff.1 isPair
    obtain ⟨text, isText, same⟩ := Option.map_eq_some_iff.1 isPair
    cases same
    cases Routes.key_of_hash? isHash
    exact ⟨member, by rw [isText, Option.map_some]⟩
  · rintro ⟨member, isRoute⟩
    obtain ⟨text, isText, rfl⟩ := Option.map_eq_some_iff.1 isRoute
    exact ⟨_, member, by rw [Routes.hash?_key, Option.bind_some, isText, Option.map_some]⟩

theorem hashed_map {keys : List String} {read : String → Option String}
    {pair : String × Route} (member : pair ∈ hashed keys (keys.map read)) :
    (read (Routes.key pair.1)).map Route.decode = some pair.2 :=
  (mem_hashed.1 member).2

theorem pairwise_hashed {relation : String → String → Prop} {keys : List String}
    (ordered : keys.Pairwise relation) (read : String → Option String) :
    (hashed keys (keys.map read)).Pairwise fun left right =>
      relation (Routes.key left.1) (Routes.key right.1) := by
  have isKey {key : String} {pair : String × Route}
      (found : ((Routes.hash? key).bind fun hash =>
        (read key).map fun text => (hash, Route.decode text)) = some pair) :
      key = Routes.key pair.1 := by
    obtain ⟨hash, isHash, isPair⟩ := Option.bind_eq_some_iff.1 found
    obtain ⟨text, -, rfl⟩ := Option.map_eq_some_iff.1 isPair
    exact Routes.key_of_hash? isHash
  rw [hashed_eq, List.pairwise_filterMap]
  apply ordered.imp
  intro key later related pair found other alsoFound
  rw [← isKey found, ← isKey alsoFound]
  exact related

variable {lifetimes : Lifetimes}
  {has : ∀ {α : Type}, List (String × Route) → Activity α → Prop}
  (traversal : Traversal lifetimes has) {routes : List (String × Route)}

include traversal

theorem attempt {hash : String} {route : Route} {outcome : ItemStatus}
    (member : (hash, route) ∈ routes) (final : outcome.isTerminal = true) :
    has routes (Attempt.make lifetimes hash route outcome) :=
  traversal.bind (traversal.reconcile member final) fun _ => traversal.pure _

theorem publishAll (events : List BatchUpdated) :
    has routes (publishAll events) := by
  induction events with
  | nil => exact traversal.pure _
  | cons event events induction =>
      exact traversal.bind (traversal.request rfl) fun _ => induction

/-! ## Watching -/

theorem applyObserved {found : List (String × Route)}
    (transactions : List ObservedTransaction) :
    has found (Watch.applyObserved lifetimes found transactions) := by
  induction transactions with
  | nil => exact traversal.pure _
  | cons transaction transactions induction =>
      unfold Watch.applyObserved
      split
      case h_1 route outcome located final =>
        have attempt := traversal.attempt (mem_of_lookup located)
          (ObservedStatus.isTerminal_of_outcome? final)
        refine traversal.bind attempt fun _ => ?_
        exact traversal.bind induction fun _ => traversal.pure _
      case h_2 => exact induction

theorem processBlock (transactions : List ObservedTransaction) :
    has [] (Watch.processBlock lifetimes transactions) := by
  unfold Watch.processBlock
  split
  case isTrue => exact traversal.pure _
  case isFalse =>
    rw [Routes.getMany, bind_assoc]
    refine traversal.readMany (Routes.pairs _) (fun _ _ => pairs_map)
      (fun _ => ?_) fun values => ?_
    · exact traversal.pure _
    · rw [pure_bind]
      exact traversal.bind (traversal.applyObserved _) fun _ => traversal.pure _

theorem readBlocks (shard : UInt32) (count : Nat) (nonce : UInt64) :
    has [] (Watch.readBlocks lifetimes shard count nonce) := by
  induction count generalizing nonce with
  | zero => exact traversal.pure _
  | succ count induction =>
      refine traversal.bind (traversal.request rfl) fun answer => ?_
      cases answer with
      | error error => exact traversal.pure _
      | ok transactions =>
          refine traversal.bind (traversal.processBlock transactions)
            fun result => ?_
          cases result with
          | error error => exact traversal.pure _
          | ok attempts =>
              refine traversal.bind (traversal.request ?_) fun stored => ?_
              · simp [Request.isAside, isTracked]
              · cases stored with
                | error error => exact traversal.pure _
                | ok _ =>
                    exact traversal.bind (induction _) fun _ => traversal.pure _

theorem checkpoint (shard : UInt32) : has routes (Checkpoints.get shard) := by
  refine traversal.bind (traversal.request rfl) fun answer => ?_
  obtain error | value := answer
  · exact traversal.pure _
  · cases value <;> exact traversal.pure _

theorem visit (lookBehind : UInt64) (shard : UInt32) :
    has [] (Watch.visit lifetimes lookBehind shard) := by
  refine traversal.bind (traversal.request rfl) fun answer => ?_
  cases answer with
  | error error => exact traversal.pure _
  | ok latest =>
      refine traversal.bind (traversal.checkpoint shard) fun checkpoint => ?_
      cases checkpoint with
      | error error => exact traversal.pure _
      | ok checkpoint =>
          dsimp only
          split
          case h_1 => exact traversal.pure _
          case h_2 => exact traversal.pure _
          case h_3 start _ =>
            exact traversal.bind (traversal.readBlocks _ _ _) fun _ =>
              traversal.pure _

theorem visitAll (lookBehind : UInt64) (shards : List UInt32) :
    has [] (Watch.visitAll lifetimes lookBehind shards) := by
  induction shards with
  | nil => exact traversal.pure _
  | cons shard shards induction =>
      refine traversal.bind (traversal.visit lookBehind shard) fun result => ?_
      cases result with
      | error overflow => exact traversal.pure _
      | ok attempts => exact traversal.bind induction fun _ => traversal.pure _

theorem tick (settings : WatchSettings) :
    has [] (Watch.tick lifetimes settings) := by
  refine traversal.bind (traversal.request rfl) fun free => ?_
  cases free with
  | false => exact traversal.pure _
  | true =>
      refine traversal.bind ?_ fun _ => ?_
      · refine traversal.bind (traversal.visitAll _ _) fun result => ?_
        cases result with
        | error overflow => exact traversal.pure _
        | ok attempts =>
            exact traversal.bind (traversal.publishAll _) fun _ =>
              traversal.pure _
      · exact traversal.bind (traversal.request rfl) fun _ => traversal.pure _

/-! ## Sweeping -/

theorem applyDue (threshold : Int) (now : Instant)
    {found routes : List (String × Route)}
    (covered : ∀ pair ∈ found, pair ∈ routes) :
    has routes (Sweep.applyDue lifetimes threshold now found) := by
  induction found with
  | nil => exact traversal.pure _
  | cons pair found induction =>
      obtain ⟨hash, route⟩ := pair
      obtain ⟨member, covered⟩ := List.forall_mem_cons.1 covered
      have others := induction covered
      unfold Sweep.applyDue
      split
      case isFalse => exact others
      case isTrue =>
        refine traversal.bind (traversal.request rfl) fun answer => ?_
        split
        case h_2 => exact others
        case h_1 outcome final =>
          have attempt := traversal.attempt member
            (Sweep.isTerminal_of_outcome? final)
          refine traversal.bind attempt fun _ => ?_
          exact traversal.bind others fun _ => traversal.pure _

theorem pass (threshold : Int) (now : Instant) :
    has [] (Sweep.pass lifetimes threshold now) := by
  rw [Sweep.pass, Routes.all, bind_assoc]
  refine traversal.bind (traversal.request rfl) fun scanned => ?_
  cases scanned with
  | error error => exact traversal.pure _
  | ok keys =>
      simp only [bind_assoc]
      refine traversal.readMany (hashed keys) (fun _ _ => hashed_map)
        (fun _ => traversal.pure _) fun values => ?_
      rw [pure_bind]
      refine traversal.bind (traversal.applyDue _ _ fun _ => id) fun _ => ?_
      exact traversal.bind (traversal.publishAll _) fun _ => traversal.pure _

theorem lease {α : Type} {lease : Lease} {work : Activity α}
    (kept : has [] work) : has [] (lease.run work) := by
  refine traversal.bind (traversal.request rfl) fun token => ?_
  refine traversal.bind (traversal.request ?_) fun answer => ?_
  · simp [Request.isAside, isTracked]
  · obtain error | taken := answer
    · exact traversal.pure _
    · cases taken with
      | false => exact traversal.pure _
      | true =>
          refine traversal.bind kept fun _ => ?_
          refine traversal.bind (traversal.request ?_) fun _ => traversal.pure _
          simp [Request.isAside, isTracked]

theorem sweepAt (settings : SweepSettings) (now : Instant) :
    has [] (Sweep.runAt lifetimes settings now) := by
  refine traversal.bind (traversal.lease (traversal.pass _ _)) fun result => ?_
  split <;> exact traversal.pure _

end Traversal

end BatchRelay
