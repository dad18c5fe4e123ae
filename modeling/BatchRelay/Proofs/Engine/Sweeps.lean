import BatchRelay.Proofs.Cache.Operations
import BatchRelay.Proofs.Engine.Changes
import BatchRelay.Proofs.Engine.Leases

/-!
# Sweeps by their exits

A sweep takes the routes that it has found one after the other, and each of them leaves
the loop by one of three exits: it is too young, the lookup of its hash gives no outcome,
or the outcome is tried.  Only the first of these does without a lookup.  What is said of
a hash that a sweep has looked up is said of its one route, for no two routes that were
found have the same hash.
-/

namespace BatchRelay

/-- The hash that a step looks up. -/
def Step.lookedUp? (step : Step) : Option String :=
  match step.request with
  | .lookup hash => some hash
  | _ => none

/-- Whether a step is aside and looks nothing up. -/
structure Step.Idle (step : Step) : Prop where
  aside : step.request.isAside = true
  unasked : step.lookedUp? = none

/-- The routes that are old enough to be asked about. -/
def Sweep.due (threshold : Int) (now : Instant) (found : List (String × Route)) :
    List (String × Route) :=
  found.filter fun pair => isDue threshold now pair.2

theorem Sweep.due_cons_of_young {threshold : Int} {now : Instant} {hash : String}
    {route : Route} (early : isDue threshold now route = false)
    (found : List (String × Route)) :
    due threshold now ((hash, route) :: found) = due threshold now found := by
  rw [due, List.filter_cons, if_neg (Bool.eq_false_iff.1 early), due]

theorem Sweep.due_cons_of_due {threshold : Int} {now : Instant} {hash : String}
    {route : Route} (isDue : Sweep.isDue threshold now route = true)
    (found : List (String × Route)) :
    due threshold now ((hash, route) :: found) = (hash, route) :: due threshold now found := by
  rw [due, List.filter_cons, if_pos isDue, due]

theorem Sweep.outcome?_eq_dropped_iff
    {answer : Except GatewayError (Option ObservedTransaction)} :
    outcome? answer = some .dropped ↔ answer = .ok none := by
  match answer with
  | .ok (some transaction) =>
      cases status : transaction.status <;> simp [outcome?, ObservedStatus.outcome?, status]
  | .ok none => simp [outcome?]
  | .error _ => simp [outcome?]

namespace Surroundings

/-- Whether steps look a hash up and the network gives this answer. -/
def Learns (surroundings : Surroundings) (steps : List Step) (hash : String)
    (answer : Except GatewayError (Option ObservedTransaction)) : Prop :=
  ∃ world, ⟨world, .lookup hash⟩ ∈ steps ∧
    surroundings.lookup world.moment hash = answer

/-- The trials and the steps of a sweep over routes that were found. -/
inductive Sweeps (surroundings : Surroundings) (lifetimes : Lifetimes) (threshold : Int)
    (now : Instant) : List (String × Route) → List Trial → List Step → Prop
  | done : Sweeps surroundings lifetimes threshold now [] [] []
  | young {hash : String} {route : Route} {found : List (String × Route)}
      {trials : List Trial} {steps : List Step}
      (early : Sweep.isDue threshold now route = false)
      (rest : Sweeps surroundings lifetimes threshold now found trials steps) :
      Sweeps surroundings lifetimes threshold now ((hash, route) :: found) trials steps
  | left {hash : String} {route : Route} {found : List (String × Route)}
      {trials : List Trial} {steps : List Step} {world : World}
      (due : Sweep.isDue threshold now route = true)
      (undecided : Sweep.outcome? (surroundings.lookup world.moment hash) = none)
      (rest : Sweeps surroundings lifetimes threshold now found trials steps) :
      Sweeps surroundings lifetimes threshold now ((hash, route) :: found) trials
        (⟨world, .lookup hash⟩ :: steps)
  | tried {trial : Trial} {found : List (String × Route)} {trials : List Trial}
      {steps : List Step} {world : World}
      (due : Sweep.isDue threshold now trial.route = true)
      (decided : Sweep.outcome? (surroundings.lookup world.moment trial.hash) =
        some trial.outcome)
      (attempts : surroundings.Attempts lifetimes trial)
      (rest : Sweeps surroundings lifetimes threshold now found trials steps) :
      Sweeps surroundings lifetimes threshold now ((trial.hash, trial.route) :: found)
        (trial :: trials) (⟨world, .lookup trial.hash⟩ :: (trial.steps ++ steps))

variable {surroundings : Surroundings} {lifetimes : Lifetimes} {threshold : Int}
  {now : Instant} {found : List (String × Route)} {trial : Trial} {trials : List Trial}
  {steps more : List Step} {world : World} {hash : String} {route : Route}
  {answer : Except GatewayError (Option ObservedTransaction)}

theorem Learns.mono (learns : surroundings.Learns steps hash answer)
    (subset : steps ⊆ more) : surroundings.Learns more hash answer := by
  obtain ⟨world, member, same⟩ := learns
  exact ⟨world, subset member, same⟩

/-- A hash that is looked up once has one answer. -/
theorem Learns.unique {other : Except GatewayError (Option ObservedTransaction)}
    (once : (steps.filterMap Step.lookedUp?).Nodup)
    (learns : surroundings.Learns steps hash answer)
    (again : surroundings.Learns steps hash other) : answer = other := by
  obtain ⟨world, member, rfl⟩ := learns
  obtain ⟨later, alsoMember, rfl⟩ := again
  have different := List.pairwise_filterMap.1 once
  have same := List.Pairwise.forall_of_forall_of_flip
    (R := fun step step' : Step => ∀ hash, step.lookedUp? = some hash →
      step'.lookedUp? = some hash → step = step')
    (fun _ _ _ _ _ => rfl)
    (different.imp fun differ hash looked looked' =>
      absurd rfl (differ hash looked hash looked'))
    (different.imp fun differ hash looked' looked =>
      absurd rfl (differ hash looked hash looked'))
  cases same member alsoMember hash rfl rfl
  rfl

/-! ## The loop -/

theorem Performs.attempt {outcome : ItemStatus} {attempt : Attempt}
    (final : outcome.isTerminal = true)
    (performs : surroundings.Performs (Attempt.make lifetimes hash route outcome) steps
      attempt) :
    ∃ trial, surroundings.Attempts lifetimes trial ∧ trial.hash = hash ∧
      trial.route = route ∧ trial.outcome = outcome ∧ trial.steps = steps ∧
      attempt = trial.attempt := by
  obtain ⟨front, result, _, rfl, reconciles, ends⟩ := performs_bind.1 performs
  obtain ⟨rfl, rfl⟩ := performs_pure.1 ends
  rw [List.append_nil]
  exact ⟨⟨hash, route, outcome, result, front⟩, ⟨final, reconciles⟩, rfl, rfl, rfl, rfl,
    rfl⟩

theorem Performs.applyDue {attempts : List Attempt}
    (performs : surroundings.Performs (Sweep.applyDue lifetimes threshold now found) steps
      attempts) :
    ∃ trials, surroundings.Sweeps lifetimes threshold now found trials steps ∧
      attempts = trials.map Trial.attempt := by
  induction found generalizing steps attempts with
  | nil =>
      obtain ⟨rfl, rfl⟩ := performs_pure.1 performs
      exact ⟨[], .done, rfl⟩
  | cons pair found induction =>
      obtain ⟨hash, route⟩ := pair
      unfold Sweep.applyDue at performs
      split at performs
      case isFalse early =>
        obtain ⟨trials, sweeps, rfl⟩ := induction performs
        exact ⟨trials, .young (Bool.eq_false_iff.2 early) sweeps, rfl⟩
      case isTrue due =>
        obtain ⟨_, _, _, rfl, looks, performs⟩ := performs_bind.1 performs
        obtain ⟨world, rfl, rfl⟩ := performs_request.1 looks
        split at performs
        case h_2 undecided =>
          obtain ⟨trials, sweeps, rfl⟩ := induction performs
          exact ⟨trials, .left due undecided sweeps, rfl⟩
        case h_1 outcome decided =>
          obtain ⟨own, attempt, _, rfl, tries, performs⟩ := performs_bind.1 performs
          obtain ⟨others, attempts, _, rfl, applies, ends⟩ := performs_bind.1 performs
          obtain ⟨rfl, rfl⟩ := performs_pure.1 ends
          obtain ⟨trial, isTrial, rfl, rfl, rfl, rfl, rfl⟩ :=
            tries.attempt (Sweep.isTerminal_of_outcome? decided)
          obtain ⟨trials, sweeps, rfl⟩ := induction applies
          rw [List.append_nil]
          exact ⟨trial :: trials, .tried due decided isTrial sweeps, rfl⟩

theorem Attempts.unasked (attempts : surroundings.Attempts lifetimes trial) :
    ∀ step ∈ trial.steps, step.lookedUp? = none := by
  obtain ⟨front, world, steps, handles⟩ := attempts.performs.reconcile
  rw [steps, List.forall_mem_append, List.forall_mem_singleton]
  refine ⟨handles.forall_steps (fun _ => rfl) ?_ fun _ _ => rfl, rfl⟩
  rintro ⟨world, request⟩ owner id group sends
  cases sends <;> rfl

namespace Sweeps

theorem works (sweeps : surroundings.Sweeps lifetimes threshold now found trials steps) :
    surroundings.Works lifetimes trials steps := by
  induction sweeps with
  | done => exact .done
  | young _ _ induction => exact induction
  | left _ _ _ induction => exact .aside rfl induction
  | tried _ _ attempts _ induction => exact .aside rfl (.tried attempts induction)

theorem lookups (sweeps : surroundings.Sweeps lifetimes threshold now found trials steps) :
    steps.filterMap Step.lookedUp? = (Sweep.due threshold now found).map Prod.fst := by
  induction sweeps with
  | done => rfl
  | young early _ induction => rw [Sweep.due_cons_of_young early, induction]
  | left due _ _ induction =>
      rw [Sweep.due_cons_of_due due, List.map_cons, ← induction]
      rfl
  | tried due _ attempts _ induction =>
      rw [Sweep.due_cons_of_due due, List.map_cons, ← induction, List.filterMap_cons,
        List.filterMap_append,
        List.filterMap_eq_nil_iff.2 attempts.unasked, List.nil_append]
      rfl

theorem sublist (sweeps : surroundings.Sweeps lifetimes threshold now found trials steps) :
    (trials.map fun trial => (trial.hash, trial.route)).Sublist
      (Sweep.due threshold now found) := by
  induction sweeps with
  | done => exact .slnil
  | young early _ induction =>
      rw [Sweep.due_cons_of_young early]
      exact induction
  | left due _ _ induction =>
      rw [Sweep.due_cons_of_due due]
      exact induction.cons _
  | tried due _ _ _ induction =>
      rw [Sweep.due_cons_of_due due]
      exact induction.cons_cons _

theorem learns (sweeps : surroundings.Sweeps lifetimes threshold now found trials steps)
    (member : trial ∈ trials) :
    ∃ answer, surroundings.Learns steps trial.hash answer ∧
      Sweep.outcome? answer = some trial.outcome := by
  induction sweeps with
  | done => cases member
  | young _ _ induction => exact induction member
  | left _ _ _ induction =>
      obtain ⟨answer, learns, decided⟩ := induction member
      exact ⟨answer, learns.mono (List.subset_cons_self _ _), decided⟩
  | tried _ decided _ _ induction =>
      obtain rfl | inRest := List.mem_cons.1 member
      · exact ⟨_, ⟨_, List.mem_cons_self, rfl⟩, decided⟩
      · obtain ⟨answer, learns, isDecided⟩ := induction inRest
        exact ⟨answer, learns.mono (List.subset_cons_of_subset _
          (List.subset_append_right _ _)), isDecided⟩

/-- A route that is due is tried, unless the lookup of its hash gives no outcome. -/
theorem learns_or_tried
    (sweeps : surroundings.Sweeps lifetimes threshold now found trials steps)
    (member : (hash, route) ∈ found) (due : Sweep.isDue threshold now route = true) :
    (∃ answer, surroundings.Learns steps hash answer ∧ Sweep.outcome? answer = none) ∨
      ∃ trial ∈ trials, trial.hash = hash := by
  induction sweeps with
  | done => cases member
  | young early _ induction =>
      obtain same | inRest := List.mem_cons.1 member
      · cases same
        rw [early] at due
        cases due
      · exact induction inRest
  | left _ undecided _ induction =>
      obtain same | inRest := List.mem_cons.1 member
      · cases same
        exact .inl ⟨_, ⟨_, List.mem_cons_self, rfl⟩, undecided⟩
      · refine (induction inRest).imp_left ?_
        rintro ⟨answer, learns, isOpen⟩
        exact ⟨answer, learns.mono (List.subset_cons_self _ _), isOpen⟩
  | @tried trial _ _ _ _ _ _ _ _ induction =>
      obtain same | inRest := List.mem_cons.1 member
      · cases same
        exact .inr ⟨trial, List.mem_cons_self, rfl⟩
      · refine (induction inRest).imp ?_ ?_
        · rintro ⟨answer, learns, isOpen⟩
          exact ⟨answer, learns.mono (List.subset_cons_of_subset _
            (List.subset_append_right _ _)), isOpen⟩
        · rintro ⟨other, isTrial, same⟩
          exact ⟨other, List.mem_cons_of_mem _ isTrial, same⟩

end Sweeps

/-! ## A whole sweep -/

/-- A sweep by its parts: what it does until it has found its routes, the loop, and what
it does at the end. -/
structure Swept (surroundings : Surroundings) (lifetimes : Lifetimes) (threshold : Int)
    (now : Instant) (world : World) (found : List (String × Route)) (trials : List Trial)
    (opening looking closing : List Step) : Prop where
  found_iff : ∀ hash route,
    (hash, route) ∈ found ↔ surroundings.route? world hash = some route
  ordered : found.Pairwise fun left right =>
    Utf8.encode (Routes.key left.1) < Utf8.encode (Routes.key right.1)
  opening : ∀ step ∈ opening, step.Idle
  sweeps : surroundings.Sweeps lifetimes threshold now found trials looking
  closing : ∀ step ∈ closing, step.Idle

namespace Swept

variable {opening looking closing : List Step}
  (swept : surroundings.Swept lifetimes threshold now world found trials opening looking
    closing)

include swept

theorem nodup : (found.map Prod.fst).Nodup := by
  rw [List.Nodup, List.pairwise_map]
  apply swept.ordered.imp
  intro left right order same
  rw [same] at order
  exact List.lt_irrefl _ order

theorem eq_singleton (only : ∀ other shown,
    surroundings.route? world other = some shown ↔ other = hash ∧ shown = route) :
    found = [(hash, route)] := by
  have nodup : found.Nodup := (List.pairwise_map.1 swept.nodup).imp fun differ same =>
    differ (congrArg Prod.fst same)
  apply List.perm_singleton.1
  apply (List.perm_ext_iff_of_nodup nodup (List.pairwise_singleton _ _)).2
  rintro ⟨other, shown⟩
  rw [swept.found_iff, only, List.mem_singleton, Prod.mk.injEq]

theorem lookups : (opening ++ (looking ++ closing)).filterMap Step.lookedUp? =
    (Sweep.due threshold now found).map Prod.fst := by
  have silent {idle : List Step} (all : ∀ step ∈ idle, step.Idle) :
      idle.filterMap Step.lookedUp? = [] :=
    List.filterMap_eq_nil_iff.2 fun step member => (all step member).unasked
  rw [List.filterMap_append, List.filterMap_append, silent swept.opening,
    silent swept.closing, swept.sweeps.lookups, List.nil_append, List.append_nil]

theorem works : surroundings.Works lifetimes trials (opening ++ (looking ++ closing)) := by
  have opens : surroundings.Works lifetimes [] opening :=
    .of_aside fun step member => (swept.opening step member).aside
  have closes : surroundings.Works lifetimes [] closing :=
    .of_aside fun step member => (swept.closing step member).aside
  have all := opens.append (swept.sweeps.works.append closes)
  rwa [List.append_nil, List.nil_append] at all

omit swept in
theorem looking_subset : looking ⊆ opening ++ (looking ++ closing) :=
  List.subset_append_of_subset_right _ (List.subset_append_left _ _)

theorem learns (member : trial ∈ trials) :
    ∃ answer, surroundings.Learns (opening ++ (looking ++ closing)) trial.hash answer ∧
      Sweep.outcome? answer = some trial.outcome := by
  obtain ⟨answer, learns, decided⟩ := swept.sweeps.learns member
  exact ⟨answer, learns.mono looking_subset, decided⟩

/-- Whatever the network says of a hash that is tried has led to the trial. -/
theorem decided (member : trial ∈ trials)
    (learns : surroundings.Learns (opening ++ (looking ++ closing)) trial.hash answer) :
    Sweep.outcome? answer = some trial.outcome := by
  obtain ⟨other, alsoLearns, decided⟩ := swept.learns member
  have once : ((opening ++ (looking ++ closing)).filterMap Step.lookedUp?).Nodup := by
    rw [swept.lookups]
    exact swept.nodup.sublist (List.filter_sublist.map Prod.fst)
  rw [learns.unique once alsoLearns]
  exact decided

end Swept

/-! ## The pass around the loop -/

/-- Steps aside show every record and every route as it was, as long as nothing runs
out. -/
theorem Linked.value?_of_aside {α : Type} {activity : Activity α} {first last : World}
    {key : String} (links : surroundings.Linked world steps last)
    (unique : world.cache.entries.Unique)
    (steady : surroundings.Steady (surroundings.worlds activity first))
    (own : steps ⊆ surroundings.steps activity first)
    (aside : ∀ step ∈ steps, step.request.isAside = true)
    (tracked : isTracked key = true) :
    surroundings.value? last key = surroundings.value? world key := by
  apply links.value?_eq steady tracked unique
  · exact fun step member => ⟨world_mem_worlds (own member), after_mem_worlds (own member)⟩
  · exact fun step member => Request.touched?_of_isAside (aside step member) tracked

section Working

variable (working : ∀ moment access, surroundings.fault moment access = none)

include working

theorem answer_scan (world : World) (leading : String) :
    (surroundings.answer world (.scan leading)).1 =
      .ok (world.cache.keys (surroundings.millis world) leading) := by
  simp only [answer, access_works (working _ _)]

theorem answer_readMany_works (world : World) (keys : List String) :
    (surroundings.answer world (.readMany keys)).1 =
      .ok (keys.map (surroundings.value? world)) := by
  have free : (keys.findSome? fun key => surroundings.fault world.moment (.read key)) =
      none :=
    List.findSome?_eq_none_iff.2 fun _ _ => working _ _
  simp only [answer, free]
  exact congrArg Except.ok (Cache.getMany_eq _ _ _)

theorem Performs.pass {result : Except CacheError (List Attempt)}
    (performs : surroundings.Performs (Sweep.pass lifetimes threshold now) steps result) :
    ∃ scanned read trials looking closing,
      let keys := scanned.cache.keys (surroundings.millis scanned) Routes.leading
      steps = ⟨scanned, .scan Routes.leading⟩ :: ⟨read, .readMany keys⟩ ::
          (looking ++ closing) ∧
        surroundings.Sweeps lifetimes threshold now
          (Traversal.hashed keys (keys.map (surroundings.value? read))) trials looking ∧
        (∀ step ∈ closing, step.Idle) ∧ result = .ok (trials.map Trial.attempt) := by
  rw [Sweep.pass, Routes.all, bind_assoc] at performs
  obtain ⟨_, _, _, rfl, scans, performs⟩ := performs_bind.1 performs
  obtain ⟨scanned, rfl, rfl⟩ := performs_request.1 scans
  rw [answer_scan working] at performs
  simp only [bind_assoc] at performs
  obtain ⟨_, _, _, rfl, reads, performs⟩ := performs_bind.1 performs
  obtain ⟨read, rfl, rfl⟩ := performs_request.1 reads
  rw [answer_readMany_works working, pure_bind] at performs
  obtain ⟨looking, attempts, _, rfl, applies, performs⟩ := performs_bind.1 performs
  obtain ⟨trials, sweeps, rfl⟩ := applies.applyDue
  obtain ⟨closing, _, _, rfl, publishes, ends⟩ := performs_bind.1 performs
  obtain ⟨rfl, rfl⟩ := performs_pure.1 ends
  refine ⟨scanned, read, trials, looking, closing, ?_, sweeps, ?_, rfl⟩
  · simp only [List.append_nil, List.singleton_append]
  · rintro ⟨world, request⟩ member
    obtain ⟨event, rfl⟩ := publishes.request_of_publishAll member
    exact ⟨rfl, rfl⟩

theorem Performs.runAt {settings : SweepSettings} {result : Option Nat} {last : World}
    (performs : surroundings.Performs (Sweep.runAt lifetimes settings now) steps result)
    (links : surroundings.Linked world steps last) (unique : world.cache.entries.Unique)
    (free : surroundings.value? world.pass settings.lease.key = none) :
    ∃ scanned front trials looking closing,
      let keys := scanned.cache.keys (surroundings.millis scanned) Routes.leading
      let read := surroundings.after ⟨scanned, .scan Routes.leading⟩
      surroundings.Linked world front scanned ∧ (∀ step ∈ front, step.Idle) ∧
        steps = front ++ (⟨scanned, .scan Routes.leading⟩ :: ⟨read, .readMany keys⟩ ::
          (looking ++ closing)) ∧
        surroundings.Sweeps lifetimes settings.threshold now
          (Traversal.hashed keys (keys.map (surroundings.value? read))) trials looking ∧
        (∀ step ∈ closing, step.Idle) ∧
        result = some (trials.countP fun trial => trial.attempt.isChange) := by
  have granted {token : String} : (surroundings.answer world.pass
      (.writeIfAbsent settings.lease.key token settings.lease.ttl)).1 = .ok true :=
    writeIfAbsent_free unique (working _ _) free
  obtain ⟨_, leased, _, rfl, runs, ends⟩ := performs_bind.1 performs
  cases Lease.Calls.of_performs runs with
  | failed fails =>
      obtain ⟨rfl, rfl, -⟩ := by simpa only [List.cons_append, Linked.cons_iff] using links
      cases granted.symm.trans fails
  | refused held =>
      obtain ⟨rfl, rfl, -⟩ := by simpa only [List.cons_append, Linked.cons_iff] using links
      cases granted.symm.trans held
  | @worked asked taken released steps _ _ passes =>
      obtain ⟨scanned, read, trials, looking, closing, rfl, sweeps, idle, rfl⟩ :=
        passes.pass working
      obtain ⟨rfl, rfl⟩ := performs_pure.1 ends
      obtain ⟨rfl, rfl, rfl, rfl, -⟩ := by
        simpa only [List.cons_append, Linked.cons_iff] using links
      have leaseAside : isTracked settings.lease.key = false := by simp [isTracked]
      refine ⟨_, [⟨asked, .token⟩, ⟨asked.pass, .writeIfAbsent settings.lease.key
          (surroundings.token asked.moment) settings.lease.ttl⟩], trials, looking,
        closing ++ [⟨released, .deleteIfEquals settings.lease.key
          (surroundings.token asked.moment)⟩], .cons (.cons .nil), ?_, ?_, sweeps, ?_, ?_⟩
      · rw [List.forall_mem_cons, List.forall_mem_singleton]
        exact ⟨⟨rfl, rfl⟩, by simp [Request.isAside, leaseAside], rfl⟩
      · simp only [List.append_nil, List.cons_append, List.nil_append, List.append_assoc]
        rfl
      · rw [List.forall_mem_append, List.forall_mem_singleton]
        exact ⟨idle, by simp [Request.isAside, leaseAside], rfl⟩
      · rw [List.countP_map]
        rfl

theorem runAt_swept (lifetimes : Lifetimes) (settings : SweepSettings) (now : Instant)
    (unique : world.cache.entries.Unique)
    (free : surroundings.value? world.pass settings.lease.key = none)
    (steady : surroundings.Steady
      (surroundings.worlds (Sweep.runAt lifetimes settings now) world)) :
    ∃ found trials opening looking closing,
      surroundings.steps (Sweep.runAt lifetimes settings now) world =
          opening ++ (looking ++ closing) ∧
        surroundings.Swept lifetimes settings.threshold now world found trials opening
          looking closing ∧
        (surroundings.run (Sweep.runAt lifetimes settings now) world).1 =
          some (trials.countP fun trial => trial.attempt.isChange) := by
  obtain ⟨scanned, front, trials, looking, closing, links, idle, steps, sweeps, ends,
      result⟩ := (surroundings.steps_performs _ world).runAt working
    (surroundings.linked (Sweep.runAt lifetimes settings now)) unique free
  let keys := scanned.cache.keys (surroundings.millis scanned) Routes.leading
  let scan : Step := ⟨scanned, .scan Routes.leading⟩
  let lookUp : Step := ⟨surroundings.after scan, .readMany keys⟩
  have uniqueScanned := links.unique unique
  have idleScan : ∀ step ∈ front ++ [scan], step.Idle :=
    List.forall_mem_append.2 ⟨idle, List.forall_mem_singleton.2 ⟨rfl, rfl⟩⟩
  have scans : surroundings.Linked world (front ++ [scan]) (surroundings.after scan) :=
    links.append (.single surroundings scan)
  have shownFirst (hash : String) := links.value?_of_aside unique steady
    (by rw [steps]; exact List.subset_append_left _ _)
    (fun step member => (idle step member).aside) (isTracked_routeKey hash)
  have shown (hash : String) := scans.value?_of_aside unique steady
    (by rw [steps]; simp [scan]) (fun step member => (idleScan step member).aside)
    (isTracked_routeKey hash)
  refine ⟨_, trials, front ++ [scan, lookUp], looking, closing, ?_, ⟨?_, ?_, ?_, sweeps, ends⟩,
    result⟩
  · rw [steps]
    simp [scan, lookUp, keys]
  · intro hash route
    rw [Traversal.mem_hashed, shown, Cache.mem_keys uniqueScanned (by decide)]
    refine ⟨And.right, fun isRoute => ⟨⟨?_, Routes.isKey_key hash⟩, isRoute⟩⟩
    change (surroundings.value? scanned (Routes.key hash)).isSome = true
    rw [shownFirst]
    obtain ⟨text, isText, -⟩ := Option.map_eq_some_iff.1 isRoute
    rw [isText, Option.isSome_some]
  · exact Traversal.pairwise_hashed (Cache.pairwise_keys uniqueScanned) _
  · rw [List.forall_mem_append, List.forall_mem_cons, List.forall_mem_singleton]
    exact ⟨idle, ⟨rfl, rfl⟩, ⟨rfl, rfl⟩⟩

/-- A sweep that finds one route, which is due and whose outcome the network knows, does
to the records and the routes what that outcome does. -/
theorem runAt_single (lifetimes : Lifetimes) (settings : SweepSettings) (now : Instant)
    {outcome : ItemStatus} (unique : world.cache.entries.Unique)
    (free : surroundings.value? world.pass settings.lease.key = none)
    (steady : surroundings.Steady
      (surroundings.worlds (Sweep.runAt lifetimes settings now) world))
    (only : ∀ other shown,
      surroundings.route? world other = some shown ↔ other = hash ∧ shown = route)
    (due : Sweep.isDue settings.threshold now route = true)
    (decided : ∀ moment, Sweep.outcome? (surroundings.lookup moment hash) = some outcome) :
    let last := (surroundings.run (Sweep.runAt lifetimes settings now) world).2
    let single := reconcile lifetimes hash route.batchId route.address outcome
    ∃ before, before.cache.entries.Unique ∧ ∀ key, isTracked key = true →
      surroundings.value? before key = surroundings.value? world key ∧
        surroundings.value? last key =
          surroundings.value? (surroundings.run single before).2 key := by
  intro last single
  have links : surroundings.Linked world _ last := surroundings.linked _
  obtain ⟨found, trials, opening, looking, closing, steps, swept, -⟩ :=
    runAt_swept working lifetimes settings now unique free steady
  have sweeps := swept.sweeps
  rw [swept.eq_singleton only] at sweeps
  cases sweeps with
  | young early =>
      rw [due] at early
      cases early
  | left _ undecided =>
      rw [decided] at undecided
      cases undecided
  | @tried trial _ _ rest asked _ isOutcome attempts others =>
      cases others
      obtain rfl := Option.some.inj ((decided _).symm.trans isOutcome)
      rw [List.append_nil] at steps
      have parts : surroundings.steps (Sweep.runAt lifetimes settings now) world =
          (opening ++ [⟨asked, .lookup trial.hash⟩]) ++ (trial.steps ++ closing) := by
        rw [steps]
        simp
      rw [parts] at links
      obtain ⟨before, opens, links⟩ := links.split
      obtain ⟨after, tries, closes⟩ := links.split
      have comes := attempts.performs.comesTo tries
      refine ⟨before, opens.unique unique, fun key tracked => ⟨?_, ?_⟩⟩
      · apply opens.value?_of_aside unique steady _ _ tracked
        · rw [parts]
          exact List.subset_append_left _ _
        · exact List.forall_mem_append.2
            ⟨fun step member => (swept.opening step member).aside,
              List.forall_mem_singleton.2 rfl⟩
      · rw [comes.run]
        apply closes.value?_of_aside (tries.unique (opens.unique unique)) steady _ _ tracked
        · rw [parts]
          exact List.subset_append_of_subset_right _ (List.subset_append_right _ _)
        · exact fun step member => (swept.closing step member).aside

end Working

end Surroundings

end BatchRelay
