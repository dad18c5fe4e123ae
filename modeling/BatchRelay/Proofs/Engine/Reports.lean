import BatchRelay.Proofs.Engine.Announcements
import BatchRelay.Proofs.Engine.Trials

/-!
# What passes report

A part of a pass gives back its attempts, and these are its trials in their
order: none is lost where something fails, and none is reported twice.  Meanwhile
nothing is published but by the trials themselves.  When all work is done the
pass publishes the announcements of all that was reported.  A pass that overflows
breaks off instead, and publishes nothing more.
-/

namespace BatchRelay

/-- The event that a step publishes. -/
def Step.published? (step : Step) : Option BatchUpdated :=
  match step.request with
  | .publish event => some event
  | _ => none

/-- The events that steps publish, in their order. -/
def published (steps : List Step) : List BatchUpdated :=
  steps.filterMap Step.published?

/-- What a pass learns of a trial. -/
def Trial.attempt (trial : Trial) : Attempt :=
  ⟨trial.hash, trial.route, trial.result⟩

theorem Trial.isChange_iff {trial : Trial} :
    trial.attempt.isChange = true ↔ ∃ status, trial.result = .ok (.applied status) := by
  obtain ⟨hash, route, outcome, result, steps⟩ := trial
  match result with
  | .ok (.applied status) => simp [attempt, Attempt.isChange, Reconciled.isChange]
  | .ok .batchMissing | .ok .itemMissing | .ok .unchanged =>
      simp [attempt, Attempt.isChange, Reconciled.isChange]
  | .error _ => simp [attempt, Attempt.isChange]

/-- Whether a step is aside and publishes nothing. -/
structure Step.Plain (step : Step) : Prop where
  aside : step.request.isAside = true
  unpublished : step.published? = none

namespace Surroundings

/-- Steps that work off trials of admitted routes and publish nothing else. -/
structure WorksOff (surroundings : Surroundings) (lifetimes : Lifetimes)
    (admits : Route → Prop) (trials : List Trial) (steps : List Step) : Prop where
  works : surroundings.Works lifetimes trials steps
  quiet : ∀ step ∈ steps, step.published? ≠ none →
    ∃ trial ∈ trials, step ∈ trial.steps
  admitted : ∀ trial ∈ trials, admits trial.route

/-- Steps of a pass: it works off its trials, and then it announces what these
have changed, unless it breaks off. -/
structure Concludes (surroundings : Surroundings) (lifetimes : Lifetimes)
    (admits : Route → Prop) (completed : Prop) (trials : List Trial)
    (working ending : List Step) : Prop where
  worksOff : surroundings.WorksOff lifetimes admits trials working
  aside : ∀ step ∈ ending, step.request.isAside = true
  announces : completed →
    published ending = announcements (trials.map Trial.attempt)
  breaksOff : ¬completed → published ending = []

variable {surroundings : Surroundings} {lifetimes : Lifetimes}
  {holds : World → Prop} {permitted : Step → Prop} {admits : Route → Prop}
  {α β : Type}

section WorkingOff

variable {trials others : List Trial} {steps more : List Step} {step : Step}

theorem WorksOff.none : surroundings.WorksOff lifetimes admits [] [] :=
  ⟨.done, nofun, nofun⟩

theorem WorksOff.plain (plain : step.Plain)
    (worksOff : surroundings.WorksOff lifetimes admits trials steps) :
    surroundings.WorksOff lifetimes admits trials (step :: steps) where
  works := .aside plain.aside worksOff.works
  quiet := List.forall_mem_cons.2
    ⟨fun publishes => absurd plain.unpublished publishes, worksOff.quiet⟩
  admitted := worksOff.admitted

theorem WorksOff.append (first : surroundings.WorksOff lifetimes admits trials steps)
    (second : surroundings.WorksOff lifetimes admits others more) :
    surroundings.WorksOff lifetimes admits (trials ++ others) (steps ++ more) where
  works := first.works.append second.works
  quiet := by
    rw [List.forall_mem_append]
    constructor
    · intro step member publishes
      obtain ⟨trial, isTrial, inTrial⟩ := first.quiet step member publishes
      exact ⟨trial, List.mem_append_left _ isTrial, inTrial⟩
    · intro step member publishes
      obtain ⟨trial, isTrial, inTrial⟩ := second.quiet step member publishes
      exact ⟨trial, List.mem_append_right _ isTrial, inTrial⟩
  admitted := List.forall_mem_append.2 ⟨first.admitted, second.admitted⟩

theorem WorksOff.single {trial : Trial}
    (attempts : surroundings.Attempts lifetimes trial)
    (admitted : admits trial.route) :
    surroundings.WorksOff lifetimes admits [trial] trial.steps where
  works := by
    have works : surroundings.Works lifetimes [trial] (trial.steps ++ []) :=
      .tried attempts .done
    rwa [List.append_nil] at works
  quiet step member _ := ⟨trial, List.mem_singleton_self _, member⟩
  admitted := List.forall_mem_singleton.2 admitted

theorem Concludes.plain {completed : Prop} {working ending : List Step}
    (plain : step.Plain)
    (concludes : surroundings.Concludes lifetimes admits completed trials working
      ending) :
    surroundings.Concludes lifetimes admits completed trials (step :: working)
      ending :=
  { concludes with worksOff := concludes.worksOff.plain plain }

end WorkingOff

/-! ## Activities -/

/-- Permitted steps that work off trials, which the activity tells of. -/
def Reports (surroundings : Surroundings) (lifetimes : Lifetimes)
    (holds : World → Prop) (permitted : Step → Prop) (admits : Route → Prop)
    (tells : α → List Attempt → Prop) (activity : Activity α) : Prop :=
  surroundings.Heeds holds permitted
    (fun steps result => ∃ trials,
      surroundings.WorksOff lifetimes admits trials steps ∧
        tells result (trials.map Trial.attempt)) activity

/-- Permitted steps that work off trials and announce what these have changed, if
the result is that of a pass that was completed. -/
def Announcing (surroundings : Surroundings) (lifetimes : Lifetimes)
    (holds : World → Prop) (permitted : Step → Prop) (admits : Route → Prop)
    (completed : α → Prop) (activity : Activity α) : Prop :=
  surroundings.Heeds holds permitted
    (fun steps result => ∃ trials working ending, steps = working ++ ending ∧
      surroundings.Concludes lifetimes admits (completed result) trials working
        ending) activity

section Telling

variable {tells : α → List Attempt → Prop} {result : α}

theorem reports_pure (told : tells result []) :
    surroundings.Reports lifetimes holds permitted admits tells (pure result) :=
  ⟨[], .none, told⟩

theorem Reports.bind {told : β → List Attempt → Prop} {first : Activity α}
    {next : α → Activity β}
    (reports : surroundings.Reports lifetimes holds permitted admits tells first)
    (rest : ∀ result attempts, tells result attempts →
      surroundings.Reports lifetimes holds permitted admits
        (fun final others => told final (attempts ++ others)) (next result)) :
    surroundings.Reports lifetimes holds permitted admits told
      (first >>= next) := by
  apply Heeds.bind reports
  intro front middle ⟨trials, worksOff, isTold⟩
  apply (rest middle _ isTold).mono
  intro back final ⟨others, worksOffOthers, isToldLater⟩
  refine ⟨trials ++ others, worksOff.append worksOffOthers, ?_⟩
  simpa only [List.map_append] using isToldLater

end Telling

theorem announcing_pure {completed : α → Prop} (result : α) :
    surroundings.Announcing lifetimes holds permitted admits completed
      (pure result) :=
  ⟨[], [], [], rfl, .none, nofun, fun _ => rfl, fun _ => rfl⟩

namespace Reliance

variable (reliance : surroundings.Reliance lifetimes holds permitted admits)

include reliance

theorem heeds_plain {request : Request} {next : request.Answer → Activity α}
    {told : List Step → α → Prop} (plain : ∀ world, Step.Plain ⟨world, request⟩)
    (opens : ∀ step steps result, step.Plain → told steps result →
      told (step :: steps) result)
    (rest : ∀ answer, surroundings.Heeds holds permitted told (next answer)) :
    surroundings.Heeds holds permitted told
      (Activity.request request >>= next) := by
  intro world held
  exact ⟨reliance.aside held (plain world).aside,
    (rest _).mono fun steps result => opens _ steps result (plain world)⟩

theorem reports_plain {request : Request} {next : request.Answer → Activity α}
    {tells : α → List Attempt → Prop}
    (plain : ∀ world, Step.Plain ⟨world, request⟩)
    (rest : ∀ answer,
      surroundings.Reports lifetimes holds permitted admits tells (next answer)) :
    surroundings.Reports lifetimes holds permitted admits tells
      (Activity.request request >>= next) := by
  refine reliance.heeds_plain plain ?_ rest
  intro step steps result plain ⟨trials, worksOff, told⟩
  exact ⟨trials, worksOff.plain plain, told⟩

theorem reports_readMany {keys : List String}
    (taken : List (Option String) → List (String × Route))
    {next : Except CacheError (List (Option String)) → Activity α}
    {tells : α → List Attempt → Prop}
    (reads : ∀ (read : String → Option String), ∀ pair ∈ taken (keys.map read),
      (read (Routes.key pair.1)).map Route.decode = some pair.2)
    (failed : ∀ error, surroundings.Reports lifetimes holds permitted admits tells
      (next (.error error)))
    (worked : ∀ values, (∀ pair ∈ taken values, admits pair.2) →
      surroundings.Reports lifetimes holds permitted admits tells
        (next (.ok values))) :
    surroundings.Reports lifetimes holds permitted admits tells
      (Activity.request (.readMany keys) >>= next) := by
  refine reliance.heeds_readMany taken ?_ reads failed worked
  intro world steps result ⟨trials, worksOff, told⟩
  exact ⟨trials, worksOff.plain ⟨rfl, rfl⟩, told⟩

theorem reports_attempt {hash : String} {route : Route} {outcome : ItemStatus}
    (admitted : admits route) (final : outcome.isTerminal = true) :
    surroundings.Reports lifetimes holds permitted admits
      (fun attempt attempts => attempts = [attempt])
      (Attempt.make lifetimes hash route outcome) := by
  apply Heeds.bind (reliance.reconciled admitted final).performing
  intro steps result ⟨_, performs⟩
  refine ⟨[⟨hash, route, outcome, result, steps⟩], ?_, rfl⟩
  rw [List.append_nil]
  exact .single ⟨final, performs⟩ admitted

/-! ## Watching -/

theorem reports_applyObserved {found : List (String × Route)}
    (admitted : ∀ pair ∈ found, admits pair.2)
    (transactions : List ObservedTransaction) :
    surroundings.Reports lifetimes holds permitted admits
      (fun result attempts => attempts = result)
      (Watch.applyObserved lifetimes found transactions) := by
  induction transactions with
  | nil => exact reports_pure rfl
  | cons transaction transactions induction =>
      unfold Watch.applyObserved
      split
      case h_2 => exact induction
      case h_1 route outcome located final =>
        have isFound := admitted _ (Traversal.mem_of_lookup located)
        have isFinal := ObservedStatus.isTerminal_of_outcome? final
        refine (reliance.reports_attempt isFound isFinal).bind ?_
        rintro attempt _ rfl
        refine Reports.bind induction ?_
        rintro attempts _ rfl
        exact reports_pure (congrArg (attempt :: ·) (List.append_nil _))

theorem reports_processBlock (transactions : List ObservedTransaction) :
    surroundings.Reports lifetimes holds permitted admits
      (fun result attempts => attempts = result.toOption.getD [])
      (Watch.processBlock lifetimes transactions) := by
  unfold Watch.processBlock
  split
  case isTrue => exact reports_pure rfl
  case isFalse =>
    rw [Routes.getMany, bind_assoc]
    refine reliance.reports_readMany (Routes.pairs _)
      (fun _ _ => Traversal.pairs_map) (fun _ => ?_) fun values admitted => ?_
    · exact reports_pure rfl
    · rw [pure_bind]
      refine (reliance.reports_applyObserved admitted _).bind ?_
      rintro attempts _ rfl
      exact reports_pure (List.append_nil _)

theorem reports_readBlocks (shard : UInt32) (count : Nat) (nonce : UInt64) :
    surroundings.Reports lifetimes holds permitted admits
      (fun result attempts => attempts = result)
      (Watch.readBlocks lifetimes shard count nonce) := by
  induction count generalizing nonce with
  | zero => exact reports_pure rfl
  | succ count induction =>
      refine reliance.reports_plain (fun _ => ⟨rfl, rfl⟩) fun answer => ?_
      cases answer with
      | error error => exact reports_pure rfl
      | ok transactions =>
          refine (reliance.reports_processBlock transactions).bind ?_
          rintro result _ rfl
          cases result with
          | error error => exact reports_pure rfl
          | ok attempts =>
              have plain (world : World) : Step.Plain ⟨world, .write
                  (Checkpoints.key shard)
                  (String.ofList (Decimal.ofNat nonce.toNat))
                  lifetimes.checkpoint⟩ :=
                ⟨by simp [Request.isAside, isTracked], rfl⟩
              refine reliance.reports_plain plain fun stored => ?_
              cases stored with
              | error error => exact reports_pure (List.append_nil _)
              | ok _ =>
                  refine Reports.bind (induction _) ?_
                  rintro later _ rfl
                  exact reports_pure
                    (congrArg (attempts ++ ·) (List.append_nil _))

theorem reports_checkpoint (shard : UInt32) :
    surroundings.Reports lifetimes holds permitted admits
      (fun _ attempts => attempts = []) (Checkpoints.get shard) := by
  refine reliance.reports_plain (fun _ => ⟨rfl, rfl⟩) fun answer => ?_
  obtain error | value := answer
  · exact reports_pure rfl
  · cases value <;> exact reports_pure rfl

theorem reports_visit (lookBehind : UInt64) (shard : UInt32) :
    surroundings.Reports lifetimes holds permitted admits
      (fun result attempts => ∀ done, result = .ok done → attempts = done)
      (Watch.visit lifetimes lookBehind shard) := by
  refine reliance.reports_plain (fun _ => ⟨rfl, rfl⟩) fun answer => ?_
  cases answer with
  | error error => exact reports_pure fun _ => Except.ok.inj
  | ok latest =>
      refine (reliance.reports_checkpoint shard).bind ?_
      rintro checkpoint _ rfl
      cases checkpoint with
      | error error => exact reports_pure fun _ => Except.ok.inj
      | ok checkpoint =>
          dsimp only
          split
          case h_1 => exact reports_pure fun _ => nofun
          case h_2 => exact reports_pure fun _ => Except.ok.inj
          case h_3 =>
            refine (reliance.reports_readBlocks _ _ _).bind ?_
            rintro attempts _ rfl
            refine reports_pure fun _ same => ?_
            rw [List.nil_append, List.append_nil]
            exact Except.ok.inj same

theorem reports_visitAll (lookBehind : UInt64) (shards : List UInt32) :
    surroundings.Reports lifetimes holds permitted admits
      (fun result attempts => ∀ done, result = .ok done → attempts = done)
      (Watch.visitAll lifetimes lookBehind shards) := by
  induction shards with
  | nil => exact reports_pure fun _ => Except.ok.inj
  | cons shard shards induction =>
      refine (reliance.reports_visit lookBehind shard).bind ?_
      intro result attempts told
      cases result with
      | error overflow => exact reports_pure fun _ => nofun
      | ok visited =>
          obtain rfl := told visited rfl
          refine Reports.bind induction ?_
          intro others tried toldOthers
          refine reports_pure fun _ same => ?_
          cases others with
          | error overflow => cases same
          | ok others =>
              rw [List.append_nil, toldOthers others rfl]
              exact Except.ok.inj same

/-! ## Sweeping -/

theorem reports_applyDue (threshold : Int) (now : Instant)
    {found : List (String × Route)}
    (admitted : ∀ pair ∈ found, admits pair.2) :
    surroundings.Reports lifetimes holds permitted admits
      (fun result attempts => attempts = result)
      (Sweep.applyDue lifetimes threshold now found) := by
  induction found with
  | nil => exact reports_pure rfl
  | cons pair found induction =>
      obtain ⟨hash, route⟩ := pair
      obtain ⟨isFound, admitted⟩ := List.forall_mem_cons.1 admitted
      have others := induction admitted
      unfold Sweep.applyDue
      split
      case isFalse => exact others
      case isTrue =>
        refine reliance.reports_plain (fun _ => ⟨rfl, rfl⟩) fun answer => ?_
        split
        case h_2 => exact others
        case h_1 outcome final =>
          have isFinal := Sweep.isTerminal_of_outcome? final
          refine (reliance.reports_attempt isFound isFinal).bind ?_
          rintro attempt _ rfl
          refine Reports.bind others ?_
          rintro attempts _ rfl
          exact reports_pure (congrArg (attempt :: ·) (List.append_nil _))

/-! ## Announcing -/

theorem heeds_publishAll (events : List BatchUpdated) :
    surroundings.Heeds holds permitted
      (fun steps _ => (∀ step ∈ steps, step.request.isAside = true) ∧
        published steps = events) (publishAll events) := by
  induction events with
  | nil => exact ⟨nofun, rfl⟩
  | cons event events induction =>
      intro world held
      refine ⟨reliance.aside held rfl, Heeds.mono induction ?_⟩
      intro steps _ ⟨aside, publishes⟩
      exact ⟨List.forall_mem_cons.2 ⟨rfl, aside⟩, congrArg (event :: ·) publishes⟩

theorem announcing_reported {attempts : List Attempt} {trials : List Trial}
    {working : List Step} {result : α} {completed : α → Prop}
    (worksOff : surroundings.WorksOff lifetimes admits trials working)
    (told : trials.map Trial.attempt = attempts) (isCompleted : completed result) :
    surroundings.Heeds holds permitted (fun ending result =>
      ∃ trials working' ending', working ++ ending = working' ++ ending' ∧
        surroundings.Concludes lifetimes admits (completed result) trials working'
          ending')
      (do
        publishAll (announcements attempts)
        return result) := by
  apply Heeds.bind (reliance.heeds_publishAll _)
  intro ending _ ⟨aside, publishes⟩
  refine ⟨trials, working, ending, by rw [List.append_nil], worksOff, aside, ?_,
    fun broken => absurd isCompleted broken⟩
  rw [publishes, told]
  exact fun _ => rfl

theorem announcing_plain {request : Request} {next : request.Answer → Activity α}
    {completed : α → Prop} (plain : ∀ world, Step.Plain ⟨world, request⟩)
    (rest : ∀ answer, surroundings.Announcing lifetimes holds permitted admits
      completed (next answer)) :
    surroundings.Announcing lifetimes holds permitted admits completed
      (Activity.request request >>= next) := by
  refine reliance.heeds_plain plain ?_ rest
  rintro step _ _ plain ⟨trials, working, ending, rfl, concludes⟩
  exact ⟨trials, step :: working, ending, rfl, concludes.plain plain⟩

theorem announcing_readMany {keys : List String}
    (taken : List (Option String) → List (String × Route))
    {next : Except CacheError (List (Option String)) → Activity α}
    {completed : α → Prop}
    (reads : ∀ (read : String → Option String), ∀ pair ∈ taken (keys.map read),
      (read (Routes.key pair.1)).map Route.decode = some pair.2)
    (failed : ∀ error, surroundings.Announcing lifetimes holds permitted admits
      completed (next (.error error)))
    (worked : ∀ values, (∀ pair ∈ taken values, admits pair.2) →
      surroundings.Announcing lifetimes holds permitted admits completed
        (next (.ok values))) :
    surroundings.Announcing lifetimes holds permitted admits completed
      (Activity.request (.readMany keys) >>= next) := by
  refine reliance.heeds_readMany taken ?_ reads failed worked
  rintro world _ _ ⟨trials, working, ending, rfl, concludes⟩
  exact ⟨trials, ⟨world, .readMany keys⟩ :: working, ending, rfl,
    concludes.plain ⟨rfl, rfl⟩⟩

/-- A plain request may follow. -/
theorem announcing_followed {first : Activity α} {request : α → Request}
    {answer : ∀ result, (request result).Answer → β} (done : α → Prop)
    {completed : β → Prop}
    (announcing : surroundings.Announcing lifetimes holds permitted admits done
      first)
    (plain : ∀ result world, Step.Plain ⟨world, request result⟩)
    (same : ∀ result given, completed (answer result given) ↔ done result) :
    surroundings.Announcing lifetimes holds permitted admits completed (do
      let result ← first
      let given ← Activity.request (request result)
      return answer result given) := by
  apply Heeds.bind announcing
  rintro _ result ⟨trials, working, ending, rfl, concludes⟩ world held
  have silent : published (ending ++ [⟨world, request result⟩]) =
      published ending := by
    simp [published, (plain result world).unpublished]
  refine ⟨reliance.aside held (plain result world).aside, trials, working,
    ending ++ [⟨world, request result⟩], List.append_assoc _ _ _,
    concludes.worksOff, ?_, ?_, ?_⟩
  · rw [List.forall_mem_append]
    exact ⟨concludes.aside, List.forall_mem_singleton.2 (plain result world).aside⟩
  · intro isCompleted
    exact silent.trans (concludes.announces ((same _ _).1 isCompleted))
  · intro broken
    exact silent.trans (concludes.breaksOff fun isDone =>
      broken ((same _ _).2 isDone))

theorem announcing_tick (settings : WatchSettings) :
    surroundings.Announcing lifetimes holds permitted admits
      (fun result => ∃ ran, result = .ok ran) (Watch.tick lifetimes settings) := by
  refine reliance.announcing_plain (fun _ => ⟨rfl, rfl⟩) fun free => ?_
  cases free with
  | false => exact announcing_pure _
  | true =>
      refine reliance.announcing_followed
        (fun result => ∃ attempts, result = .ok attempts) ?_
        (fun _ _ => ⟨rfl, rfl⟩) ?_
      · apply Heeds.bind (reliance.reports_visitAll _ _)
        intro working result ⟨trials, worksOff, told⟩
        cases result with
        | error overflow =>
            exact ⟨trials, working, [], rfl, worksOff, nofun, nofun, fun _ => rfl⟩
        | ok attempts =>
            exact reliance.announcing_reported worksOff (told attempts rfl) ⟨_, rfl⟩
      · intro result given
        cases result with
        | error overflow => exact ⟨nofun, nofun⟩
        | ok attempts => exact ⟨fun _ => ⟨_, rfl⟩, fun _ => ⟨_, rfl⟩⟩

theorem announcing_pass (threshold : Int) (now : Instant) :
    surroundings.Announcing lifetimes holds permitted admits (fun _ => True)
      (Sweep.pass lifetimes threshold now) := by
  rw [Sweep.pass, Routes.all, bind_assoc]
  refine reliance.announcing_plain (fun _ => ⟨rfl, rfl⟩) fun scanned => ?_
  cases scanned with
  | error error => exact announcing_pure _
  | ok keys =>
      simp only [bind_assoc]
      refine reliance.announcing_readMany (Traversal.hashed keys)
        (fun _ _ => Traversal.hashed_map) (fun _ => announcing_pure _)
        fun values admitted => ?_
      rw [pure_bind]
      apply Heeds.bind (reliance.reports_applyDue _ _ admitted)
      intro working attempts reports
      obtain ⟨trials, worksOff, told⟩ := reports
      exact reliance.announcing_reported worksOff told trivial

theorem announcing_lease {lease : Lease} {work : Activity α}
    (announcing : surroundings.Announcing lifetimes holds permitted admits
      (fun _ => True) work) :
    surroundings.Announcing lifetimes holds permitted admits (fun _ => True)
      (lease.run work) := by
  refine reliance.announcing_plain (fun _ => ⟨rfl, rfl⟩) fun token => ?_
  have plain (world : World) : Step.Plain
      ⟨world, .writeIfAbsent lease.key token lease.ttl⟩ :=
    ⟨by simp [Request.isAside, isTracked], rfl⟩
  refine reliance.announcing_plain plain fun answer => ?_
  obtain error | taken := answer
  · exact announcing_pure _
  · cases taken with
    | false => exact announcing_pure _
    | true =>
        refine reliance.announcing_followed _ announcing ?_ fun _ _ => Iff.rfl
        exact fun _ _ => ⟨by simp [Request.isAside, isTracked], rfl⟩

theorem announcing_sweepAt (settings : SweepSettings) (now : Instant) :
    surroundings.Announcing lifetimes holds permitted admits (fun _ => True)
      (Sweep.runAt lifetimes settings now) := by
  have sweeps := reliance.announcing_pass settings.threshold now
  apply Heeds.bind (reliance.announcing_lease sweeps)
  intro steps result announced
  rw [← List.append_nil steps] at announced
  split <;> exact announced

end Reliance

end Surroundings

end BatchRelay
