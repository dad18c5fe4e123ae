import BatchRelay.Proofs.Engine.Performances
import BatchRelay.Proofs.Engine.Timeless

/-!
# The reconciliations of a pass

The steps of a tick or a sweep fall into requests aside and into trials, one
after the other: whole reconciliations, each with its own steps and with what
came of it.  Since requests aside remove no route and a reconciliation does,
every reconciliation of a pass is one of its trials.

`Reliance` is about passes among others: what a pass relies on in the worlds of
its steps, and what its steps keep to in return.
-/

namespace BatchRelay

/-- Whether a command is a tick or a sweep. -/
def Command.isPass : Command → Bool
  | .submit _ _ => false
  | .tick _ | .sweepAt _ _ => true

theorem Traversal.performAll {lifetimes : Lifetimes}
    {has : ∀ {α : Type}, List (String × Route) → Activity α → Prop}
    (traversal : Traversal lifetimes has) {commands : List Command}
    (passes : ∀ command ∈ commands, command.isPass = true) :
    has [] (performAll lifetimes commands) := by
  induction commands with
  | nil => exact traversal.pure _
  | cons command commands induction =>
      rcases List.forall_mem_cons.1 passes with ⟨isPass, others⟩
      refine traversal.bind ?_ fun _ => induction others
      cases command with
      | submit => cases isPass
      | tick settings =>
          exact traversal.bind (traversal.tick settings) fun _ => traversal.pure _
      | sweepAt settings now =>
          exact traversal.bind (traversal.sweepAt settings now) fun _ =>
            traversal.pure _

/-- A reconciliation that was attempted, what came of it, and its steps. -/
structure Trial where
  hash : String
  route : Route
  outcome : ItemStatus
  result : Except BatchError Reconciled
  steps : List Step

namespace Surroundings

/-- The steps of a trial are those of the reconciliation that it attempts. -/
structure Attempts (surroundings : Surroundings) (lifetimes : Lifetimes)
    (trial : Trial) : Prop where
  final : trial.outcome.isTerminal = true
  performs : surroundings.Performs (reconcile lifetimes trial.hash
    trial.route.batchId trial.route.address trial.outcome) trial.steps
    trial.result

/-- Steps that fall into requests aside and trials. -/
inductive Works (surroundings : Surroundings) (lifetimes : Lifetimes) :
    List Trial → List Step → Prop
  | done : Works surroundings lifetimes [] []
  | aside {trials : List Trial} {step : Step} {steps : List Step}
      (isAside : step.request.isAside = true)
      (rest : Works surroundings lifetimes trials steps) :
      Works surroundings lifetimes trials (step :: steps)
  | tried {trial : Trial} {trials : List Trial} {steps : List Step}
      (attempts : surroundings.Attempts lifetimes trial)
      (rest : Works surroundings lifetimes trials steps) :
      Works surroundings lifetimes (trial :: trials) (trial.steps ++ steps)

variable {surroundings : Surroundings} {lifetimes : Lifetimes}
  {trials others : List Trial} {steps more : List Step}

theorem Works.append (first : surroundings.Works lifetimes trials steps)
    (second : surroundings.Works lifetimes others more) :
    surroundings.Works lifetimes (trials ++ others) (steps ++ more) := by
  induction first with
  | done => exact second
  | aside isAside _ induction => exact .aside isAside induction
  | tried attempts _ induction =>
      rw [List.append_assoc]
      exact .tried attempts induction

theorem Works.of_aside (aside : ∀ step ∈ steps, step.request.isAside = true) :
    surroundings.Works lifetimes [] steps := by
  induction steps with
  | nil => exact .done
  | cons step steps induction =>
      obtain ⟨isAside, others⟩ := List.forall_mem_cons.1 aside
      exact .aside isAside (induction others)

theorem Works.cases_of_mem (works : surroundings.Works lifetimes trials steps)
    {step : Step} (member : step ∈ steps) :
    step.request.isAside = true ∨ ∃ trial ∈ trials, step ∈ trial.steps := by
  induction works with
  | done => cases member
  | aside isAside _ induction =>
      rcases List.mem_cons.1 member with rfl | inRest
      · exact .inl isAside
      · exact induction inRest
  | @tried trial trials steps attempts _ induction =>
      rcases List.mem_append.1 member with inTrial | inRest
      · exact .inr ⟨trial, List.mem_cons_self, inTrial⟩
      · rcases induction inRest with isAside | ⟨other, isMember, inOther⟩
        · exact .inl isAside
        · exact .inr ⟨other, List.mem_cons_of_mem _ isMember, inOther⟩

theorem Works.split (works : surroundings.Works lifetimes trials steps)
    {trial : Trial} (member : trial ∈ trials) :
    surroundings.Attempts lifetimes trial ∧
      ∃ front back, steps = front ++ (trial.steps ++ back) := by
  induction works with
  | done => cases member
  | @aside trials step steps _ _ induction =>
      rcases induction member with ⟨attempts, front, back, rfl⟩
      exact ⟨attempts, step :: front, back, rfl⟩
  | @tried other trials steps attempts _ induction =>
      rcases List.mem_cons.1 member with rfl | inRest
      · exact ⟨attempts, [], steps, rfl⟩
      · rcases induction inRest with ⟨attempts, front, back, rfl⟩
        exact ⟨attempts, other.steps ++ front, back, by rw [List.append_assoc]⟩

/-- A route is left alone when its hash is neither tried nor taken by the network. -/
theorem Works.untouched {hash : String} (works : surroundings.Works lifetimes trials steps)
    (untried : ∀ trial ∈ trials, trial.hash ≠ hash)
    (free : ¬surroundings.Takes steps hash) :
    ∀ step ∈ steps, step.request.touched? ≠ some (Routes.key hash) := by
  intro step member touched
  rcases works.cases_of_mem member with isAside | ⟨trial, isTrial, inTrial⟩
  · exact Request.touched?_of_isAside isAside (isTracked_routeKey hash) touched
  · obtain ⟨attempts, front, back, rfl⟩ := works.split isTrial
    obtain ⟨handling, removed, isOwn, handles⟩ := attempts.performs.reconcile
    rw [isOwn] at inTrial
    rcases List.mem_append.1 inTrial with inHandling | atEnd
    · refine free ((handles.takes inHandling touched).mono ?_)
      rw [isOwn]
      exact List.subset_append_of_subset_right _ (List.subset_append_of_subset_left _
        (List.subset_append_left _ _))
    · cases List.mem_singleton.1 atEnd
      exact untried trial isTrial (Routes.key_inj (Option.some.inj touched))

/-- What a pass relies on in the worlds of its steps, and what suffices for all
of its steps to be permitted.  Routes that it finds are admitted. -/
structure Reliance (surroundings : Surroundings) (lifetimes : Lifetimes)
    (holds : World → Prop) (permitted : Step → Prop) (admits : Route → Prop) :
    Prop where
  aside {world : World} {request : Request} :
    holds world → request.isAside = true → permitted ⟨world, request⟩
  found {world : World} {hash : String} {route : Route} :
    holds world → surroundings.route? world hash = some route → admits route
  reconciled {hash : String} {route : Route} {outcome : ItemStatus} :
    admits route → outcome.isTerminal = true →
      surroundings.Heeds holds permitted (fun _ _ => True)
        (reconcile lifetimes hash route.batchId route.address outcome)

variable {holds : World → Prop} {permitted : Step → Prop}
  {admits : Route → Prop} {α : Type}

/-- Permitted steps that fall into requests aside and trials of admitted
routes. -/
def Tries (surroundings : Surroundings) (lifetimes : Lifetimes)
    (holds : World → Prop) (permitted : Step → Prop) (admits : Route → Prop)
    (activity : Activity α) : Prop :=
  surroundings.Heeds holds permitted
    (fun steps _ => ∃ trials, surroundings.Works lifetimes trials steps ∧
      ∀ trial ∈ trials, admits trial.route) activity

theorem Tries.bind {β : Type} {first : Activity α} {next : α → Activity β}
    (triesFirst : surroundings.Tries lifetimes holds permitted admits first)
    (triesNext : ∀ result,
      surroundings.Tries lifetimes holds permitted admits (next result)) :
    surroundings.Tries lifetimes holds permitted admits (first >>= next) := by
  apply Heeds.bind triesFirst
  rintro front middle ⟨trials, works, admitted⟩
  apply (triesNext middle).mono
  rintro back _ ⟨others, worksOn, admittedOthers⟩
  exact ⟨trials ++ others, works.append worksOn,
    List.forall_mem_append.2 ⟨admitted, admittedOthers⟩⟩

namespace Reliance

variable (reliance : surroundings.Reliance lifetimes holds permitted admits)

include reliance

theorem tries_request {request : Request} (isAside : request.isAside = true) :
    surroundings.Tries lifetimes holds permitted admits
      (Activity.request request) := by
  apply heeds_request
  intro world held
  refine ⟨reliance.aside held isAside, [], .aside isAside .done, ?_⟩
  exact fun _ member => by cases member

theorem tries_reconcile {hash : String} {route : Route} {outcome : ItemStatus}
    (admitted : admits route) (final : outcome.isTerminal = true) :
    surroundings.Tries lifetimes holds permitted admits
      (reconcile lifetimes hash route.batchId route.address outcome) := by
  apply (reliance.reconciled admitted final).performing.mono
  rintro steps result ⟨-, performs⟩
  have works : surroundings.Works lifetimes
      [⟨hash, route, outcome, result, steps⟩] (steps ++ []) :=
    .tried ⟨final, performs⟩ .done
  rw [List.append_nil] at works
  exact ⟨_, works, List.forall_mem_singleton.2 admitted⟩

/-- After a look-up the routes that were found are admitted. -/
theorem heeds_readMany {keys : List String}
    (taken : List (Option String) → List (String × Route))
    {next : Except CacheError (List (Option String)) → Activity α}
    {told : List Step → α → Prop}
    (opens : ∀ world steps result, told steps result →
      told (⟨world, .readMany keys⟩ :: steps) result)
    (reads : ∀ (read : String → Option String), ∀ pair ∈ taken (keys.map read),
      (read (Routes.key pair.1)).map Route.decode = some pair.2)
    (failed : ∀ error,
      surroundings.Heeds holds permitted told (next (.error error)))
    (worked : ∀ values, (∀ pair ∈ taken values, admits pair.2) →
      surroundings.Heeds holds permitted told (next (.ok values))) :
    surroundings.Heeds holds permitted told
      (Activity.request (.readMany keys) >>= next) := by
  intro world held
  refine ⟨reliance.aside held rfl, ?_⟩
  have heeds : surroundings.Heeds holds permitted told
      (next (surroundings.answer world (.readMany keys)).1) := by
    rcases answer_readMany world keys with ⟨error, answer⟩ | answer
    · rw [answer]
      exact failed error
    · rw [answer]
      apply worked
      intro pair member
      exact reliance.found held (reads _ pair member)
  exact heeds.mono (opens world)

theorem tries_readMany {keys : List String}
    (taken : List (Option String) → List (String × Route))
    {next : Except CacheError (List (Option String)) → Activity α}
    (reads : ∀ (read : String → Option String), ∀ pair ∈ taken (keys.map read),
      (read (Routes.key pair.1)).map Route.decode = some pair.2)
    (failed : ∀ error, surroundings.Tries lifetimes holds permitted admits
      (next (.error error)))
    (worked : ∀ values, (∀ pair ∈ taken values, admits pair.2) →
      surroundings.Tries lifetimes holds permitted admits (next (.ok values))) :
    surroundings.Tries lifetimes holds permitted admits
      (Activity.request (.readMany keys) >>= next) := by
  refine reliance.heeds_readMany taken ?_ reads failed worked
  rintro world steps _ ⟨trials, works, admitted⟩
  exact ⟨trials, .aside rfl works, admitted⟩

/-- Ticks and sweeps consist of trials and keep to what is permitted. -/
theorem traversal :
    Traversal lifetimes fun routes activity =>
      (∀ pair ∈ routes, admits pair.2) →
        surroundings.Tries lifetimes holds permitted admits activity where
  pure _ _ := ⟨[], .done, fun _ member => by cases member⟩
  bind first next admitted := (first admitted).bind fun result =>
    next result admitted
  request isAside _ := reliance.tries_request isAside
  readMany taken _ reads failed worked _ := by
    refine reliance.tries_readMany taken reads (fun error => ?_) worked
    exact failed error fun _ member => by cases member
  reconcile member final admitted :=
    reliance.tries_reconcile (admitted _ member) final

end Reliance

/-- Who permits every step need not rely on anything. -/
theorem reliance_trivial (surroundings : Surroundings) (lifetimes : Lifetimes) :
    surroundings.Reliance lifetimes (fun _ => True) (fun _ => True)
      fun _ => True where
  aside _ _ := trivial
  found _ _ := trivial
  reconciled _ _ := heeds_of_performs fun _ _ _ =>
    ⟨fun _ _ => trivial, trivial⟩

theorem Tries.works {activity : Activity α} {world : World}
    (tries : surroundings.Tries lifetimes (fun _ => True) (fun _ => True)
      (fun _ => True) activity) :
    ∃ trials, surroundings.Works lifetimes trials
      (surroundings.steps activity world) := by
  have performs := surroundings.steps_performs activity world
  rcases (tries.of_performs performs fun _ _ => trivial).2 with
    ⟨trials, works, -⟩
  exact ⟨trials, works⟩

/-! ## Sound worlds -/

/-- Whatever comes of an outcome, what is written can be read back when the
record could. -/
theorem Handles.writesGenuine {hash batchId address : String}
    {outcome : ItemStatus} {result : Except BatchError Reconciled}
    (handles : surroundings.Handles lifetimes hash batchId address outcome steps
      result)
    (clean : Address.Clean address)
    (sound : ∀ step ∈ steps.head?, step.world.Sound []) :
    ∀ step ∈ steps, step.request.WritesGenuine := by
  cases handles with
  | unread | missing | stray | settled =>
      exact List.forall_mem_singleton.2 (.ofUnwritten rfl)
  | @stored world later batch batch' position item middle read _ _ _ follows
  | @unstored world later batch batch' position item middle _ read _ _ _
      follows =>
      have sending := follows.follow_onlySends
      have proper := (((sound _ rfl).proper_of_stored clean
        (get_eq_some_iff.1 read).2).1.setItemStatus position outcome)
      simp only [List.forall_mem_cons, List.forall_mem_append,
        List.not_mem_nil, false_implies, implies_true, and_true]
      refine ⟨.ofUnwritten rfl, ?_,
        .ofRecord (proper.transfer sending.id sending.payloads) _⟩
      intro step member
      rcases sending.sends step member with ⟨group, sends⟩
      rw [proper.sender] at sends
      exact sends.writesGenuine clean proper.id

/-- In sound worlds a pass finds clean routes, and writes only what can be read
back. -/
theorem reliance_sound (surroundings : Surroundings) (lifetimes : Lifetimes) :
    surroundings.Reliance lifetimes (World.Sound [])
      (fun step => step.request.WritesGenuine) Route.Clean where
  aside _ isAside := Request.writesGenuine_of_isAside isAside
  found sound read := (sound.route_of_route? read).1
  reconciled {hash route outcome} clean _ := by
    apply heeds_of_first
    intro steps result performs sound
    refine ⟨?_, trivial⟩
    rcases performs.reconcile with ⟨front, world, rfl, handles⟩
    rw [List.forall_mem_append]
    refine ⟨?_, List.forall_mem_singleton.2 (.ofUnwritten rfl)⟩
    apply handles.writesGenuine clean.address
    cases front with
    | nil => exact fun _ member => by cases member
    | cons step front => exact sound

/-! ## Without time -/

theorem Handles.writesForever {hash batchId address : String}
    {outcome : ItemStatus} {result : Except BatchError Reconciled}
    (handles : surroundings.Handles .forever hash batchId address outcome steps
      result) :
    ∀ step ∈ steps, step.request.WritesForever :=
  handles.forall_steps (fun _ => trivial) (fun _ _ _ _ sends => sends.writesForever)
    fun _ _ _ => rfl

/-- Where nothing gets a time to live a pass writes only what stays. -/
theorem reliance_forever (surroundings : Surroundings) :
    surroundings.Reliance .forever (fun _ => True)
      (fun step => step.request.WritesForever) fun _ => True where
  aside _ isAside := Request.writesForever_of_isAside isAside
  found _ _ := trivial
  reconciled _ _ := by
    apply heeds_of_performs
    intro steps result performs
    rcases performs.reconcile with ⟨front, world, rfl, handles⟩
    rw [List.forall_mem_append]
    exact ⟨⟨handles.writesForever, List.forall_mem_singleton.2 trivial⟩, trivial⟩

theorem sweepAt_writesForever (surroundings : Surroundings) (settings : SweepSettings)
    (now : Instant) (world : World) :
    ∀ step ∈ surroundings.steps (Sweep.runAt .forever settings now) world,
      step.request.WritesForever := by
  have tries := surroundings.reliance_forever.traversal.sweepAt settings now nofun
  exact (tries.of_performs (steps_performs _ world) fun _ _ => trivial).1

end Surroundings

end BatchRelay
