import BatchRelay.Proofs.Engine.Passes
import BatchRelay.Proofs.Engine.Soundness

/-!
# Runs of the engine

A run is any sequence of submissions, watcher ticks and sweeps that begins with
an empty cache.  `Invariant` lists what has to be shown of a property so that
it holds all through every run: it may look at the routes that a pass has found
and still works on, at all steps so far, and at the world.
-/

namespace BatchRelay

/-- What can be asked of the engine. -/
inductive Command where
  | submit (request : BatchRequest) (sourceIp : Option String)
  | tick (settings : WatchSettings)
  | sweepAt (settings : SweepSettings) (now : Instant)

/-- Carries out a command. -/
def Command.perform (lifetimes : Lifetimes) : Command → Activity Unit
  | .submit request sourceIp => do
      let _ ← BatchRelay.submit lifetimes request sourceIp
  | .tick settings => do
      let _ ← Watch.tick lifetimes settings
  | .sweepAt settings now => do
      let _ ← Sweep.runAt lifetimes settings now

/-- Carries out commands in order. -/
def performAll (lifetimes : Lifetimes) : List Command → Activity Unit
  | [] => return ()
  | command :: commands => do
      command.perform lifetimes
      performAll lifetimes commands

namespace Surroundings

variable {surroundings : Surroundings} {lifetimes : Lifetimes} {world : World}

theorem run_performAll_cons (command : Command) (commands : List Command) :
    surroundings.run (performAll lifetimes (command :: commands)) world =
      surroundings.run (performAll lifetimes commands)
        (surroundings.run (command.perform lifetimes) world).2 := by
  simp only [performAll, Bind.bind, run_bind]

theorem run_performAll_append (front back : List Command) :
    surroundings.run (performAll lifetimes (front ++ back)) world =
      surroundings.run (performAll lifetimes back)
        (surroundings.run (performAll lifetimes front) world).2 := by
  induction front generalizing world with
  | nil => rfl
  | cons command front induction =>
      rw [List.cons_append, run_performAll_cons, induction, run_performAll_cons]

theorem steps_performAll_append {front back : List Command} :
    surroundings.steps (performAll lifetimes (front ++ back)) world =
      surroundings.steps (performAll lifetimes front) world ++
        surroundings.steps (performAll lifetimes back)
          (surroundings.run (performAll lifetimes front) world).2 := by
  induction front generalizing world with
  | nil => rfl
  | cons command front induction =>
      simp only [List.cons_append, performAll, Bind.bind, steps_bind, run_bind,
        induction, List.append_assoc]

end Surroundings

/-- Commands, what surrounds them, and the empty cache they begin with. -/
structure Run where
  surroundings : Surroundings
  lifetimes : Lifetimes
  cache : Cache
  empty : cache.entries = []
  commands : List Command

namespace Run

/-- The world in which a run begins. -/
def start (run : Run) : World :=
  .start run.cache

/-- Everything that a run does. -/
def activity (run : Run) : Activity Unit :=
  performAll run.lifetimes run.commands

def steps (run : Run) : List Step :=
  run.surroundings.steps run.activity run.start

/-- The world in which a run ends. -/
def final (run : Run) : World :=
  (run.surroundings.run run.activity run.start).2

/-- The world to which commands lead at the beginning of a run. -/
def worldAfter (run : Run) (front : List Command) : World :=
  (run.surroundings.run (performAll run.lifetimes front) run.start).2

theorem final_eq_worldAfter (run : Run) {commands : List Command}
    (all : run.commands = commands) : run.final = run.worldAfter commands := by
  rw [final, activity, all, worldAfter]

/-- All worlds of a run in their order. -/
def worlds (run : Run) : List World :=
  run.steps.map Step.world ++ [run.final]

end Run

theorem Request.writesGenuine_of_isAside {request : Request}
    (isAside : request.isAside = true) : request.WritesGenuine := by
  intro key value written
  have untracked : isTracked key = false := by
    cases tracked : isTracked key with
    | false => rfl
    | true =>
        exact absurd (touched?_of_written? written)
          (touched?_of_isAside isAside tracked)
  simp only [isTracked, Bool.or_eq_false_iff] at untracked
  exact ⟨by simp [untracked], by simp [untracked]⟩

/-- What has to be shown so that a property holds all through a run. -/
structure Invariant (surroundings : Surroundings) (lifetimes : Lifetimes)
    (admitted : Step → Prop)
    (holds : List (String × Route) → List Step → World → Prop) : Prop where
  aside {routes : List (String × Route)} {past : List Step} {world : World}
      {request : Request} :
    world.Sound routes → holds routes past world →
      admitted ⟨world, request⟩ → request.isAside = true →
      holds routes (past ++ [⟨world, request⟩])
        (surroundings.after ⟨world, request⟩)
  found {routes : List (String × Route)} {past : List Step} {world : World} :
    world.Sound routes → holds [] past world →
      (∀ pair ∈ routes, surroundings.route? world pair.1 = some pair.2) →
      holds routes past world
  forgotten {routes : List (String × Route)} {past : List Step} {world : World} :
    holds routes past world → holds [] past world
  reconciled {routes : List (String × Route)} {past steps : List Step}
      {world last : World} {hash : String} {route : Route}
      {outcome : ItemStatus} :
    world.Sound routes → holds routes past world → (hash, route) ∈ routes →
      outcome.isTerminal = true →
      surroundings.Reconciling lifetimes hash route.batchId route.address outcome
        world steps last →
      (∀ step ∈ steps, admitted step) → holds routes (past ++ steps) last
  submitted {past steps : List Step} {world last : World}
      {request : BatchRequest} :
    world.Sound [] → holds [] past world →
      surroundings.Submitting lifetimes request world steps last →
      (∀ step ∈ steps, admitted step) → holds [] (past ++ steps) last

namespace Invariant

variable {surroundings : Surroundings} {lifetimes : Lifetimes}
  {admitted : Step → Prop}
  {holds : List (String × Route) → List Step → World → Prop} {α β : Type}

/-- An activity that keeps a property while it works on some routes. -/
def Keeps (surroundings : Surroundings) (admitted : Step → Prop)
    (holds : List (String × Route) → List Step → World → Prop)
    (routes : List (String × Route)) (activity : Activity α) : Prop :=
  ∀ past world, world.Sound routes → holds routes past world →
    (∀ step ∈ surroundings.steps activity world, admitted step) →
    (surroundings.run activity world).2.Sound routes ∧
      holds routes (past ++ surroundings.steps activity world)
        (surroundings.run activity world).2

variable {routes : List (String × Route)}

theorem keeps_pure (result : α) :
    Keeps surroundings admitted holds routes (pure result) := by
  intro past world sound held _
  refine ⟨sound, ?_⟩
  rw [show surroundings.steps (pure result) world = [] from rfl, List.append_nil]
  exact held

theorem Keeps.bind {first : Activity α} {next : α → Activity β}
    (keepsFirst : Keeps surroundings admitted holds routes first)
    (keepsNext : ∀ result, Keeps surroundings admitted holds routes (next result)) :
    Keeps surroundings admitted holds routes (first >>= next) := by
  intro past world sound held admits
  change ∀ step ∈ surroundings.steps (first.bind next) world, _ at admits
  change (surroundings.run (first.bind next) world).2.Sound routes ∧
    holds routes (past ++ surroundings.steps (first.bind next) world)
      (surroundings.run (first.bind next) world).2
  rw [Surroundings.steps_bind] at admits ⊢
  rw [Surroundings.run_bind, ← List.append_assoc]
  obtain ⟨soundBetween, heldBetween⟩ := keepsFirst past world sound held
    fun step member => admits step (List.mem_append_left _ member)
  exact keepsNext _ _ _ soundBetween heldBetween
    fun step member => admits step (List.mem_append_right _ member)

variable (invariant : Invariant surroundings lifetimes admitted holds)

include invariant

theorem keeps_request {request : Request} (isAside : request.isAside = true) :
    Keeps surroundings admitted holds routes (Activity.request request) := by
  intro past world sound held admits
  have later : (surroundings.after ⟨world, request⟩).Sound routes :=
    sound.step (Request.writesGenuine_of_isAside isAside)
  exact ⟨later,
    invariant.aside sound held (admits _ List.mem_cons_self) isAside⟩

theorem keeps_reconcile {hash : String} {route : Route} {outcome : ItemStatus}
    (member : (hash, route) ∈ routes) (final : outcome.isTerminal = true) :
    Keeps surroundings admitted holds routes
      (reconcile lifetimes hash route.batchId route.address outcome) := by
  intro past world sound held admits
  have clean : Address.Clean route.address := (sound.found _ member).address
  have isSender (batch : Batch) (stored : surroundings.stored? world route.address
      route.batchId = some batch) : batch.address? = some route.address :=
    (sound.proper_of_stored clean stored).1.sender
  have reconciling := surroundings.reconcile_reconciling lifetimes hash isSender
    final
  exact ⟨sound.linked reconciling.linked (reconciling.writesGenuine sound clean),
    invariant.reconciled sound held member final reconciling admits⟩

/-- Work that begins with a look-up of routes keeps a property when what comes
after the look-up keeps it with the routes that were found. -/
theorem keeps_readMany {keys : List String}
    (taken : List (Option String) → List (String × Route))
    {next : Except CacheError (List (Option String)) → Activity α}
    (reads : ∀ (read : String → Option String) pair,
      pair ∈ taken (keys.map read) →
      (read (Routes.key pair.1)).map Route.decode = some pair.2)
    (failed : ∀ error,
      Keeps surroundings admitted holds [] (next (.error error)))
    (worked : ∀ values,
      Keeps surroundings admitted holds (taken values) (next (.ok values))) :
    Keeps surroundings admitted holds []
      (Activity.request (.readMany keys) >>= next) := by
  intro past world sound held admits
  have split : surroundings.steps (Activity.request (.readMany keys) >>= next)
      world = ⟨world, .readMany keys⟩ :: surroundings.steps
        (next (surroundings.answer world (.readMany keys)).1)
        (surroundings.after ⟨world, .readMany keys⟩) := rfl
  have ends : surroundings.run (Activity.request (.readMany keys) >>= next)
      world = surroundings.run
        (next (surroundings.answer world (.readMany keys)).1)
        (surroundings.after ⟨world, .readMany keys⟩) := rfl
  rw [split] at admits ⊢
  rw [ends]
  obtain ⟨first, rest⟩ := List.forall_mem_cons.1 admits
  rw [← List.singleton_append, ← List.append_assoc]
  obtain ⟨error, answer⟩ | answer := Surroundings.answer_readMany world keys
  · rw [answer] at rest ⊢
    have later : (surroundings.after ⟨world, .readMany keys⟩).Sound [] :=
      sound.step (Request.writesGenuine_of_isAside rfl)
    exact failed error _ _ later (invariant.aside sound held first rfl) rest
  · rw [answer] at rest ⊢
    have found (pair : String × Route)
        (member : pair ∈ taken (keys.map (surroundings.value? world))) :
        surroundings.route? world pair.1 = some pair.2 :=
      reads _ pair member
    have soundFound : world.Sound
        (taken (keys.map (surroundings.value? world))) :=
      ⟨sound.unique, sound.genuine, fun pair member =>
        (sound.route_of_route? (found pair member)).1⟩
    have later : (surroundings.after ⟨world, .readMany keys⟩).Sound
        (taken (keys.map (surroundings.value? world))) :=
      soundFound.step (Request.writesGenuine_of_isAside rfl)
    obtain ⟨soundLast, heldLast⟩ := worked _ _ _ later
      (invariant.aside soundFound (invariant.found soundFound held found) first
        rfl) rest
    exact ⟨⟨soundLast.unique, soundLast.genuine, fun _ member => by cases member⟩,
      invariant.forgotten heldLast⟩

/-- Every tick and every sweep keeps what requests aside and reconciliations
keep. -/
theorem traversal :
    Traversal lifetimes fun routes activity =>
      Keeps surroundings admitted holds routes activity where
  pure := keeps_pure
  bind := Keeps.bind
  request := invariant.keeps_request
  readMany := invariant.keeps_readMany
  reconcile := invariant.keeps_reconcile

theorem keeps_submit (request : BatchRequest) (sourceIp : Option String) :
    Keeps surroundings admitted holds [] (submit lifetimes request sourceIp) := by
  intro past world sound held admits
  have submitting := surroundings.submit_submitting lifetimes request sourceIp world
  exact ⟨sound.linked submitting.linked submitting.writesGenuine,
    invariant.submitted sound held submitting admits⟩

theorem keeps_perform (command : Command) :
    Keeps surroundings admitted holds [] (command.perform lifetimes) := by
  cases command with
  | submit request sourceIp =>
      exact (invariant.keeps_submit request sourceIp).bind fun _ => keeps_pure _
  | tick settings =>
      exact (invariant.traversal.tick settings).bind fun _ => keeps_pure _
  | sweepAt settings now =>
      exact (invariant.traversal.sweepAt settings now).bind fun _ => keeps_pure _

theorem keeps_performAll (commands : List Command) :
    Keeps surroundings admitted holds [] (performAll lifetimes commands) := by
  induction commands with
  | nil => exact keeps_pure _
  | cons command commands induction =>
      exact (invariant.keeps_perform command).bind fun _ => induction

end Invariant

theorem Run.sound_start (run : Run) : run.start.Sound [] where
  unique := by simp [start, World.start, run.empty, Entries.Unique]
  genuine key entry member := by simp [start, World.start, run.empty] at member
  found _ member := by cases member

theorem Run.value?_start (run : Run) (key : String) :
    run.surroundings.value? run.start key = none := by
  rw [Option.eq_none_iff_forall_ne_some]
  intro text read
  obtain ⟨entry, member, -⟩ :=
    (Surroundings.value?_eq_some_iff run.sound_start.unique).1 read
  simp [start, World.start, run.empty] at member

theorem Run.stored?_start (run : Run) (address id : String) :
    run.surroundings.stored? run.start address id = none := by
  rw [Surroundings.stored?, run.value?_start, Option.bind_none]

theorem Run.route?_start (run : Run) (hash : String) :
    run.surroundings.route? run.start hash = none := by
  rw [Surroundings.route?, run.value?_start, Option.map_none]

theorem Run.linked (run : Run) :
    run.surroundings.Linked run.start run.steps run.final :=
  run.surroundings.linked run.activity

theorem Run.forall_worlds (run : Run) {holds : World → Prop} :
    (∀ world ∈ run.worlds, holds world) ↔
      (∀ step ∈ run.steps, holds step.world) ∧ holds run.final := by
  simp [worlds, or_imp, forall_and]

theorem Run.after_mem_worlds (run : Run) {step : Step}
    (member : step ∈ run.steps) : run.surroundings.after step ∈ run.worlds :=
  run.linked.after_mem member

theorem Run.unique (run : Run) :
    ∀ world ∈ run.worlds, world.cache.entries.Unique := by
  let holds (world : World) : Prop := world.cache.entries.Unique
  have kept (step : Step) (_ : step ∈ run.steps) (unique : holds step.world) :
      holds (run.surroundings.after step) := Surroundings.unique_after unique
  have start : holds run.start := run.sound_start.unique
  exact run.forall_worlds.2
    ⟨run.linked.keeps_at holds start kept, run.linked.keeps holds start kept⟩

/-- An invariant holds of all steps of a run and of its end. -/
theorem Run.holds (run : Run) {admitted : Step → Prop}
    {holds : List (String × Route) → List Step → World → Prop}
    (invariant : Invariant run.surroundings run.lifetimes admitted holds)
    (start : holds [] [] run.start) (admits : ∀ step ∈ run.steps, admitted step) :
    run.final.Sound [] ∧ holds [] run.steps run.final :=
  invariant.keeps_performAll run.commands [] run.start run.sound_start start admits

/-! ## The beginning of a run and the rest -/

theorem Run.steps_append (run : Run) {front back : List Command}
    (commands : run.commands = front ++ back) :
    run.steps =
      run.surroundings.steps (performAll run.lifetimes front) run.start ++
        run.surroundings.steps (performAll run.lifetimes back)
          (run.worldAfter front) := by
  rw [steps, activity, commands, Surroundings.steps_performAll_append, worldAfter]

/-- A tick begins in the world to which the commands before it lead. -/
theorem Run.steps_of_tick (run : Run) {front back : List Command}
    {settings : WatchSettings}
    (commands : run.commands = front ++ .tick settings :: back) :
    ∃ past step later, run.steps = past ++ step :: later ∧
      step.world = run.worldAfter front :=
  ⟨_, _, _, run.steps_append commands, rfl⟩

theorem Run.final_append (run : Run) {front back : List Command}
    (commands : run.commands = front ++ back) :
    run.final = (run.surroundings.run (performAll run.lifetimes back)
      (run.worldAfter front)).2 := by
  rw [final, activity, commands, Surroundings.run_performAll_append, worldAfter]

section Parts

variable {run : Run} {admitted : Step → Prop}
  {holds : List (String × Route) → List Step → World → Prop}
  (invariant : Invariant run.surroundings run.lifetimes admitted holds)
  {front back : List Command} (commands : run.commands = front ++ back)
  (admits : ∀ step ∈ run.steps, admitted step)

include invariant commands admits

theorem Run.holds_after (start : holds [] [] run.start) :
    (run.worldAfter front).Sound [] ∧
      holds [] (run.surroundings.steps (performAll run.lifetimes front) run.start)
        (run.worldAfter front) := by
  rw [run.steps_append commands] at admits
  exact invariant.keeps_performAll front [] run.start run.sound_start start
    (List.forall_mem_append.1 admits).1

theorem Run.holds_from {past : List Step}
    (sound : (run.worldAfter front).Sound [])
    (held : holds [] past (run.worldAfter front)) :
    holds [] (past ++ run.surroundings.steps (performAll run.lifetimes back)
      (run.worldAfter front)) run.final := by
  rw [run.steps_append commands] at admits
  rw [run.final_append commands]
  exact (invariant.keeps_performAll back past (run.worldAfter front) sound held
    (List.forall_mem_append.1 admits).2).2

end Parts

end BatchRelay
