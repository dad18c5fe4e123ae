import BatchRelay.Proofs.Engine.Steps

/-!
# Activities among others

While an activity waits for an answer others may change the world.  `Performs`
tells what it does then by its own steps, each with the world in which it was
answered.  When the steps are linked nobody has come between them, and the
activity has run alone.

`Heeds` is for activities that rely on each other: in worlds of some kind an
activity takes permitted steps only.
-/

namespace BatchRelay

namespace Surroundings

variable (surroundings : Surroundings) {α β : Type}

/-- The steps that an activity takes to a result, in any worlds. -/
inductive Performs : Activity α → List Step → α → Prop
  | done {result : α} : Performs (.done result) [] result
  | ask {request : Request} {next : request.Answer → Activity α}
      {world : World} {steps : List Step} {result : α}
      (rest : Performs (next (surroundings.answer world request).1) steps
        result) :
      Performs (.ask request next) (⟨world, request⟩ :: steps) result

/-- In worlds with `holds`, an activity takes permitted steps only, and in the
end `told` is true of its steps and its result. -/
def Heeds (holds : World → Prop) (permitted : Step → Prop) :
    (List Step → α → Prop) → Activity α → Prop
  | told, .done result => told [] result
  | told, .ask request next => ∀ world, holds world →
      permitted ⟨world, request⟩ ∧
        Heeds holds permitted (fun steps => told (⟨world, request⟩ :: steps))
          (next (surroundings.answer world request).1)

variable {surroundings} {activity : Activity α} {next : α → Activity β}
  {world last : World} {steps : List Step}

/-! ## Steps in any worlds -/

theorem steps_performs (activity : Activity α) (world : World) :
    surroundings.Performs activity (surroundings.steps activity world)
      (surroundings.run activity world).1 := by
  induction activity generalizing world with
  | done result => exact .done
  | ask request next induction => exact .ask (induction _ _)

/-- An activity between whose steps nobody has come has run alone. -/
theorem Performs.comesTo {result : α}
    (performs : surroundings.Performs activity steps result)
    (links : surroundings.Linked world steps last) :
    surroundings.ComesTo activity world result steps last := by
  induction performs generalizing world with
  | done =>
      cases links
      exact ⟨rfl, rfl⟩
  | @ask request next between steps result _ induction =>
      cases links with
      | cons links =>
          have rest := induction links
          exact ⟨rest.run, congrArg (_ :: ·) rest.steps⟩

theorem performs_pure {value result : α} :
    surroundings.Performs (pure value) steps result ↔
      steps = [] ∧ result = value := by
  constructor
  · intro performs
    cases performs
    exact ⟨rfl, rfl⟩
  · rintro ⟨rfl, rfl⟩
    exact .done

theorem performs_request {request : Request} {answer : request.Answer} :
    surroundings.Performs (Activity.request request) steps answer ↔
      ∃ world, steps = [⟨world, request⟩] ∧
        answer = (surroundings.answer world request).1 := by
  constructor
  · intro performs
    cases performs with
    | ask rest =>
        cases rest
        exact ⟨_, rfl, rfl⟩
  · rintro ⟨world, rfl, rfl⟩
    exact .ask .done

theorem performs_bind {result : β} :
    surroundings.Performs (activity >>= next) steps result ↔
      ∃ front middle back, steps = front ++ back ∧
        surroundings.Performs activity front middle ∧
        surroundings.Performs (next middle) back result := by
  constructor
  · intro performs
    induction activity generalizing steps with
    | done value => exact ⟨[], value, steps, rfl, .done, performs⟩
    | ask request following induction =>
        cases performs with
        | ask rest =>
            rcases induction _ rest with
              ⟨front, middle, back, rfl, first, second⟩
            exact ⟨_, middle, back, rfl, .ask first, second⟩
  · rintro ⟨front, middle, back, rfl, first, second⟩
    induction first with
    | done => exact second
    | ask _ induction => exact .ask (induction second)

theorem Performs.single {request : Request} {next : request.Answer → Activity β}
    {result : β}
    (performs : surroundings.Performs (Activity.request request >>= next) steps
      result)
    (returns : ∀ answer, ∃ value, next answer = pure value) :
    ∃ world, steps = [⟨world, request⟩] ∧
      (surroundings.run (Activity.request request >>= next) world).1 = result := by
  rcases performs_bind.1 performs with ⟨_, answer, back, rfl, first, second⟩
  rcases performs_request.1 first with ⟨world, rfl, -⟩
  rcases returns answer with ⟨value, isPure⟩
  rw [isPure] at second
  rcases performs_pure.1 second with ⟨rfl, -⟩
  have alone := performs.comesTo (.single surroundings ⟨world, request⟩)
  exact ⟨world, rfl, congrArg Prod.fst alone.run⟩

/-! ## Relying on others -/

variable {holds : World → Prop} {permitted : Step → Prop}
  {told : List Step → α → Prop} {tells : List Step → β → Prop}

namespace Heeds

/-- In worlds that are as an activity relies on, it does as it should. -/
theorem of_performs {result : α}
    (heeds : surroundings.Heeds holds permitted told activity)
    (performs : surroundings.Performs activity steps result)
    (held : ∀ step ∈ steps, holds step.world) :
    (∀ step ∈ steps, permitted step) ∧ told steps result := by
  induction performs generalizing told with
  | done =>
      refine ⟨?_, heeds⟩
      intro _ member
      cases member
  | ask _ induction =>
      rcases List.forall_mem_cons.1 held with ⟨first, others⟩
      rcases heeds _ first with ⟨allowed, rest⟩
      rcases induction rest others with ⟨later, ends⟩
      exact ⟨List.forall_mem_cons.2 ⟨allowed, later⟩, ends⟩

/-- Alone, what an activity relies on is kept by its own steps. -/
theorem alone (heeds : surroundings.Heeds holds permitted told activity)
    (start : holds world)
    (kept : ∀ step, holds step.world → permitted step →
      holds (surroundings.after step)) :
    (∀ step ∈ surroundings.steps activity world, holds step.world) ∧
      holds (surroundings.run activity world).2 ∧
      told (surroundings.steps activity world)
        (surroundings.run activity world).1 := by
  induction activity generalizing world told with
  | done result => exact ⟨nofun, start, heeds⟩
  | ask request next induction =>
      rcases heeds world start with ⟨allowed, rest⟩
      rcases induction _ rest (kept ⟨world, request⟩ start allowed) with
        ⟨later, last, ends⟩
      exact ⟨List.forall_mem_cons.2 ⟨start, later⟩, last, ends⟩

theorem mono {tells : List Step → α → Prop}
    (heeds : surroundings.Heeds holds permitted told activity)
    (implies : ∀ steps result, told steps result → tells steps result) :
    surroundings.Heeds holds permitted tells activity := by
  induction activity generalizing told tells with
  | done result => exact implies [] result heeds
  | ask request next induction =>
      intro world held
      rcases heeds world held with ⟨allowed, rest⟩
      exact ⟨allowed, induction _ rest fun steps => implies (_ :: steps)⟩

theorem performing (heeds : surroundings.Heeds holds permitted told activity) :
    surroundings.Heeds holds permitted
      (fun steps result => told steps result ∧
        surroundings.Performs activity steps result) activity := by
  induction activity generalizing told with
  | done result => exact ⟨heeds, .done⟩
  | ask request next induction =>
      intro world held
      rcases heeds world held with ⟨allowed, rest⟩
      refine ⟨allowed, (induction _ rest).mono ?_⟩
      rintro steps result ⟨ends, performs⟩
      exact ⟨ends, .ask performs⟩

theorem bind (first : surroundings.Heeds holds permitted told activity)
    (rest : ∀ front middle, told front middle →
      surroundings.Heeds holds permitted
        (fun back result => tells (front ++ back) result) (next middle)) :
    surroundings.Heeds holds permitted tells (activity >>= next) := by
  induction activity generalizing told tells with
  | done result => exact rest [] result first
  | ask request following induction =>
      intro world held
      rcases first world held with ⟨allowed, later⟩
      exact ⟨allowed, induction _ later fun front => rest (_ :: front)⟩

end Heeds

theorem heeds_request {request : Request}
    {told : List Step → request.Answer → Prop}
    (heeds : ∀ world, holds world → permitted ⟨world, request⟩ ∧
      told [⟨world, request⟩] (surroundings.answer world request).1) :
    surroundings.Heeds holds permitted told (Activity.request request) :=
  heeds

/-- What is true of all performances does not rely on anything. -/
theorem heeds_of_performs
    (all : ∀ steps result, surroundings.Performs activity steps result →
      (∀ step ∈ steps, permitted step) ∧ told steps result) :
    surroundings.Heeds holds permitted told activity := by
  induction activity generalizing told with
  | done result => exact (all [] result .done).2
  | ask request next induction =>
      intro world _
      have alone := all _ _ (steps_performs (.ask request next) world)
      refine ⟨alone.1 _ List.mem_cons_self, ?_⟩
      apply induction
      intro steps result performs
      rcases all _ _ (.ask performs) with ⟨allowed, ends⟩
      exact ⟨(List.forall_mem_cons.1 allowed).2, ends⟩

/-- What is true of all performances that begin in a proper world relies on that
world only. -/
theorem heeds_of_first
    (all : ∀ steps result, surroundings.Performs activity steps result →
      (∀ step ∈ steps.head?, holds step.world) →
        (∀ step ∈ steps, permitted step) ∧ told steps result) :
    surroundings.Heeds holds permitted told activity := by
  cases activity with
  | done result => exact (all [] result .done fun _ member => by cases member).2
  | ask request next =>
      intro world held
      have begins {steps : List Step} :
          ∀ step ∈ (⟨world, request⟩ :: steps : List Step).head?,
            holds step.world := by
        intro step member
        cases member
        exact held
      have alone := all _ _ (steps_performs (.ask request next) world) begins
      refine ⟨alone.1 _ List.mem_cons_self, heeds_of_performs ?_⟩
      intro steps result performs
      rcases all _ _ (.ask performs) begins with ⟨allowed, ends⟩
      exact ⟨(List.forall_mem_cons.1 allowed).2, ends⟩

end Surroundings

end BatchRelay
