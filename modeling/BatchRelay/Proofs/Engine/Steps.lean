import BatchRelay.Engine.World

/-!
# Steps of an activity

The steps of an activity are its requests, each with the world in which it is
answered.  A step leads to the world of the next one, and the last step to the
world in which the activity ends.
-/

namespace BatchRelay

/-- A request and the world in which it is answered. -/
structure Step where
  world : World
  request : Request

namespace Surroundings

variable (surroundings : Surroundings)

/-- The world after a step. -/
def after (step : Step) : World :=
  (surroundings.answer step.world step.request).2

/-- The steps of an activity that begins in a world. -/
def steps {α : Type} : Activity α → World → List Step
  | .done _, _ => []
  | .ask request next, world =>
      ⟨world, request⟩ ::
        steps (next (surroundings.answer world request).1)
          (surroundings.answer world request).2

/-- Steps that lead from one world to another. -/
inductive Linked : World → List Step → World → Prop
  | nil {world : World} : Linked world [] world
  | cons {world last : World} {request : Request} {steps : List Step}
      (rest : Linked (surroundings.after ⟨world, request⟩) steps last) :
      Linked world (⟨world, request⟩ :: steps) last

variable {α β : Type} {world last : World}

theorem run_bind (first : Activity α) (next : α → Activity β) :
    surroundings.run (first.bind next) world =
      surroundings.run (next (surroundings.run first world).1)
        (surroundings.run first world).2 := by
  induction first generalizing world with
  | done result => rfl
  | ask request following induction => exact induction _

theorem steps_bind (first : Activity α) (next : α → Activity β) :
    surroundings.steps (first.bind next) world =
      surroundings.steps first world ++
        surroundings.steps (next (surroundings.run first world).1)
          (surroundings.run first world).2 := by
  induction first generalizing world with
  | done result => rfl
  | ask request following induction =>
      exact congrArg (_ :: ·) (induction _)

theorem linked (activity : Activity α) :
    surroundings.Linked world (surroundings.steps activity world)
      (surroundings.run activity world).2 := by
  induction activity generalizing world with
  | done result => exact .nil
  | ask request next induction => exact .cons (induction _)

/-- An activity that comes to a result, by steps that end in `last`. -/
structure ComesTo (activity : Activity α) (world : World) (result : α)
    (steps : List Step) (last : World) : Prop where
  run : surroundings.run activity world = (result, last)
  steps : surroundings.steps activity world = steps

theorem comesTo (activity : Activity α) (world : World) :
    surroundings.ComesTo activity world (surroundings.run activity world).1
      (surroundings.steps activity world) (surroundings.run activity world).2 :=
  ⟨rfl, rfl⟩

theorem ComesTo.linked {surroundings : Surroundings} {activity : Activity α}
    {result : α} {steps : List Step}
    (comes : surroundings.ComesTo activity world result steps last) :
    surroundings.Linked world steps last := by
  have links : surroundings.Linked world _ _ := surroundings.linked activity
  rw [comes.steps, comes.run] at links
  exact links

namespace Linked

variable {surroundings : Surroundings} {middle : World}
  {steps front back : List Step}

theorem single (surroundings : Surroundings) (step : Step) :
    surroundings.Linked step.world [step] (surroundings.after step) :=
  .cons .nil

theorem cons_iff {step : Step} : surroundings.Linked world (step :: steps) last ↔
    step.world = world ∧ surroundings.Linked (surroundings.after step) steps last := by
  constructor
  · intro links
    cases links with
    | cons rest => exact ⟨rfl, rest⟩
  · rintro ⟨rfl, rest⟩
    exact .cons rest

theorem append (first : surroundings.Linked world front middle)
    (second : surroundings.Linked middle back last) :
    surroundings.Linked world (front ++ back) last := by
  induction first with
  | nil => exact second
  | cons _ induction => exact .cons (induction second)

theorem split (links : surroundings.Linked world (front ++ back) last) :
    ∃ middle, surroundings.Linked world front middle ∧
      surroundings.Linked middle back last := by
  induction front generalizing world with
  | nil => exact ⟨world, .nil, links⟩
  | cons _ _ induction =>
      cases links with
      | cons rest =>
          obtain ⟨middle, first, second⟩ := induction rest
          exact ⟨middle, .cons first, second⟩

/-- Steps go on from every step as they would from its world. -/
theorem of_append {step : Step}
    (links : surroundings.Linked world (front ++ step :: back) last) :
    surroundings.Linked step.world (step :: back) last := by
  induction front generalizing world with
  | nil =>
      cases links with
      | cons rest => exact .cons rest
  | cons _ _ induction =>
      cases links with
      | cons rest => exact induction rest

theorem keeps (links : surroundings.Linked world steps last)
    (holds : World → Prop) (start : holds world)
    (kept : ∀ step ∈ steps, holds step.world → holds (surroundings.after step)) :
    holds last := by
  induction links with
  | nil => exact start
  | cons _ induction =>
      exact induction (kept _ List.mem_cons_self start)
        fun step member => kept step (List.mem_cons_of_mem _ member)

theorem keeps_at (links : surroundings.Linked world steps last)
    (holds : World → Prop) (start : holds world)
    (kept : ∀ step ∈ steps, holds step.world → holds (surroundings.after step)) :
    ∀ step ∈ steps, holds step.world := by
  induction links with
  | nil => exact fun _ member => by cases member
  | cons _ induction =>
      intro step member
      obtain rfl | inRest := List.mem_cons.1 member
      · exact start
      · exact induction (kept _ List.mem_cons_self start)
          (fun step member => kept step (List.mem_cons_of_mem _ member))
          step inRest

theorem keeps_through {past : List Step}
    (links : surroundings.Linked world steps last) (holds : World → Prop)
    (through : (∀ step ∈ past, holds step.world) ∧ holds world)
    (kept : ∀ step ∈ steps, holds step.world → holds (surroundings.after step)) :
    (∀ step ∈ past ++ steps, holds step.world) ∧ holds last :=
  ⟨List.forall_mem_append.2
      ⟨through.1, links.keeps_at holds through.2 kept⟩,
    links.keeps holds through.2 kept⟩

theorem constant {α : Type} (links : surroundings.Linked world steps last)
    (read : World → α)
    (kept : ∀ step ∈ steps, read (surroundings.after step) = read step.world) :
    (∀ step ∈ steps, read step.world = read world) ∧ read last = read world := by
  have same (step : Step) (member : step ∈ steps)
      (before : read step.world = read world) :
      read (surroundings.after step) = read world :=
    (kept step member).trans before
  exact ⟨links.keeps_at (read · = read world) rfl same,
    links.keeps (read · = read world) rfl same⟩

/-- The worlds that steps pass through begin with the first one. -/
theorem worlds_eq_cons (links : surroundings.Linked world steps last) :
    ∃ later, steps.map Step.world ++ [last] = world :: later := by
  cases links with
  | nil => exact ⟨[], rfl⟩
  | cons => exact ⟨_, rfl⟩

theorem after_mem {step : Step} (links : surroundings.Linked world steps last)
    (member : step ∈ steps) :
    surroundings.after step ∈ steps.map Step.world ++ [last] := by
  induction links with
  | nil => cases member
  | cons rest induction =>
      obtain rfl | inRest := List.mem_cons.1 member
      · obtain ⟨later, worlds⟩ := rest.worlds_eq_cons
        rw [List.map_cons, List.cons_append, worlds]
        exact List.mem_cons_of_mem _ List.mem_cons_self
      · exact List.mem_cons_of_mem _ (induction inRest)

/-- A transitive relation holds from every world to all later ones when every
step keeps it. -/
theorem pairwise_iff (relation : World → World → Prop)
    (trans : ∀ {first second third}, relation first second →
      relation second third → relation first third)
    (links : surroundings.Linked world steps last) :
    (steps.map Step.world ++ [last]).Pairwise relation ↔
      ∀ step ∈ steps, relation step.world (surroundings.after step) := by
  induction links with
  | nil => simp
  | @cons world last request steps rest induction =>
      obtain ⟨later, worlds⟩ := rest.worlds_eq_cons
      rw [List.map_cons, List.cons_append, List.pairwise_cons, induction,
        List.forall_mem_cons, worlds, List.forall_mem_cons]
      constructor
      · rintro ⟨⟨first, -⟩, others⟩
        exact ⟨first, others⟩
      · rintro ⟨first, others⟩
        have pairwise := induction.2 others
        rw [worlds, List.pairwise_cons] at pairwise
        exact ⟨⟨first, fun other member => trans first (pairwise.1 other member)⟩,
          others⟩

end Linked

/-! ## The worlds of an activity -/

/-- The worlds that an activity passes through, the last one included. -/
def worlds (activity : Activity α) (world : World) : List World :=
  (surroundings.steps activity world).map Step.world ++ [(surroundings.run activity world).2]

variable {surroundings}

theorem last_mem_worlds (activity : Activity α) (world : World) :
    (surroundings.run activity world).2 ∈ surroundings.worlds activity world :=
  List.mem_append_right _ (List.mem_singleton_self _)

theorem world_mem_worlds {activity : Activity α} {step : Step}
    (member : step ∈ surroundings.steps activity world) :
    step.world ∈ surroundings.worlds activity world :=
  List.mem_append_left _ (List.mem_map_of_mem member)

theorem after_mem_worlds {activity : Activity α} {step : Step}
    (member : step ∈ surroundings.steps activity world) :
    surroundings.after step ∈ surroundings.worlds activity world := by
  have links : surroundings.Linked world _ _ := surroundings.linked activity
  exact links.after_mem member

/-- What passes through two activities passes through each of them. -/
theorem worlds_bind (activity : Activity α) (next : α → Activity β)
    (world : World) :
    let middle := surroundings.run activity world
    surroundings.worlds activity world ⊆ surroundings.worlds (activity >>= next) world ∧
      surroundings.worlds (next middle.1) middle.2 ⊆
        surroundings.worlds (activity >>= next) world := by
  intro middle
  have links : surroundings.Linked middle.2 _ _ := surroundings.linked (next middle.1)
  obtain ⟨later, begins⟩ := links.worlds_eq_cons
  have all : surroundings.worlds (activity >>= next) world =
      (surroundings.steps activity world).map Step.world ++
        surroundings.worlds (next middle.1) middle.2 := by
    simp only [worlds, Bind.bind, run_bind, steps_bind, List.map_append, List.append_assoc,
      middle]
  rw [all]
  refine ⟨?_, List.subset_append_right _ _⟩
  rw [worlds, List.append_subset]
  refine ⟨List.subset_append_left _ _, ?_⟩
  apply List.subset_append_of_subset_right
  rw [worlds, begins]
  exact List.cons_subset_cons _ (List.nil_subset _)

end Surroundings

end BatchRelay
