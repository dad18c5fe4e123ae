import BatchRelay.Proofs.Engine.Interleaving

/-!
# What an activity knows

Others take turns while an activity waits for an answer, so what it has learned
of the world is of use to it only if they leave that true.  `Knows` follows an
activity from what it knows in the beginning, through what it learns by each of
its steps, to what it knows in the end.
-/

namespace BatchRelay

namespace Surroundings

variable (surroundings : Surroundings) {α β : Type}

/-- Steps of some kind leave it true. -/
def Stable (quiet : Step → Prop) (known : World → Prop) : Prop :=
  ∀ step, quiet step → known step.world → known (surroundings.after step)

/-- Knowing something of the world in which it goes on, an activity takes
permitted steps only.  From each of them it learns something that quiet steps
leave true, and in the end it knows `ends` of its result. -/
def Knows (quiet permitted : Step → Prop) (ends : α → World → Prop) :
    (World → Prop) → Activity α → Prop
  | known, .done result => ∀ world, known world → ends result world
  | known, .ask request next => ∀ world, known world →
      permitted ⟨world, request⟩ ∧ ∃ learned,
        surroundings.Stable quiet learned ∧
        learned (surroundings.after ⟨world, request⟩) ∧
        Knows quiet permitted ends learned
          (next (surroundings.answer world request).1)

variable {surroundings} {quiet permitted : Step → Prop}
  {known : World → Prop} {activity : Activity α} {next : α → Activity β}
  {ends : β → World → Prop}

namespace Knows

/-- It does no harm to know more in the beginning. -/
theorem from_more {ends : α → World → Prop} {more : World → Prop}
    (knows : surroundings.Knows quiet permitted ends known activity)
    (implies : ∀ world, more world → known world) :
    surroundings.Knows quiet permitted ends more activity := by
  cases activity with
  | done result =>
      intro world held
      exact knows world (implies world held)
  | ask request next =>
      intro world held
      exact knows world (implies world held)

theorem request {request : Request} {ends : request.Answer → World → Prop}
    (asks : ∀ world, known world →
      let answer := (surroundings.answer world request).1
      permitted ⟨world, request⟩ ∧ surroundings.Stable quiet (ends answer) ∧
        ends answer (surroundings.after ⟨world, request⟩)) :
    surroundings.Knows quiet permitted ends known (Activity.request request) := by
  intro world held
  obtain ⟨allowed, stable, isLearned⟩ := asks world held
  exact ⟨allowed, _, stable, isLearned, fun _ learned => learned⟩

theorem bind {middle : α → World → Prop}
    (first : surroundings.Knows quiet permitted middle known activity)
    (rest : ∀ result,
      surroundings.Knows quiet permitted ends (middle result) (next result)) :
    surroundings.Knows quiet permitted ends known (activity >>= next) := by
  induction activity generalizing known with
  | done result => exact (rest result).from_more first
  | ask request following induction =>
      intro world held
      obtain ⟨allowed, learned, stable, isLearned, later⟩ := first world held
      exact ⟨allowed, learned, stable, isLearned, induction _ later⟩

/-- An activity of quiet steps still knows in the end what it knew before. -/
theorem of_quiet (stable : surroundings.Stable quiet known)
    (all : ∀ steps result, surroundings.Performs activity steps result →
      ∀ step ∈ steps, quiet step ∧ (known step.world → permitted step)) :
    surroundings.Knows quiet permitted (fun _ => known) known activity := by
  induction activity with
  | done result => exact fun _ held => held
  | ask request next induction =>
      intro world held
      have first := all _ _ (steps_performs (.ask request next) world)
      obtain ⟨isQuiet, allowed⟩ := first ⟨world, request⟩ List.mem_cons_self
      refine ⟨allowed held, known, stable, stable _ isQuiet held, ?_⟩
      apply induction
      intro steps result performs step member
      exact all _ _ (.ask performs) step (List.mem_cons_of_mem _ member)

/-- While others take quiet steps, an activity that knows something takes
permitted steps only.  The induction is on the turns; a turn of others leaves the
activity as it is, with what it knows. -/
theorem permits {ι : Type} [DecidableEq ι] {who : ι}
    {turns : List (ι × Step)} {world last : World} {more : List Step}
    {result : α} {ends : α → World → Prop}
    (knows : surroundings.Knows quiet permitted ends known activity)
    (stable : surroundings.Stable quiet known) (start : known world)
    (links : surroundings.Linked world (turns.map Prod.snd) last)
    (performs : surroundings.Performs activity (ownSteps turns who ++ more)
      result)
    (others : ∀ turn ∈ turns, turn.1 ≠ who → quiet turn.2) :
    ∀ step ∈ ownSteps turns who, permitted step := by
  induction turns generalizing world known activity with
  | nil =>
      intro step member
      cases member
  | cons turn turns induction =>
      obtain ⟨other, step⟩ := turn
      obtain ⟨isOther, aside⟩ := List.forall_mem_cons.1 others
      obtain ⟨rfl, rest⟩ := Linked.cons_iff.1 links
      by_cases same : other = who
      · subst same
        rw [ownSteps_cons_self] at performs ⊢
        cases performs with
        | ask later =>
            obtain ⟨allowed, learned, isStable, isLearned, onwards⟩ :=
              knows _ start
            have back := induction onwards isStable isLearned rest later aside
            exact List.forall_mem_cons.2 ⟨allowed, back⟩
      · rw [ownSteps_cons_of_ne same] at performs ⊢
        have kept := stable step (isOther same) start
        exact induction knows stable kept rest performs aside

end Knows

end Surroundings

end BatchRelay
