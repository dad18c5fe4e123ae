import BatchRelay.Proofs.Engine.Contents
import BatchRelay.Proofs.Engine.Interference

/-!
# Activities that take turns

Activities that go on at the same time take turns between their requests.  What
happens is told by the turns, each a step and who took it.  The steps are linked,
since every request is answered in the world that the one before has left, and
everyone's own steps are those of their own activity.

Every request adds one to the moment of the world, so moments tell which of two
turns was first.
-/

namespace BatchRelay

variable {ι : Type} [DecidableEq ι]

/-- The steps that one of the activities has taken. -/
def ownSteps (turns : List (ι × Step)) (who : ι) : List Step :=
  (turns.filter fun turn => turn.1 = who).map Prod.snd

section OwnSteps

variable {turns more : List (ι × Step)} {who other : ι} {step : Step}
  {steps : List Step}

theorem mem_ownSteps : step ∈ ownSteps turns who ↔ (who, step) ∈ turns := by
  simp [ownSteps]

theorem ownSteps_sublist :
    (ownSteps turns who).Sublist (turns.map Prod.snd) :=
  List.filter_sublist.map Prod.snd

theorem mem_of_ownSteps (own : step ∈ ownSteps turns who) :
    step ∈ turns.map Prod.snd :=
  List.mem_map_of_mem (mem_ownSteps.1 own)

theorem exists_ownSteps (member : step ∈ turns.map Prod.snd) :
    ∃ who, step ∈ ownSteps turns who := by
  rcases List.mem_map.1 member with ⟨⟨who, _⟩, isTurn, rfl⟩
  exact ⟨who, mem_ownSteps.2 isTurn⟩

theorem ownSteps_append :
    ownSteps (turns ++ more) who = ownSteps turns who ++ ownSteps more who := by
  simp [ownSteps]

theorem ownSteps_cons_self :
    ownSteps ((who, step) :: turns) who = step :: ownSteps turns who := by
  simp [ownSteps]

theorem ownSteps_cons_of_ne (isOther : other ≠ who) :
    ownSteps ((other, step) :: turns) who = ownSteps turns who := by
  simp [ownSteps, isOther]

/-- The turns of one who takes steps without a break. -/
theorem ownSteps_map_self : ownSteps (steps.map (who, ·)) who = steps := by
  simp [ownSteps, List.filter_map, Function.comp_def]

theorem ownSteps_map_of_ne (isOther : other ≠ who) :
    ownSteps (steps.map (other, ·)) who = [] := by
  simp [ownSteps, List.filter_map, Function.comp_def, isOther]

end OwnSteps

namespace Surroundings

/-- Activities that take turns from one world to another, each of them up to its
result. -/
structure Interleaves {α : ι → Type} (surroundings : Surroundings)
    (activities : ∀ who, Activity (α who)) (world : World)
    (turns : List (ι × Step)) (results : ∀ who, α who) (last : World) :
    Prop where
  linked : surroundings.Linked world (turns.map Prod.snd) last
  performs : ∀ who, surroundings.Performs (activities who) (ownSteps turns who)
    (results who)

variable {surroundings : Surroundings} {world last : World} {steps : List Step}

/-! ## Moments -/

namespace Linked

variable (links : surroundings.Linked world steps last)

include links

theorem moment_le : ∀ step ∈ steps, world.moment ≤ step.world.moment := by
  apply links.keeps_at (fun reached => world.moment ≤ reached.moment) (Nat.le_refl _)
  intro step _ before
  rw [moment_after]
  omega

theorem pairwise_moment :
    steps.Pairwise fun earlier later =>
      earlier.world.moment < later.world.moment := by
  induction links with
  | nil => exact .nil
  | cons rest induction =>
      refine .cons ?_ induction
      intro step member
      have later := rest.moment_le step member
      rw [moment_after] at later
      exact later

theorem eq_of_moment {step other : Step} (member : step ∈ steps)
    (isMember : other ∈ steps)
    (same : step.world.moment = other.world.moment) : step = other := by
  induction links with
  | nil => cases member
  | cons rest induction =>
      have later {next : Step} (inRest : next ∈ _) :=
        rest.moment_le next inRest
      simp only [moment_after] at later
      rcases List.mem_cons.1 member with rfl | inRest <;>
        rcases List.mem_cons.1 isMember with rfl | otherInRest
      · rfl
      · have after := later otherInRest
        simp only at same
        omega
      · have after := later inRest
        simp only at same
        omega
      · exact induction inRest otherInRest

theorem since {first : Step} (member : first ∈ steps) :
    ∃ back, surroundings.Linked first.world back last ∧
      ∀ step, step ∈ back ↔
        step ∈ steps ∧ first.world.moment ≤ step.world.moment := by
  have ordered := links.pairwise_moment
  rcases List.append_of_mem member with ⟨front, back, rfl⟩
  have onwards := links.of_append
  refine ⟨first :: back, onwards, ?_⟩
  intro step
  constructor
  · intro inBack
    exact ⟨List.mem_append_right _ inBack, onwards.moment_le step inBack⟩
  · rintro ⟨isMember, later⟩
    rcases List.mem_append.1 isMember with inFront | inBack
    · have before := (List.pairwise_append.1 ordered).2.2 step inFront first
        List.mem_cons_self
      omega
    · exact inBack

theorem beyond {first : Step} (member : first ∈ steps) :
    ∃ back, surroundings.Linked (surroundings.after first) back last ∧
      ∀ step, step ∈ back ↔
        step ∈ steps ∧ first.world.moment < step.world.moment := by
  rcases links.since member with ⟨back, onwards, isBack⟩
  cases onwards with
  | nil =>
      have inBack := (isBack first).2 ⟨member, Nat.le_refl _⟩
      cases inBack
  | @cons _ _ request rest onwards =>
      have isFirst : ⟨first.world, request⟩ = first := by
        have inBack := (isBack first).2 ⟨member, Nat.le_refl _⟩
        rcases List.mem_cons.1 inBack with same | inRest
        · exact same.symm
        · have later := onwards.moment_le first inRest
          rw [moment_after] at later
          simp only at later
          omega
      rw [isFirst] at onwards isBack
      refine ⟨rest, onwards, ?_⟩
      intro step
      constructor
      · intro inRest
        have later := onwards.moment_le step inRest
        rw [moment_after] at later
        exact ⟨((isBack step).1 (List.mem_cons_of_mem _ inRest)).1, later⟩
      · rintro ⟨isMember, later⟩
        have inBack := (isBack step).2 ⟨isMember, Nat.le_of_lt later⟩
        rcases List.mem_cons.1 inBack with rfl | inRest
        · exact absurd later (Nat.lt_irrefl _)
        · exact inRest

theorem moment_le_worlds :
    ∀ reached ∈ steps.map Step.world ++ [last], world.moment ≤ reached.moment := by
  rw [List.forall_mem_append, List.forall_mem_map, List.forall_mem_singleton]
  refine ⟨links.moment_le, ?_⟩
  apply links.keeps (fun reached => world.moment ≤ reached.moment) (Nat.le_refl _)
  intro step _ before
  rw [moment_after]
  omega

/-- What does not hold at first but does later is brought about by a step. -/
theorem exists_step (holds : World → Prop) {later : World}
    (isLater : later ∈ steps.map Step.world ++ [last]) (before : ¬holds world)
    (held : holds later) :
    ∃ step ∈ steps, step.world.moment < later.moment ∧ ¬holds step.world ∧
      holds (surroundings.after step) := by
  induction links with
  | nil =>
      cases List.mem_singleton.1 isLater
      exact absurd held before
  | @cons world last request steps rest induction =>
      rcases List.mem_cons.1 isLater with rfl | inRest
      · exact absurd held before
      · by_cases now : holds (surroundings.after ⟨world, request⟩)
        · have order := rest.moment_le_worlds later inRest
          rw [moment_after] at order
          exact ⟨_, List.mem_cons_self, order, before, now⟩
        · rcases induction inRest now with ⟨step, member, found⟩
          exact ⟨step, List.mem_cons_of_mem _ member, found⟩

theorem since_world {reached : World}
    (isReached : reached ∈ steps.map Step.world ++ [last]) :
    ∃ back, surroundings.Linked reached back last ∧
      ∀ step, step ∈ back ↔
        step ∈ steps ∧ reached.moment ≤ step.world.moment := by
  rcases List.mem_append.1 isReached with atStep | atEnd
  · rcases List.mem_map.1 atStep with ⟨step, member, rfl⟩
    exact links.since member
  · cases List.mem_singleton.1 atEnd
    refine ⟨[], .nil, fun step => ⟨nofun, fun ⟨member, onward⟩ => ?_⟩⟩
    rcases links.beyond member with ⟨back, onwards, -⟩
    have later := onwards.moment_le_worlds last
      (List.mem_append_right _ (List.mem_singleton_self _))
    rw [moment_after] at later
    omega

/-- What does not hold in one world but does in a later one is brought about by a
step in between. -/
theorem exists_step_between (holds : World → Prop) {earlier later : World}
    (isEarlier : earlier ∈ steps.map Step.world ++ [last])
    (isLater : later ∈ steps.map Step.world ++ [last])
    (order : earlier.moment ≤ later.moment) (before : ¬holds earlier)
    (held : holds later) :
    ∃ step ∈ steps, earlier.moment ≤ step.world.moment ∧
      step.world.moment < later.moment ∧ ¬holds step.world ∧
        holds (surroundings.after step) := by
  rcases links.since_world isEarlier with ⟨back, onwards, isBack⟩
  have inBack : later ∈ back.map Step.world ++ [last] := by
    rcases List.mem_append.1 isLater with atStep | atEnd
    · rcases List.mem_map.1 atStep with ⟨step, member, rfl⟩
      exact List.mem_append_left _
        (List.mem_map_of_mem ((isBack step).2 ⟨member, order⟩))
    · exact List.mem_append_right _ atEnd
  rcases onwards.exists_step holds inBack before held with
    ⟨step, isStep, earlierStep, notYet, now⟩
  rcases (isBack step).1 isStep with ⟨member, onward⟩
  exact ⟨step, member, onward, earlierStep, notYet, now⟩

end Linked

/-! ## Relying on each other -/

variable {α : ι → Type} {activities : ∀ who, Activity (α who)}
  {turns : List (ι × Step)} {results : ∀ who, α who}

variable {holds : World → Prop} {permitted : Step → Prop}

/-- The induction is on the turns; what the others have still to do stays as it
is while one of them takes a turn. -/
private theorem linked_heeds
    (links : surroundings.Linked world (turns.map Prod.snd) last)
    (start : holds world)
    (kept : ∀ step, holds step.world → permitted step →
      holds (surroundings.after step))
    (heeds : ∀ who, ∃ (told : List Step → α who → Prop)
      (activity : Activity (α who)),
      surroundings.Heeds holds permitted told activity ∧
        surroundings.Performs activity (ownSteps turns who) (results who)) :
    (∀ turn ∈ turns, holds turn.2.world ∧ permitted turn.2) ∧ holds last := by
  induction turns generalizing world with
  | nil =>
      cases links
      exact ⟨fun _ member => (by cases member), start⟩
  | cons turn turns induction =>
      rcases turn with ⟨who, step⟩
      cases links with
      | cons rest =>
          rcases heeds who with ⟨told, activity, obeys, performs⟩
          rw [ownSteps_cons_self] at performs
          cases performs with
          | @ask request next _ _ _ later =>
              rcases obeys _ start with ⟨allowed, onwards⟩
              have others := induction rest (kept _ start allowed) fun other => by
                by_cases same : other = who
                · subst same
                  exact ⟨_, _, onwards, later⟩
                · rcases heeds other with ⟨told, activity, obeys, performs⟩
                  rw [ownSteps_cons_of_ne (Ne.symm same)] at performs
                  exact ⟨told, activity, obeys, performs⟩
              exact ⟨List.forall_mem_cons.2 ⟨⟨start, allowed⟩, others.1⟩,
                others.2⟩

/-- When everyone takes permitted steps only as long as the world is as they
rely on, and permitted steps keep it so, then it is so all along. -/
theorem Interleaves.heeds {told : ∀ who, List Step → α who → Prop}
    (interleaves : surroundings.Interleaves activities world turns results last)
    (start : holds world)
    (kept : ∀ step, holds step.world → permitted step →
      holds (surroundings.after step))
    (heeds : ∀ who, surroundings.Heeds holds permitted (told who)
      (activities who)) :
    (∀ turn ∈ turns, holds turn.2.world ∧ permitted turn.2) ∧ holds last ∧
      ∀ who, told who (ownSteps turns who) (results who) := by
  have all := linked_heeds interleaves.linked start kept fun who =>
    ⟨told who, activities who, heeds who, interleaves.performs who⟩
  refine ⟨all.1, all.2, ?_⟩
  intro who
  have held (step : Step) (own : step ∈ ownSteps turns who) : holds step.world :=
    (all.1 _ (mem_ownSteps.1 own)).1
  exact ((heeds who).of_performs (interleaves.performs who) held).2

/-! ## Two activities -/

section Within

variable {β γ : Type} {activities : Bool → Activity β} {front middle back : List Step}
  {result other : β}

/-- One of two activities comes to its result while the other one has done a
part of its own. -/
theorem interleaves_within
    (links : surroundings.Linked world (front ++ (middle ++ back)) last)
    (performs : surroundings.Performs (activities true) (front ++ back) result)
    (performsOther : surroundings.Performs (activities false) middle other) :
    surroundings.Interleaves activities world
      (front.map (true, ·) ++ (middle.map (false, ·) ++ back.map (true, ·)))
      (fun who => bif who then result else other) last := by
  constructor
  case linked =>
    simp only [List.map_append, List.map_map, Function.comp_def, List.map_id']
    exact links
  case performs =>
    intro who
    cases who with
    | true =>
        rw [ownSteps_append, ownSteps_append, ownSteps_map_self,
          ownSteps_map_self, ownSteps_map_of_ne (by decide), List.nil_append]
        exact performs
    | false =>
        rw [ownSteps_append, ownSteps_append, ownSteps_map_self,
          ownSteps_map_of_ne (by decide), ownSteps_map_of_ne (by decide),
          List.nil_append, List.append_nil]
        exact performsOther

theorem interleaves_around (first : Activity γ) (next : γ → Activity β)
    (splits : activities true = first >>= next) (world : World) :
    let opened := surroundings.run first world
    let between := surroundings.run (activities false) opened.2
    let closed := surroundings.run (next opened.1) between.2
    surroundings.Interleaves activities world
      ((surroundings.steps first world).map (true, ·) ++
        ((surroundings.steps (activities false) opened.2).map (false, ·) ++
          (surroundings.steps (next opened.1) between.2).map (true, ·)))
      (fun who => bif who then closed.1 else between.1) closed.2 := by
  intro opened between closed
  apply interleaves_within
  · exact (surroundings.linked first).append
      ((surroundings.linked _).append (surroundings.linked _))
  · rw [splits]
    exact performs_bind.2 ⟨_, _, _, rfl, steps_performs first world,
      steps_performs _ _⟩
  · exact steps_performs _ _

end Within

end Surroundings

end BatchRelay
