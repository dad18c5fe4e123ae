import BatchRelay.Proofs.Engine.Leftovers
import BatchRelay.Proofs.Engine.Trials

/-!
# Removed routes

As long as deletions work, a hash has no route once an outcome of it has been
dealt with, whatever came of the outcome: the batch may be missing or unreadable,
the network may have refused its next group, the record may not have been
written.  A group that is sent on the way may bring the route back only before it
is removed.  In a pass the route of an earlier hash can come back, but only with
a later group.
-/

namespace BatchRelay

namespace Surroundings

variable {surroundings : Surroundings} {lifetimes : Lifetimes}
  {world last : World} {steps : List Step} {step : Step}
  {trial : Trial} {trials : List Trial} {key hash : String}

theorem clears_after_removeRoute
    (works : surroundings.fault world.moment (.delete (Routes.key hash)) = none) :
    (surroundings.after (.removeRoute world hash)).Clears (Routes.key hash) := by
  intro entry member
  rw [Step.removeRoute, cache_after_delete works, Cache.mem_delete] at member
  exact member.2 rfl

/-! ## One reconciliation -/

namespace Attempts

variable (attempts : surroundings.Attempts lifetimes trial)

include attempts

theorem takes (member : step ∈ trial.steps) {value : String}
    (written : step.request.written? = some (Routes.key hash, value)) :
    surroundings.Takes trial.steps hash := by
  rcases attempts.performs.reconcile with ⟨front, removed, steps, handles⟩
  rw [steps] at member ⊢
  rcases List.mem_append.1 member with inFront | atEnd
  · have touched := Request.touched?_of_written? written
    exact (handles.takes inFront touched).mono (List.subset_append_left _ _)
  · cases List.mem_singleton.1 atEnd
    cases written

theorem clears (links : surroundings.Linked world trial.steps last)
    (deletes : ∀ moment key, surroundings.fault moment (.delete key) = none) :
    last.Clears (Routes.key trial.hash) := by
  rcases attempts.performs.reconcile with ⟨front, removed, steps, -⟩
  rw [steps] at links
  cases links.of_append with
  | cons rest =>
      cases rest
      exact clears_after_removeRoute (deletes _ _)

end Attempts

/-! ## A whole pass -/

namespace Works

variable (works : surroundings.Works lifetimes trials steps)

include works

theorem clears_or_takes (links : surroundings.Linked world steps last)
    (clears : world.Clears (Routes.key hash)) :
    last.Clears (Routes.key hash) ∨
      ∃ trial ∈ trials, surroundings.Takes trial.steps hash := by
  induction works generalizing world with
  | done =>
      cases links
      exact .inl clears
  | @aside trials step steps isAside _ induction =>
      have unwritten (value : String) :
          step.request.written? ≠ some (Routes.key hash, value) := by
        intro written
        exact Request.touched?_of_isAside isAside (isTracked_routeKey hash)
          (Request.touched?_of_written? written)
      cases links with
      | cons rest => exact induction rest (clears_after clears unwritten)
  | @tried trial trials steps attempts _ induction =>
      rcases links.split with ⟨middle, first, rest⟩
      by_cases taken : surroundings.Takes trial.steps hash
      · exact .inr ⟨trial, List.mem_cons_self, taken⟩
      · have clearsMiddle : middle.Clears (Routes.key hash) := by
          apply first.keeps (fun world => world.Clears (Routes.key hash)) clears
          intro step member clears
          apply clears_after clears
          intro value written
          exact taken (attempts.takes member written)
        rcases induction rest clearsMiddle with cleared | ⟨other, later, takes⟩
        · exact .inl cleared
        · exact .inr ⟨other, List.mem_cons_of_mem _ later, takes⟩

end Works

/-- After a pass no hash that it has tried has a route, at whatever moment one
looks, unless the network has taken the hash in a later trial. -/
def Cleaned (surroundings : Surroundings) (trials : List Trial) (last : World) :
    Prop :=
  ∀ earlier trial later, trials = earlier ++ trial :: later →
    (∀ now, last.cache.get now (Routes.key trial.hash) = none) ∨
      ∃ other ∈ later, surroundings.Takes other.steps trial.hash

theorem Works.cleaned (works : surroundings.Works lifetimes trials steps)
    (links : surroundings.Linked world steps last)
    (deletes : ∀ moment key, surroundings.fault moment (.delete key) = none) :
    surroundings.Cleaned trials last := by
  induction works generalizing world with
  | done =>
      intro earlier trial later split
      simp at split
  | aside _ _ induction =>
      cases links with
      | cons rest => exact induction rest
  | tried attempts works induction =>
      rcases links.split with ⟨middle, first, rest⟩
      intro earlier trial later split
      cases earlier with
      | nil =>
          cases split
          have cleared := attempts.clears first deletes
          rcases works.clears_or_takes rest cleared with clears | takes
          · exact .inl clears.get
          · exact .inr takes
      | cons _ earlier =>
          cases split
          exact induction rest earlier trial later rfl

theorem Tries.cleaned {α : Type} {activity : Activity α}
    (tries : surroundings.Tries lifetimes (fun _ => True) (fun _ => True)
      (fun _ => True) activity)
    (deletes : ∀ moment key, surroundings.fault moment (.delete key) = none)
    (world : World) :
    ∃ trials, surroundings.Works lifetimes trials
        (surroundings.steps activity world) ∧
      surroundings.Cleaned trials (surroundings.run activity world).2 := by
  rcases tries.works with ⟨trials, works⟩
  exact ⟨trials, works, works.cleaned (surroundings.linked activity) deletes⟩

variable (surroundings lifetimes)

/-- A reconciliation leaves no route of its hash behind.  A tick or a sweep
leaves none of a hash that it has tried, unless a later reconciliation of the
same pass has sent a group that brought it back. -/
theorem tried_routes_removed
    (deletes : ∀ moment key, surroundings.fault moment (.delete key) = none) :
    (∀ hash batchId address outcome world now,
      (surroundings.run (reconcile lifetimes hash batchId address outcome)
        world).2.cache.get now (Routes.key hash) = none) ∧
    (∀ settings world, ∃ trials,
      surroundings.Works lifetimes trials
          (surroundings.steps (Watch.tick lifetimes settings) world) ∧
        surroundings.Cleaned trials
          (surroundings.run (Watch.tick lifetimes settings) world).2) ∧
    (∀ settings now world, ∃ trials,
      surroundings.Works lifetimes trials
          (surroundings.steps (Sweep.runAt lifetimes settings now) world) ∧
        surroundings.Cleaned trials
          (surroundings.run (Sweep.runAt lifetimes settings now) world).2) := by
  have traversal := (surroundings.reliance_trivial lifetimes).traversal
  have nothing : ∀ pair ∈ ([] : List (String × Route)), True :=
    fun _ _ => trivial
  refine ⟨?_, ?_, ?_⟩
  · intro hash batchId address outcome world now
    rw [run_reconcile_eq]
    exact (clears_after_removeRoute (deletes _ _)).get now
  · intro settings world
    exact Tries.cleaned (traversal.tick settings nothing) deletes world
  · intro settings now world
    exact Tries.cleaned (traversal.sweepAt settings now nothing) deletes world

theorem waiting_route_removed :
    ((Sample.network Sample.third).route? Sample.attempts.final
        Sample.first.hash).isSome = true ∧
      (∀ now, ((Sample.network Sample.third).run
        (reconcile .forever Sample.first.hash "b" Sample.alice .success)
        Sample.attempts.final).2.cache.get now
          (Routes.key Sample.first.hash) = none) ∧
      ∃ trials, (Sample.network Sample.third).Works .forever trials
          ((Sample.network Sample.third).steps
            (Watch.tick .forever ⟨[0], 0⟩) Sample.attempts.final) ∧
        (Sample.network Sample.third).Cleaned trials
          ((Sample.network Sample.third).run
            (Watch.tick .forever ⟨[0], 0⟩) Sample.attempts.final).2 := by
  have removed := tried_routes_removed (Sample.network Sample.third) .forever
    fun _ _ => rfl
  rcases Sample.attempts_shows with ⟨text?, shows, -, since, waits⟩
  refine ⟨?_, removed.1 _ _ _ _ _, removed.2.1 _ _⟩
  have found : (Sample.network Sample.third).route? Sample.attempts.final
      Sample.first.hash = _ := shows.route?
  rw [found, waits]
  rfl

end Surroundings

end BatchRelay
