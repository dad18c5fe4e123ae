import BatchRelay.Proofs.Engine.Calm

/-!
# Runs without time

When no record and no route gets a time to live, nothing that the engine reads
ever runs out of time.  Such a run is calm as soon as no access fails.
-/

namespace BatchRelay

/-- Entries that never run out of time. -/
def Lifetimes.forever : Lifetimes :=
  ⟨none, none, none⟩

/-- Whether a request writes no record and no route that runs out of time. -/
def Request.WritesForever : Request → Prop
  | .write key _ ttl => isTracked key = true → ttl = none
  | .writeIfAbsent key _ _ => isTracked key = false
  | _ => True

theorem Request.writesForever_of_isAside {request : Request}
    (isAside : request.isAside = true) : request.WritesForever := by
  cases request with
  | write | writeIfAbsent =>
      simp only [Request.isAside, Bool.not_eq_true'] at isAside
      simp [WritesForever, isAside]
  | _ => trivial

theorem Request.Sends.writesForever {request : Request} {address id : String}
    {group : Nat} (sends : request.Sends .forever address id group) :
    request.WritesForever := by
  cases sends with
  | write => exact fun _ => rfl
  | _ => trivial

/-- A world in which no record and no route runs out of time. -/
def World.Timeless (world : World) : Prop :=
  ∀ key entry, (key, entry) ∈ world.cache.entries → isTracked key = true →
    entry.deadline = none

namespace Surroundings

variable {surroundings : Surroundings} {world last : World} {step : Step}
  {steps : List Step}

theorem lasting_of_timeless (timeless : world.Timeless) :
    surroundings.Lasting world := by
  intro key entry member tracked
  simp [Entry.isLive, timeless key entry member tracked]

theorem steady_of_timeless {worlds : List World}
    (timeless : ∀ world ∈ worlds, world.Timeless) : surroundings.Steady worlds := by
  intro first isFirst second _ key entry member tracked
  simp [Entry.isLive, timeless first isFirst key entry member tracked]

theorem timeless_after (timeless : step.world.Timeless)
    (forever : step.request.WritesForever) :
    (surroundings.after step).Timeless := by
  obtain ⟨world, request⟩ := step
  intro key entry member tracked
  cases request with
  | write other value ttl =>
      simp only [after, answer, Surroundings.access] at member
      split at member
      · exact timeless key entry member tracked
      · obtain ⟨rfl, rfl⟩ | ⟨⟨before, -⟩, -⟩ := Cache.mem_set.1 member
        · rw [forever tracked]
          rfl
        · exact timeless key entry before tracked
  | writeIfAbsent other value ttl =>
      have isOther : key ≠ other := by
        rintro rfl
        rw [forever] at tracked
        cases tracked
      simp only [after, answer, Surroundings.access] at member
      split at member
      · exact timeless key entry member tracked
      · exact timeless key entry ((Cache.mem_setIfAbsent isOther).1 member) tracked
  | delete | deleteIfEquals =>
      have before := (mem_after_cases member).resolve_right
        fun written => by cases written
      exact timeless key entry before tracked
  | _ =>
      rw [cache_after_untouched rfl] at member
      exact timeless key entry member tracked

theorem timeless_worlds {α : Type} {activity : Activity α} (timeless : world.Timeless)
    (forever : ∀ step ∈ surroundings.steps activity world, step.request.WritesForever) :
    ∀ passed ∈ surroundings.worlds activity world, passed.Timeless := by
  have links : surroundings.Linked world _ _ := surroundings.linked activity
  have kept : ∀ step ∈ surroundings.steps activity world,
      step.world.Timeless → (surroundings.after step).Timeless :=
    fun step member before => timeless_after before (forever step member)
  intro passed member
  rcases List.mem_append.1 member with inSteps | isLast
  · obtain ⟨step, isStep, rfl⟩ := List.mem_map.1 inSteps
    exact links.keeps_at World.Timeless timeless kept step isStep
  · exact List.mem_singleton.1 isLast ▸ links.keeps World.Timeless timeless kept

/-- Steps at which nothing fails are calm when nothing gets a time to live. -/
theorem Linked.calm_of_forever (links : surroundings.Linked world steps last)
    (works : ∀ moment access, surroundings.fault moment access = none)
    (timeless : world.Timeless)
    (forever : ∀ step ∈ steps, step.request.WritesForever) :
    ∀ step ∈ steps, surroundings.Calm step := by
  have before := links.keeps_at World.Timeless timeless fun step member held =>
    timeless_after held (forever step member)
  intro step member
  have after : (surroundings.after step).Timeless :=
    timeless_after (before step member) (forever step member)
  exact ⟨works _, lasting_of_timeless (before step member),
    lasting_of_timeless after⟩

theorem Reconciling.writesForever {hash batchId address : String}
    {outcome : ItemStatus}
    (reconciling : surroundings.Reconciling .forever hash batchId address outcome
      world steps last) : ∀ step ∈ steps, step.request.WritesForever := by
  cases reconciling with
  | skipped =>
      simp only [List.forall_mem_cons, List.not_mem_nil, false_implies,
        implies_true, and_true]
      exact ⟨trivial, trivial⟩
  | applied applied =>
      simp only [List.forall_mem_cons, List.forall_mem_append,
        List.not_mem_nil, false_implies, implies_true, and_true]
      exact ⟨trivial,
        fun step member => (applied.followed.sends step member).writesForever,
        fun _ => rfl, trivial⟩

theorem Submitting.writesForever {request : BatchRequest}
    (submitting : surroundings.Submitting .forever request world steps last) :
    ∀ step ∈ steps, step.request.WritesForever := by
  cases submitting with
  | malformed => exact List.forall_mem_nil _
  | rejected => exact List.forall_mem_singleton.2 trivial
  | refused offered =>
      exact List.forall_mem_cons.2 ⟨trivial,
        fun step member => (offered.sent.sends step member).writesForever⟩
  | stored offered =>
      simp only [List.forall_mem_cons, List.forall_mem_append,
        List.not_mem_nil, false_implies, implies_true, and_true]
      exact ⟨trivial,
        fun step member => (offered.sent.sends step member).writesForever,
        fun _ => rfl⟩

/-- All worlds so far are timeless. -/
def TimelessThrough (past : List Step) (world : World) : Prop :=
  (∀ step ∈ past, step.world.Timeless) ∧ world.Timeless

theorem TimelessThrough.append {past : List Step}
    (through : TimelessThrough past world)
    (links : surroundings.Linked world steps last)
    (forever : ∀ step ∈ steps, step.request.WritesForever) :
    TimelessThrough (past ++ steps) last :=
  links.keeps_through World.Timeless through fun step member timeless =>
    timeless_after timeless (forever step member)

theorem invariant_timeless :
    Invariant surroundings .forever (fun _ => True)
      fun _ => TimelessThrough where
  aside {_ _ world request} _ through _ isAside :=
    through.append (.single surroundings ⟨world, request⟩)
      (List.forall_mem_singleton.2 (Request.writesForever_of_isAside isAside))
  found _ through _ := through
  forgotten through := through
  reconciled _ through _ _ reconciling _ :=
    through.append reconciling.linked reconciling.writesForever
  submitted _ through submitting _ :=
    through.append submitting.linked submitting.writesForever

end Surroundings

/-- A run is calm when no access fails and nothing runs out of time. -/
theorem Run.calm_of_forever (run : Run)
    (works : ∀ moment access, run.surroundings.fault moment access = none)
    (forever : run.lifetimes = .forever) : run.Calm where
  works := works
  lasting := by
    have start : Surroundings.TimelessThrough [] run.start :=
      ⟨List.forall_mem_nil _, fun key entry member => by
        simp [Run.start, World.start, run.empty] at member⟩
    obtain ⟨-, before, now⟩ := run.holds
      (forever ▸ Surroundings.invariant_timeless) start fun _ _ => trivial
    exact run.forall_worlds.2
      ⟨fun step member => Surroundings.lasting_of_timeless (before step member),
        Surroundings.lasting_of_timeless now⟩

end BatchRelay
