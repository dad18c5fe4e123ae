import BatchRelay.Proofs.Cache.Deadlines
import BatchRelay.Proofs.Engine.Steps

/-!
# Deadlines that overflow

An activity in which nothing overflows does what `run` says.  Only a write with a
time to live can overflow, when there is no room for its deadline.
-/

namespace BatchRelay

/-- The time to live that a request sets. -/
def Request.ttl? : Request → Option Nat
  | .write _ _ ttl => ttl
  | .writeIfAbsent _ _ ttl => some ttl
  | _ => none

namespace Surroundings

/-- Whether there is room for the deadline that a step sets, if any. -/
def HasRoom (surroundings : Surroundings) (step : Step) : Prop :=
  ∀ ttl ∈ step.request.ttl?,
    step.world.cache.Fits (surroundings.millis step.world) ttl

variable {surroundings : Surroundings} {world : World}

theorem answer?_cases (surroundings : Surroundings) (world : World)
    (request : Request) :
    surroundings.answer? world request = .ok (surroundings.answer world request) ∨
      ¬surroundings.HasRoom ⟨world, request⟩ ∧
        surroundings.answer? world request = .error .deadline := by
  cases request with
  | write key value ttl =>
      simp only [answer?, access?, answer, access]
      cases surroundings.fault world.moment (.write key) with
      | some error => exact .inl rfl
      | none =>
          obtain ⟨-, written⟩ | ⟨⟨span, isTtl, narrow⟩, overflows⟩ :=
            world.cache.set?_cases (surroundings.millis world) key value ttl
          · exact .inl (by simp [written, Except.map])
          · exact .inr ⟨fun room => narrow (room span isTtl),
              by simp [overflows, Except.map]⟩
  | writeIfAbsent key value ttl =>
      simp only [answer?, access?, answer, access]
      cases surroundings.fault world.moment (.write key) with
      | some error => exact .inl rfl
      | none =>
          obtain ⟨-, written⟩ | ⟨narrow, overflows⟩ :=
            world.cache.setIfAbsent?_cases (surroundings.millis world) key value ttl
          · exact .inl (by simp [written, Except.map])
          · exact .inr ⟨fun room => narrow (room ttl rfl),
              by simp [overflows, Except.map]⟩
  | _ => exact .inl rfl

/-! ## Writes -/

section Writes

variable {key value : String} {written : Except Overflow World}
  {overflow : Overflow}

/-- An access that does not fail is done, or it overflows. -/
theorem access?_cases {α : Type} {access : Access}
    {perform : Cache → Except Overflow (α × Cache)} {reply : α}
    (ran : surroundings.access? world access perform =
      written.map fun last => (.ok reply, last)) :
    (∃ cache, perform world.cache = .ok (reply, cache) ∧
        written = .ok (world.withCache cache)) ∨
      ∃ overflow, perform world.cache = .error overflow ∧ written = .error overflow := by
  unfold access? at ran
  split at ran
  · cases written <;> cases ran
  · cases performed : perform world.cache with
    | error overflow =>
        rw [performed] at ran
        cases written <;> cases ran
        exact .inr ⟨overflow, rfl, rfl⟩
    | ok result =>
        rw [performed] at ran
        cases written <;> cases ran
        exact .inl ⟨result.2, rfl, rfl⟩

/-- A write that does not fail overflows just when there is no room. -/
theorem write_eq_error_iff {ttl : Option Nat}
    (ran : surroundings.answer? world (.write key value ttl) =
      written.map fun last => (.ok (), last)) :
    written = .error overflow ↔
      (∃ span ∈ ttl, ¬world.cache.Fits (surroundings.millis world) span) ∧
        overflow = .deadline := by
  simp only [answer?] at ran
  have performs := access?_cases ran
  obtain ⟨room, done⟩ | ⟨narrow, overflows⟩ :=
    world.cache.set?_cases (surroundings.millis world) key value ttl
  · rw [done] at performs
    obtain ⟨cache, -, rfl⟩ | ⟨_, isError, -⟩ := performs
    · refine iff_of_false nofun ?_
      rintro ⟨⟨span, isTtl, narrow⟩, -⟩
      exact narrow (room span isTtl)
    · cases isError
  · rw [overflows] at performs
    obtain ⟨_, isOk, -⟩ | ⟨_, isError, rfl⟩ := performs
    · cases isOk
    · cases isError
      rw [and_iff_right narrow, Except.error.injEq, eq_comm]

theorem writeIfAbsent_eq_error_iff {ttl : Nat}
    (ran : surroundings.answer? world (.writeIfAbsent key value ttl) =
      written.map fun last => (.ok true, last)) :
    written = .error overflow ↔
      ¬world.cache.Fits (surroundings.millis world) ttl ∧ overflow = .deadline := by
  simp only [answer?] at ran
  have performs := access?_cases ran
  obtain ⟨room, done⟩ | ⟨narrow, overflows⟩ :=
    world.cache.setIfAbsent?_cases (surroundings.millis world) key value ttl
  · rw [done] at performs
    obtain ⟨cache, granted, rfl⟩ | ⟨_, isError, -⟩ := performs
    · refine iff_of_false nofun ?_
      rintro ⟨narrow, -⟩
      obtain fits | refused := room
      · exact narrow fits
      · rw [Except.ok.inj granted] at refused
        cases refused
    · cases isError
  · rw [overflows] at performs
    obtain ⟨_, isOk, -⟩ | ⟨_, isError, rfl⟩ := performs
    · cases isOk
    · cases isError
      rw [and_iff_right narrow, Except.error.injEq, eq_comm]

end Writes

/-! ## Activities -/

section Activities

variable {α : Type} {activity : Activity α}

theorem run?_request (request : Request) :
    surroundings.run? (Activity.request request) world =
      surroundings.answer? world request := by
  simp only [Activity.request, run?]
  cases surroundings.answer? world request <;> rfl

/-- An activity for whose deadlines there is room does not overflow. -/
theorem run?_of_room
    (room : ∀ step ∈ surroundings.steps activity world, surroundings.HasRoom step) :
    surroundings.run? activity world = .ok (surroundings.run activity world) := by
  induction activity generalizing world with
  | done result => rfl
  | ask request next induction =>
      obtain ⟨first, others⟩ := List.forall_mem_cons.1 room
      obtain answered | ⟨narrow, -⟩ := surroundings.answer?_cases world request
      · simp only [run?, answered]
        exact induction _ others
      · exact absurd first narrow

theorem run?_eq_ok {result : α × World}
    (ran : surroundings.run? activity world = .ok result) :
    surroundings.run activity world = result := by
  induction activity generalizing world with
  | done result => exact Except.ok.inj ran
  | ask request next induction =>
      obtain answered | ⟨-, overflows⟩ := surroundings.answer?_cases world request
      · simp only [run?, answered] at ran
        exact induction _ ran
      · simp only [run?, overflows] at ran
        cases ran

end Activities

end Surroundings

end BatchRelay
