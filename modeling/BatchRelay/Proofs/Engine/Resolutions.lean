import BatchRelay.Proofs.Batch.Consequences
import BatchRelay.Proofs.Engine.Frames
import BatchRelay.Proofs.Engine.SharedRecords
import BatchRelay.Proofs.Engine.Trials

/-!
# What trials come to

Where no access fails and every record can be read back, a trial comes to one of
three ends.  It finds no record, or it finds that there is nothing to do, or it
stores what becomes of the batch.  In the end it removes the route of its hash,
whatever it has found.
-/

namespace BatchRelay

theorem Route.LeadsTo.readRecord_eq {route : Route} {address id : String}
    (leads : route.LeadsTo address id) (world : World) :
    Step.readRecord world route.address route.batchId =
      .readRecord world address id :=
  congrArg (fun key => Step.mk world (.read key)) leads

namespace Surroundings

variable {surroundings : Surroundings} {lifetimes : Lifetimes}
  {address id hash : String} {place : Nat} {batch batch' : Batch} {step : Step}

/-- A trial that stores what becomes of a batch when the item with its hash takes
its outcome. -/
structure Stores (surroundings : Surroundings) (lifetimes : Lifetimes)
    (trial : Trial) (read stored removed : World) (batch batch' : Batch) :
    Prop where
  steps : ∃ middle,
    (∀ step ∈ middle, ∃ group, step.request.Sends lifetimes trial.route.address
      trial.route.batchId group) ∧
    trial.steps = .readRecord read trial.route.address trial.route.batchId ::
      (middle ++ [.writeRecord lifetimes stored trial.route.address batch',
        .removeRoute removed trial.hash])
  found : surroundings.stored? read trial.route.address trial.route.batchId =
    some batch
  applied : ∃ position, batch.locate trial.hash = some position ∧
    batch'.groups[0]? = (batch.setItemStatus position trial.outcome).groups[0]?
  id : batch'.id = trial.route.batchId
  final : trial.outcome.isTerminal = true

namespace Stores

variable {trial : Trial} {read stored removed : World}
  (stores : surroundings.Stores lifetimes trial read stored removed batch batch')

include stores

theorem read_mem : .readRecord read trial.route.address trial.route.batchId ∈
    trial.steps := by
  rcases stores.steps with ⟨middle, -, steps⟩
  rw [steps]
  exact List.mem_cons_self

theorem read_mem_of_leads (leads : trial.route.LeadsTo address id) :
    .readRecord read address id ∈ trial.steps := by
  rw [← leads.readRecord_eq]
  exact stores.read_mem

theorem stored_mem : .writeRecord lifetimes stored trial.route.address batch' ∈
    trial.steps := by
  rcases stores.steps with ⟨middle, -, steps⟩
  rw [steps]
  simp

theorem ordered
    (ordered : trial.steps.Pairwise fun earlier later =>
      earlier.world.moment < later.world.moment) :
    read.moment < stored.moment ∧ stored.moment < removed.moment := by
  rcases stores.steps with ⟨middle, -, steps⟩
  rw [steps, List.pairwise_cons, List.pairwise_append] at ordered
  rcases ordered with ⟨first, -, last, -⟩
  exact ⟨first (.writeRecord lifetimes stored trial.route.address batch') (by simp),
    List.rel_of_pairwise_cons last List.mem_cons_self⟩

theorem eq_of_touched (member : step ∈ trial.steps)
    (touched : step.request.touched? = some (Records.key address id)) :
    step = .writeRecord lifetimes stored trial.route.address batch' ∧
      trial.route.LeadsTo address id := by
  rcases stores.steps with ⟨middle, sends, steps⟩
  rw [steps] at member
  simp only [List.mem_cons, List.mem_append, List.not_mem_nil, or_false]
    at member
  rcases member with rfl | inMiddle | rfl | rfl
  · cases touched
  · rcases sends step inMiddle with ⟨group, sends⟩
    exact absurd touched (sends.untouched address id)
  · refine ⟨rfl, ?_⟩
    have same := Option.some.inj touched
    rw [stores.id] at same
    exact same
  · exact absurd (Option.some.inj touched).symm (Records.key_ne_routeKey _ _ _)

theorem eq_of_removes {last : World}
    (member : .removeRoute last hash ∈ trial.steps) : last = removed := by
  rcases stores.steps with ⟨middle, sends, steps⟩
  rw [steps] at member
  simp only [List.mem_cons, List.mem_append, List.not_mem_nil, or_false]
    at member
  rcases member with same | inMiddle | same | same
  · cases same
  · rcases sends _ inMiddle with ⟨group, sends⟩
    cases sends
  · cases same
  · exact congrArg Step.world same

theorem locate (located : batch.locate hash = some ⟨0, place⟩) :
    batch'.locate hash = some ⟨0, place⟩ := by
  rcases stores.applied with ⟨position, -, same⟩
  apply Batch.locate_of_firstGroup same
  rw [Batch.locate_setItemStatus]
  exact located

theorem ends (located : batch.locate trial.hash = some ⟨0, place⟩) :
    ∃ item, batch'.item? ⟨0, place⟩ = some item ∧
      item.status.isTerminal = true := by
  rcases stores.applied with ⟨position, again, same⟩
  rw [located] at again
  cases again
  rcases Batch.item?_of_locate located with ⟨item, found, -⟩
  refine ⟨{ item with status := trial.outcome }, ?_, stores.final⟩
  rw [Batch.item?_of_firstGroup same, Batch.item?_setItemStatus_self, found]
  rfl

theorem stays_ended {item : Item}
    (found : batch.item? ⟨0, place⟩ = some item)
    (ended : item.status.isTerminal = true) :
    ∃ item, batch'.item? ⟨0, place⟩ = some item ∧
      item.status.isTerminal = true := by
  rcases stores.applied with ⟨position, located, same⟩
  rw [Batch.item?_of_firstGroup same]
  by_cases here : (⟨0, place⟩ : Position) = position
  · rw [← here, Batch.item?_setItemStatus_self, found]
    exact ⟨_, rfl, stores.final⟩
  · rw [Batch.item?_setItemStatus_of_ne _ here]
    exact ⟨item, found, ended⟩

end Stores

/-- What a trial that nothing disturbs comes to, with its steps. -/
inductive Resolves (surroundings : Surroundings) (lifetimes : Lifetimes)
    (trial : Trial) : Prop
  | missing {read removed : World}
      (steps : trial.steps = [.readRecord read trial.route.address
        trial.route.batchId, .removeRoute removed trial.hash])
      (absent : surroundings.stored? read trial.route.address
        trial.route.batchId = none)
      (result : trial.result = .ok .batchMissing)
  | left {read removed : World} {batch : Batch}
      (steps : trial.steps = [.readRecord read trial.route.address
        trial.route.batchId, .removeRoute removed trial.hash])
      (found : surroundings.stored? read trial.route.address
        trial.route.batchId = some batch)
      (ended : ∀ position, batch.locate trial.hash = some position →
        ∃ item, batch.item? position = some item ∧
          item.status.isTerminal = true)
  | stored {read stored removed : World} {batch batch' : Batch}
      (stores : Stores surroundings lifetimes trial read stored removed batch
        batch')

/-- A trial along a clean route, where no access fails and every record can be
read back. -/
theorem Attempts.resolves {trial : Trial}
    (attempts : surroundings.Attempts lifetimes trial)
    (clean : trial.route.Clean)
    (works : ∀ step ∈ trial.steps, ∀ access,
      surroundings.fault step.world.moment access = none)
    (sound : ∀ step ∈ trial.steps, step.world.Sound []) :
    surroundings.Resolves lifetimes trial := by
  rcases attempts.performs.reconcile with ⟨front, removed, steps, handles⟩
  have begins {world : World}
      (member : .readRecord world trial.route.address trial.route.batchId ∈
        front) :
      world.Sound [] ∧
        (surroundings.run (Records.get trial.route.address trial.route.batchId)
          world).1 = .ok (surroundings.stored? world trial.route.address
            trial.route.batchId) := by
    have own : .readRecord world trial.route.address trial.route.batchId ∈
        trial.steps := by
      rw [steps]
      exact List.mem_append_left _ member
    exact ⟨sound _ own, get_of_sound (sound _ own) (works _ own _)⟩
  generalize isResult : trial.result = result at handles
  cases handles with
  | unread read =>
      rw [(begins List.mem_cons_self).2] at read
      cases read
  | missing read =>
      rw [(begins List.mem_cons_self).2] at read
      exact .missing steps (Except.ok.inj read) isResult
  | stray read unknown =>
      rw [(begins List.mem_cons_self).2] at read
      refine .left steps (Except.ok.inj read) ?_
      intro position located
      rw [unknown] at located
      cases located
  | settled read located found ended =>
      rw [(begins List.mem_cons_self).2] at read
      refine .left steps (Except.ok.inj read) ?_
      intro position again
      rw [located] at again
      cases again
      exact ⟨_, found, ended⟩
  | @stored earlier later batch batch' position item middle read located found
      waits follows =>
      rcases begins List.mem_cons_self with ⟨sound, isRead⟩
      rw [isRead] at read
      have isFound := Except.ok.inj read
      rcases sound.proper_of_stored clean.address isFound with ⟨proper, named⟩
      have sending := follows.follow_onlySends
      refine .stored (?_ : surroundings.Stores lifetimes trial earlier later removed
        batch batch')
      constructor
      case steps =>
        refine ⟨middle, ?_, by rw [steps]; simp⟩
        intro step member
        have sends := sending.sends step member
        rw [(proper.setItemStatus position trial.outcome).sender] at sends
        rw [← named]
        exact sends
      case found => exact isFound
      case applied => exact ⟨position, located, follows.follow_group (by simp)⟩
      case id => exact sending.id.trans named
      case final => exact attempts.final
  | @unstored earlier later batch batch' position item middle error _ _ _ _ _
      fails =>
      have own : .writeRecord lifetimes later trial.route.address batch' ∈
          trial.steps := by
        rw [steps]
        simp
      exact absurd fails (not_fails_of_works lifetimes works own)

/-- A step of a trial that touches a route writes one or removes that of the
trial. -/
theorem Resolves.removes_of_touched {trial : Trial}
    (resolves : surroundings.Resolves lifetimes trial)
    (member : step ∈ trial.steps)
    (touched : step.request.touched? = some (Routes.key hash)) :
    (∃ group, step.request.Sends lifetimes trial.route.address
      trial.route.batchId group) ∨
    trial.hash = hash ∧ step = .removeRoute step.world hash := by
  have removal {removed : World} (same : step = .removeRoute removed trial.hash) :
      trial.hash = hash ∧ step = .removeRoute step.world hash := by
    rw [same] at touched ⊢
    cases Routes.key_inj (Option.some.inj touched)
    exact ⟨rfl, rfl⟩
  cases resolves with
  | missing steps | left steps =>
      rw [steps] at member
      simp only [List.mem_cons, List.not_mem_nil, or_false] at member
      rcases member with rfl | last
      · cases touched
      · exact .inr (removal last)
  | stored stores =>
      rcases stores.steps with ⟨middle, sends, steps⟩
      rw [steps] at member
      simp only [List.mem_cons, List.mem_append, List.not_mem_nil, or_false]
        at member
      rcases member with rfl | inMiddle | rfl | last
      · cases touched
      · exact .inl (sends step inMiddle)
      · exact absurd (Option.some.inj touched) (Records.key_ne_routeKey _ _ _)
      · exact .inr (removal last)

theorem routed_after_sends {owner ownerId : String} {group : Nat}
    (calm : surroundings.Calm step) (sound : step.world.Sound [])
    (sends : step.request.Sends lifetimes owner ownerId group)
    (routed : surroundings.route? step.world hash ≠ none) :
    surroundings.route? (surroundings.after step) hash ≠ none := by
  by_cases touched : step.request.touched? = some (Routes.key hash)
  · rcases step with ⟨world, request⟩
    cases sends with
    | write =>
        cases Routes.key_inj (Option.some.inj touched)
        intro missing
        have written := route?_after_calm_write calm sound
        rw [Step.writeRoute, missing] at written
        cases written
    | _ => cases touched
  · rwa [route?_after_untouched calm sound touched]

end Surroundings

end BatchRelay
