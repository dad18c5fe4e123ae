import BatchRelay.Proofs.Engine.Calm
import BatchRelay.Proofs.Engine.Interleaving

/-!
# Records that several change

Nothing deletes a record: who touches one stores a batch in its place.  In calm
surroundings a record that is there stays there, it shows the same until someone
stores a batch again, and in the end it shows what was stored last.
-/

namespace BatchRelay

namespace Surroundings

/-- Linked steps that nothing disturbs, in worlds that can be read back. -/
structure Proceeds (surroundings : Surroundings) (world : World)
    (steps : List Step) (last : World) : Prop where
  linked : surroundings.Linked world steps last
  sound : ∀ step ∈ steps, step.world.Sound []
  calm : ∀ step ∈ steps, surroundings.Calm step

/-- A step that does no more to the record of a batch than store a batch. -/
def OnlyStores (lifetimes : Lifetimes) (address id : String) (step : Step) :
    Prop :=
  step.request.touched? = some (Records.key address id) →
    ∃ owner batch, Records.key owner batch.id = Records.key address id ∧
      step = .writeRecord lifetimes step.world owner batch

variable {surroundings : Surroundings} {lifetimes : Lifetimes}
  {world last : World} {steps : List Step} {address id : String}

theorem onlyStores_of_untouched {step : Step}
    (untouched : step.request.touched? ≠ some (Records.key address id)) :
    OnlyStores lifetimes address id step :=
  fun touched => absurd touched untouched

theorem get_of_sound {routes : List (String × Route)}
    (sound : world.Sound routes)
    (works : surroundings.fault world.moment
      (.read (Records.key address id)) = none) :
    (surroundings.run (Records.get address id) world).1 =
      .ok (surroundings.stored? world address id) := by
  cases found : surroundings.stored? world address id with
  | some batch => exact get_eq_some_iff.2 ⟨works, found⟩
  | none =>
      refine get_eq_none_iff.2 ⟨works, ?_⟩
      cases read : surroundings.value? world (Records.key address id) with
      | none => rfl
      | some text =>
          rcases sound.stored_of_value read with ⟨_, batch, -, -, -, stored⟩
          rw [found] at stored
          cases stored

namespace Proceeds

variable (proceeds : surroundings.Proceeds world steps last)

include proceeds

theorem since {first : Step} (member : first ∈ steps) :
    ∃ back, surroundings.Proceeds first.world back last ∧
      ∀ step, step ∈ back ↔
        step ∈ steps ∧ first.world.moment ≤ step.world.moment := by
  rcases proceeds.linked.since member with ⟨back, onwards, isBack⟩
  refine ⟨back, ⟨onwards, ?_, ?_⟩, isBack⟩
  · exact fun step inBack => proceeds.sound step ((isBack step).1 inBack).1
  · exact fun step inBack => proceeds.calm step ((isBack step).1 inBack).1

theorem beyond {first : Step} (member : first ∈ steps) :
    ∃ back, surroundings.Proceeds (surroundings.after first) back last ∧
      ∀ step, step ∈ back ↔
        step ∈ steps ∧ first.world.moment < step.world.moment := by
  rcases proceeds.linked.beyond member with ⟨back, onwards, isBack⟩
  refine ⟨back, ⟨onwards, ?_, ?_⟩, isBack⟩
  · exact fun step inBack => proceeds.sound step ((isBack step).1 inBack).1
  · exact fun step inBack => proceeds.calm step ((isBack step).1 inBack).1

/-- Until someone stores a batch the record shows the same. -/
theorem stored?_until (bound : Nat)
    (untouched : ∀ step ∈ steps, step.world.moment < bound →
      step.request.touched? ≠ some (Records.key address id)) :
    ∀ step ∈ steps, step.world.moment ≤ bound →
      surroundings.stored? step.world address id =
        surroundings.stored? world address id := by
  apply proceeds.linked.keeps_at (fun reached => reached.moment ≤ bound →
    surroundings.stored? reached address id =
      surroundings.stored? world address id) fun _ => rfl
  intro step member before reached
  rw [moment_after] at reached
  rw [stored?_after_untouched (proceeds.calm step member)
    (proceeds.sound step member) (untouched step member (by omega))]
  exact before (by omega)

theorem stored?_eq
    (untouched : ∀ step ∈ steps,
      step.request.touched? ≠ some (Records.key address id)) :
    surroundings.stored? last address id =
      surroundings.stored? world address id := by
  refine (proceeds.linked.constant (surroundings.stored? · address id) ?_).2
  intro step member
  exact stored?_after_untouched (proceeds.calm step member)
    (proceeds.sound step member) (untouched step member)

theorem stored?_after_store {step : Step} (member : step ∈ steps)
    {owner : String} {batch : Batch}
    (same : Records.key owner batch.id = Records.key address id)
    (stores : step = .writeRecord lifetimes step.world owner batch) :
    surroundings.stored? (surroundings.after step) address id = some batch := by
  have calm := proceeds.calm step member
  rw [stores] at calm ⊢
  exact stored?_after_calm_write calm (proceeds.sound step member) same

/-- In the end a record shows what was stored last. -/
theorem stored?_of_last {step : Step} (member : step ∈ steps) {owner : String}
    {batch : Batch}
    (same : Records.key owner batch.id = Records.key address id)
    (stores : step = .writeRecord lifetimes step.world owner batch)
    (isLast : ∀ other ∈ steps, step.world.moment < other.world.moment →
      other.request.touched? ≠ some (Records.key address id)) :
    surroundings.stored? last address id = some batch := by
  rcases proceeds.beyond member with ⟨back, onwards, isBack⟩
  rw [onwards.stored?_eq]
  · exact proceeds.stored?_after_store member same stores
  · intro other inBack
    rcases (isBack other).1 inBack with ⟨isMember, later⟩
    exact isLast other isMember later

theorem stays_stored
    (stores : ∀ step ∈ steps, OnlyStores lifetimes address id step)
    (found : surroundings.stored? world address id ≠ none) :
    ∀ step ∈ steps, surroundings.stored? step.world address id ≠ none := by
  apply proceeds.linked.keeps_at
    (fun reached => surroundings.stored? reached address id ≠ none) found
  intro step member before
  by_cases touched :
    step.request.touched? = some (Records.key address id)
  · rcases stores step member touched with ⟨owner, batch, same, isStore⟩
    rw [proceeds.stored?_after_store member same isStore]
    exact Option.some_ne_none batch
  · rwa [stored?_after_untouched (proceeds.calm step member)
      (proceeds.sound step member) touched]

/-- What is found at one step is there at every later one. -/
theorem stays_stored_since
    (stores : ∀ step ∈ steps, OnlyStores lifetimes address id step)
    {first step : Step} (member : first ∈ steps) (isMember : step ∈ steps)
    (later : first.world.moment ≤ step.world.moment)
    (found : surroundings.stored? first.world address id ≠ none) :
    surroundings.stored? step.world address id ≠ none := by
  rcases proceeds.since member with ⟨back, onwards, isBack⟩
  have storesBack (other : Step) (inBack : other ∈ back) :
      OnlyStores lifetimes address id other :=
    stores other ((isBack other).1 inBack).1
  exact onwards.stays_stored storesBack found step
    ((isBack step).2 ⟨isMember, later⟩)

theorem stored_beyond
    (stores : ∀ step ∈ steps, OnlyStores lifetimes address id step)
    {first step : Step} (member : first ∈ steps) (isMember : step ∈ steps)
    (later : first.world.moment < step.world.moment)
    (touched : first.request.touched? = some (Records.key address id)) :
    surroundings.stored? step.world address id ≠ none := by
  rcases stores first member touched with ⟨owner, batch, same, isStore⟩
  rcases proceeds.beyond member with ⟨back, onwards, isBack⟩
  have storesBack (other : Step) (inBack : other ∈ back) :
      OnlyStores lifetimes address id other :=
    stores other ((isBack other).1 inBack).1
  have found : surroundings.stored? (surroundings.after first) address id ≠
      none := by
    rw [proceeds.stored?_after_store member same isStore]
    exact Option.some_ne_none batch
  exact onwards.stays_stored storesBack found step
    ((isBack step).2 ⟨isMember, later⟩)

end Proceeds

end Surroundings

end BatchRelay
