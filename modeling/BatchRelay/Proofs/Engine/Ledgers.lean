import BatchRelay.Proofs.Batch.Consequences
import BatchRelay.Proofs.Engine.Performances
import BatchRelay.Proofs.Engine.Replies

/-!
# Ledgers

A ledger is a batch together with what has happened.  Where the network minds nothing
but the transactions, a ledger decides what an outcome leads to, and the outcomes of two
items of one group can change places: the first of them only marks its item and, if it
is a failure, the batch.
-/

namespace BatchRelay

/-- A batch and what has happened, the latest first. -/
structure Ledger where
  batch : Batch
  journal : List Happening

/-- A world with an empty cache in which only this has happened. -/
def Ledger.world (ledger : Ledger) : World :=
  { World.start (.memory .empty) with journal := ledger.journal }

namespace Batch

variable {batch : Batch} {position other : Position} {first second : ItemStatus}

/-- The batch after an outcome that does not complete a group. -/
def meet (batch : Batch) (outcome : ItemStatus) : Batch :=
  if batch.status = .pending ∧ outcome = .invalid then { batch with status := .invalid }
  else batch

theorem meet_setItemStatus :
    (batch.meet first).setItemStatus position second =
      (batch.setItemStatus position second).meet first := by
  by_cases turns : batch.status = .pending ∧ first = .invalid <;>
    simp [meet, setItemStatus, modifyGroup, turns]

theorem id_meet : (batch.meet first).id = batch.id := by
  unfold meet
  split <;> rfl

theorem setItemStatus_comm (isOther : other ≠ position) :
    (batch.setItemStatus position first).setItemStatus other second =
      (batch.setItemStatus other second).setItemStatus position first := by
  obtain ⟨group, place⟩ := position
  obtain ⟨otherGroup, otherPlace⟩ := other
  simp only [setItemStatus, modifyGroup, Batch.mk.injEq, true_and, and_true]
  by_cases same : otherGroup = group
  · subst same
    have elsewhere : place ≠ otherPlace := fun equal => isOther (equal ▸ rfl)
    simp only [List.modify_modify_eq, Function.comp_def]
    congr 1
    funext group
    exact congrArg Group.mk (List.modify_modify_ne _ _ _ elsewhere)
  · exact List.modify_modify_ne _ _ _ (Ne.symm same)

end Batch

namespace Surroundings

/-- Whether what an activity does depends on nothing but what it was told: not on the
cache, the clock or how much was asked before. -/
def Repeats {α : Type} (surroundings : Surroundings) (activity : Activity α) : Prop :=
  ∀ world other, world.journal = other.journal →
    (surroundings.run activity world).1 = (surroundings.run activity other).1 ∧
      (surroundings.run activity world).2.journal =
        (surroundings.run activity other).2.journal

variable {surroundings : Surroundings} {lifetimes : Lifetimes} {batch : Batch}
  {address batchId : String} {group : Nat} {outcome : ItemStatus}

theorem repeats_pure {α : Type} (result : α) :
    surroundings.Repeats (pure result : Activity α) :=
  fun _ _ same => ⟨rfl, same⟩

theorem Repeats.bind {α β : Type} {activity : Activity α} {next : α → Activity β}
    (first : surroundings.Repeats activity)
    (second : ∀ result, surroundings.Repeats (next result)) :
    surroundings.Repeats (activity >>= next) := by
  intro world other same
  obtain ⟨result, journal⟩ := first world other same
  simp only [Bind.bind, run_bind]
  rw [result]
  exact second _ _ _ journal

theorem repeats_publish (event : BatchUpdated) :
    surroundings.Repeats (Activity.request (.publish event)) :=
  fun _ _ same => ⟨rfl, congrArg (Happening.published event :: ·) same⟩

section Following

variable (timeless : ∀ earlier later payload,
  surroundings.send earlier payload = surroundings.send later payload)

include timeless

theorem repeats_startGroup (batch : Batch) (index : Nat) :
    surroundings.Repeats (startGroup lifetimes batch index) := by
  intro world other same
  cases isOwner : batch.address? with
  | none =>
      simp only [startGroup, isOwner]
      exact ⟨rfl, same⟩
  | some owner =>
      cases present : batch.groups[index]? with
      | none =>
          simp only [startGroup, isOwner, present]
          exact ⟨rfl, same⟩
      | some group =>
          obtain ⟨result, journal⟩ :=
            surroundings.startGroup_replies lifetimes world isOwner present
          obtain ⟨again, journalAgain⟩ :=
            surroundings.startGroup_replies lifetimes other isOwner present
          have replies := replies_eq_of_timeless timeless (world.moment + 1)
            (other.moment + 1) group.items
          rw [result, journal, again, journalAgain, replies, same]
          exact ⟨rfl, rfl⟩

theorem repeats_follow (address batchId : String) (batch : Batch) (group : Nat)
    (outcome : ItemStatus) :
    surroundings.Repeats (follow lifetimes address batchId batch group outcome) := by
  have next : surroundings.Repeats
      (startNext lifetimes address batchId batch (group + 1)) := by
    refine (repeats_startGroup timeless batch (group + 1)).bind fun opened => ?_
    dsimp only
    split
    · exact repeats_pure _
    · exact (repeats_publish _).bind fun _ => repeats_pure _
  unfold follow
  split
  · exact repeats_pure _
  · cases outcome with
    | pending | invalid | dropped => exact repeats_pure _
    | success =>
        dsimp only
        split
        · split
          · exact repeats_pure _
          · exact next
        · exact repeats_pure _

end Following

/-- An outcome that completes no group changes at most the status of the batch. -/
theorem follow_of_incomplete (waits : batch.groupSuccessful group = false)
    (decided : outcome = .success ∨ outcome = .invalid) :
    follow lifetimes address batchId batch group outcome =
      pure (batch.meet outcome) := by
  cases status : batch.status <;> rcases decided with rfl | rfl <;>
    simp [follow, Batch.meet, status, waits]

/-- It makes no difference which of two outcomes the batch has met before the other. -/
theorem follow_meets {first second : ItemStatus}
    (isFirst : first = .success ∨ first = .invalid)
    (isSecond : second = .success ∨ second = .invalid) :
    follow lifetimes address batchId (batch.meet first) group second =
      follow lifetimes address batchId (batch.meet second) group first := by
  cases status : batch.status <;> rcases isFirst with rfl | rfl <;>
    rcases isSecond with rfl | rfl <;> simp [follow, Batch.meet, status]

end Surroundings

namespace Ledger

variable (surroundings : Surroundings) (lifetimes : Lifetimes) (address : String)

/-- The ledger after what follows from an outcome of a marked item. -/
def follow (ledger : Ledger) (marked : Batch) (group : Nat) (outcome : ItemStatus) :
    Ledger :=
  let followed := surroundings.run
    (BatchRelay.follow lifetimes address ledger.batch.id marked group outcome) ledger.world
  ⟨followed.1, followed.2.journal⟩

/-- The ledger after an outcome for the item at a position, if that waits for one. -/
def enter (ledger : Ledger) (position : Position) (outcome : ItemStatus) : Ledger :=
  if (ledger.batch.item? position).map Item.status = some .pending then
    ledger.follow surroundings lifetimes address
      (ledger.batch.setItemStatus position outcome) position.group outcome
  else ledger

variable {ledger : Ledger} {position other : Position} {outcome first second : ItemStatus}

theorem follow_performs (marked : Batch) (group : Nat) (outcome : ItemStatus) :
    ∃ steps, surroundings.Performs
      (BatchRelay.follow lifetimes address ledger.batch.id marked group outcome) steps
      (ledger.follow surroundings lifetimes address marked group outcome).batch :=
  ⟨_, Surroundings.steps_performs _ ledger.world⟩

theorem enter_id :
    (ledger.enter surroundings lifetimes address position outcome).batch.id =
      ledger.batch.id := by
  unfold enter
  split
  · obtain ⟨steps, performs⟩ := ledger.follow_performs surroundings lifetimes address
      (ledger.batch.setItemStatus position outcome) position.group outcome
    exact performs.follow_onlySends.id
  · rfl

/-- An outcome changes no item but its own, and perhaps those of the next group. -/
theorem item?_enter (elsewhere : other.group ≠ position.group + 1) :
    (ledger.enter surroundings lifetimes address position outcome).batch.item? other =
        ledger.batch.item? other ∨
      other = position ∧
        (ledger.enter surroundings lifetimes address position outcome).batch.item? other =
          (ledger.batch.item? other).map fun item => { item with status := outcome } := by
  unfold enter
  split
  case isFalse => exact .inl rfl
  case isTrue =>
    let marked := ledger.batch.setItemStatus position outcome
    obtain ⟨steps, performs⟩ := ledger.follow_performs surroundings lifetimes address marked
      position.group outcome
    have kept : (ledger.follow surroundings lifetimes address marked position.group
        outcome).batch.item? other = marked.item? other := by
      simp only [Batch.item?, performs.follow_group elsewhere]
    rw [kept]
    by_cases isOther : other = position
    · subst isOther
      exact .inr ⟨rfl, Batch.item?_setItemStatus_self _⟩
    · exact .inl (Batch.item?_setItemStatus_of_ne _ isOther)

/-- The hashes of a group are located where they were when one of its items takes an
outcome. -/
theorem locate_enter {hash : String} (located : ledger.batch.locate hash = some other)
    (same : other.group = position.group) :
    (ledger.enter surroundings lifetimes address position outcome).batch.locate hash =
      some other := by
  apply Batch.locate_of_hashes located
  intro place before
  have elsewhere : place.group ≠ position.group + 1 := by omega
  rcases ledger.item?_enter surroundings lifetimes address elsewhere with
    kept | ⟨-, marked⟩
  · rw [kept]
  · rw [marked, Option.map_map]
    rfl

/-! ## Outcomes of one group -/

variable (isOther : other ≠ position) (same : other.group = position.group)

include isOther same

theorem item?_enter_of_other :
    (ledger.enter surroundings lifetimes address position outcome).batch.item? other =
      ledger.batch.item? other := by
  refine (item?_enter surroundings lifetimes address ?_).resolve_right fun both =>
    isOther both.1
  omega

omit isOther same in
theorem enter_of_not_waiting
    (done : (ledger.batch.item? position).map Item.status ≠ some .pending) :
    ledger.enter surroundings lifetimes address position outcome = ledger :=
  if_neg done

/-- An outcome only marks its item, and perhaps the batch, while another item of the
group waits. -/
theorem enter_of_waiting
    (waits : (ledger.batch.item? position).map Item.status = some .pending)
    (alsoWaits : (ledger.batch.item? other).map Item.status = some .pending)
    (decided : outcome = .success ∨ outcome = .invalid) :
    ledger.enter surroundings lifetimes address position outcome =
      ⟨(ledger.batch.setItemStatus position outcome).meet outcome, ledger.journal⟩ := by
  obtain ⟨waiting, present, isWaiting⟩ := Option.map_eq_some_iff.1 alsoWaits
  have kept : (ledger.batch.setItemStatus position outcome).item? other = some waiting :=
    (Batch.item?_setItemStatus_of_ne _ isOther).trans present
  have incomplete := Batch.groupSuccessful_of_waiting kept isWaiting
  rw [same] at incomplete
  rw [enter, if_pos waits, follow, Surroundings.follow_of_incomplete incomplete decided]
  rfl

/-- The outcomes of two items of one group can change places. -/
theorem enter_comm (isFirst : first = .success ∨ first = .invalid)
    (isSecond : second = .success ∨ second = .invalid) :
    (ledger.enter surroundings lifetimes address position first).enter surroundings
        lifetimes address other second =
      (ledger.enter surroundings lifetimes address other second).enter surroundings
        lifetimes address position first := by
  have kept : (ledger.enter surroundings lifetimes address position first).batch.item?
      other = ledger.batch.item? other :=
    item?_enter_of_other surroundings lifetimes address isOther same
  have alsoKept : (ledger.enter surroundings lifetimes address other second).batch.item?
      position = ledger.batch.item? position :=
    item?_enter_of_other surroundings lifetimes address (Ne.symm isOther) same.symm
  by_cases waits : (ledger.batch.item? position).map Item.status = some .pending
  case neg =>
    have still := waits
    rw [← alsoKept] at still
    rw [enter_of_not_waiting _ _ _ waits, enter_of_not_waiting _ _ _ still]
  case pos =>
    by_cases alsoWaits : (ledger.batch.item? other).map Item.status = some .pending
    case neg =>
      have still := alsoWaits
      rw [← kept] at still
      rw [enter_of_not_waiting _ _ _ alsoWaits, enter_of_not_waiting _ _ _ still]
    case pos =>
      have marked := enter_of_waiting surroundings lifetimes address isOther same waits
        alsoWaits isFirst
      have alsoMarked := enter_of_waiting surroundings lifetimes address (Ne.symm isOther)
        same.symm alsoWaits waits isSecond
      rw [← kept, marked] at alsoWaits
      rw [← alsoKept, alsoMarked] at waits
      -- Both orders have marked the same items by now.
      let both := (ledger.batch.setItemStatus position first).setItemStatus other second
      have items : (ledger.batch.setItemStatus other second).setItemStatus position first =
          both := Batch.setItemStatus_comm (Ne.symm isOther)
      have world (batch : Batch) : Ledger.world ⟨batch, ledger.journal⟩ = ledger.world := rfl
      rw [marked, alsoMarked, enter, if_pos alsoWaits, enter, if_pos waits, follow, follow]
      simp only [Batch.id_meet, Batch.meet_setItemStatus, items, same, world]
      rw [Surroundings.follow_meets isFirst isSecond]
      rfl

end Ledger

end BatchRelay
