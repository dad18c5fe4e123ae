import BatchRelay.Proofs.Engine.Acceptances
import BatchRelay.Proofs.Engine.Leftovers

/-!
# Whether an item keeps its outcome

An outcome is only applied to a waiting item.  But a group is sent whatever has
become of its items, and an item that the network refuses then becomes invalid.
In calm surroundings that is the one way for an item to lose its outcome: it has
succeeded or was dropped, its group is sent all the same, and it is refused.
-/

namespace BatchRelay

namespace Surroundings

/-- Every item that has an outcome in the earlier world has it in the later. -/
def KeepsOutcomes (surroundings : Surroundings) (address id : String)
    (earlier later : World) : Prop :=
  ∀ batch, surroundings.stored? earlier address id = some batch →
    ∃ batch', surroundings.stored? later address id = some batch' ∧
      ∀ position item, batch.item? position = some item →
        item.status.isTerminal = true →
        ∃ item', batch'.item? position = some item' ∧
          item'.status = item.status

/-- The step sends an item of the batch that has succeeded or was dropped, and
the network refuses it. -/
def RefusesFinished (surroundings : Surroundings) (address id : String)
    (step : Step) : Prop :=
  ∃ origin batch item, surroundings.Refuses step origin ∧
    Records.key origin.address origin.batchId = Records.key address id ∧
    surroundings.stored? step.world address id = some batch ∧
    batch.item? origin.position = some item ∧
    (item.status = .success ∨ item.status = .dropped)

variable {surroundings : Surroundings} {lifetimes : Lifetimes}
  {routes : List (String × Route)} {address id hash : String}
  {past steps : List Step} {world middle last : World}

theorem KeepsOutcomes.trans
    (first : surroundings.KeepsOutcomes address id world middle)
    (second : surroundings.KeepsOutcomes address id middle last) :
    surroundings.KeepsOutcomes address id world last := by
  intro batch stored
  obtain ⟨between, storedBetween, firstKept⟩ := first batch stored
  obtain ⟨batch', stored', secondKept⟩ := second between storedBetween
  refine ⟨batch', stored', fun position item found final => ?_⟩
  obtain ⟨item', found', same⟩ := firstKept position item found final
  obtain ⟨item'', found'', again⟩ :=
    secondKept position item' found' (same ▸ final)
  exact ⟨item'', found'', again.trans same⟩

/-! ## What a sending leaves of an item -/

theorem Sent.status_of_item {route : Route} {position : Position}
    {items items' : List Item} {place : Nat} {item : Item}
    (sent : surroundings.Sent lifetimes route position items world items' steps
      last)
    (found : items[place]? = some item) :
    ∃ item', items'[place]? = some item' ∧
      (item'.status = item.status ∨ item'.status = .invalid ∧
        ∃ step ∈ steps, surroundings.Refuses step
          ⟨route.address, route.batchId,
            ⟨position.group, position.item + place⟩⟩) := by
  have length : items'.length = items.length := by
    simpa using congrArg List.length sent.payloads
  have inside := (List.getElem?_eq_some_iff.1 found).1
  obtain ⟨item', found'⟩ : ∃ item', items'[place]? = some item' :=
    ⟨_, List.getElem?_eq_getElem (length.symm ▸ inside)⟩
  refine ⟨item', found', ?_⟩
  obtain ⟨original, present, fate⟩ := sent.item found'
  rw [found] at present
  cases present
  obtain ⟨_, _, -, -, rfl⟩ | ⟨earlier, error, member, refuses, rfl⟩ |
    ⟨rfl, -⟩ := fate
  · exact .inl rfl
  · exact .inr ⟨rfl, _, member, item.payload, error, rfl, refuses⟩
  · exact .inl rfl

section Following

variable {owner : String} {batch batch' : Batch} {index : Nat}
  {outcome : ItemStatus} {position : Position} {item : Item}

theorem Started.status_of_item
    (started : surroundings.Started lifetimes batch owner index world batch' steps
      last)
    (found : batch.item? position = some item) :
    ∃ item', batch'.item? position = some item' ∧
      (item'.status = item.status ∨ item'.status = .invalid ∧
        ∃ step ∈ steps, surroundings.Refuses step
          ⟨owner, batch.id, position⟩) := by
  cases started with
  | @sent group items steps last present sent =>
      obtain ⟨other, place⟩ := position
      by_cases here : other = index
      case neg =>
        exact ⟨item, (Batch.item?_modifyGroup_of_ne _ here).trans found, .inl rfl⟩
      case pos =>
        subst here
        obtain ⟨there, inGroups, member⟩ := Batch.item?_eq_some_iff.1 found
        rw [present] at inGroups
        cases inGroups
        obtain ⟨item', found', fate⟩ := sent.status_of_item member
        refine ⟨item', (Batch.item?_modifyGroup_self _ present _).trans found', ?_⟩
        refine fate.imp_right fun ⟨invalid, step, inSteps, refuses⟩ =>
          ⟨invalid, step, List.mem_cons_of_mem _ inSteps, ?_⟩
        simpa only [Nat.zero_add] using refuses

theorem Started.invalid_of_refuses {origin : Origin} {step : Step}
    (started : surroundings.Started lifetimes batch owner index world batch' steps
      last)
    (member : step ∈ steps) (refuses : surroundings.Refuses step origin) :
    ∃ item', batch'.item? origin.position = some item' ∧
      item'.status = .invalid := by
  obtain ⟨payload, error, sends, answer⟩ := refuses
  cases started with
  | @sent group items steps last present sent =>
      obtain rfl | inRest := List.mem_cons.1 member
      · cases sends
      · obtain ⟨place, refused, rfl, -, found⟩ :=
          sent.refused_item inRest sends answer
        refine ⟨refused.refuse error.rejection?,
          (Batch.item?_modifyGroup_self _ present _).trans ?_, rfl⟩
        simpa only [Nat.zero_add] using found

theorem Followed.status_of_item
    (followed : surroundings.Followed lifetimes owner batch index outcome world
      batch' steps last)
    (found : batch.item? position = some item) :
    ∃ item', batch'.item? position = some item' ∧
      (item'.status = item.status ∨ item'.status = .invalid ∧
        ∃ step ∈ steps, surroundings.Refuses step
          ⟨owner, batch.id, position⟩) := by
  cases followed with
  | continued _ _ _ next => exact next.status_of_item found
  | stopped _ _ _ next =>
      obtain ⟨item', found', fate⟩ := next.status_of_item found
      refine ⟨item', found', fate.imp_right ?_⟩
      rintro ⟨invalid, step, member, refuses⟩
      exact ⟨invalid, step, List.mem_append_left _ member, refuses⟩
  | _ => exact ⟨item, found, .inl rfl⟩

theorem Followed.invalid_of_refuses {origin : Origin} {step : Step}
    (followed : surroundings.Followed lifetimes owner batch index outcome world
      batch' steps last)
    (member : step ∈ steps) (refuses : surroundings.Refuses step origin) :
    ∃ item', batch'.item? origin.position = some item' ∧
      item'.status = .invalid := by
  cases followed with
  | continued _ _ _ next => exact next.invalid_of_refuses member refuses
  | stopped _ _ _ next =>
      obtain inFront | atEnd := List.mem_append.1 member
      · exact next.invalid_of_refuses inFront refuses
      · obtain rfl := List.mem_singleton.1 atEnd
        obtain ⟨_, _, sends, -⟩ := refuses
        cases sends
  | _ => cases member

end Following

/-! ## One step after the other -/

/-- Whether outcomes are kept by all steps just when none of them refuses a
finished item. -/
def Accounted (surroundings : Surroundings) (address id : String)
    (steps : List Step) : Prop :=
  (∀ step ∈ steps, surroundings.KeepsOutcomes address id step.world
      (surroundings.after step)) ↔
    ∀ step ∈ steps, ¬surroundings.RefusesFinished address id step

theorem Accounted.append {front back : List Step}
    (first : surroundings.Accounted address id front)
    (second : surroundings.Accounted address id back) :
    surroundings.Accounted address id (front ++ back) := by
  simp only [Accounted, List.forall_mem_append] at *
  rw [first, second]

theorem keepsOutcomes_of_untouched {step : Step}
    (calm : surroundings.Calm step) (sound : step.world.Sound routes)
    (untouched : step.request.touched? ≠ some (Records.key address id)) :
    surroundings.KeepsOutcomes address id step.world
      (surroundings.after step) := by
  intro batch stored
  rw [← stored?_after_untouched calm sound untouched] at stored
  exact ⟨batch, stored, fun _ item found _ => ⟨item, found, rfl⟩⟩

theorem not_refusesFinished_of_unsent {step : Step}
    (unsent : ∀ origin payload, step.request ≠ .send origin payload) :
    ¬surroundings.RefusesFinished address id step := by
  rintro ⟨origin, _, _, ⟨payload, _, sends, -⟩, -⟩
  exact unsent origin payload sends

theorem Bypasses.accounted
    (bypasses : surroundings.Bypasses address id routes world steps last) :
    surroundings.Accounted address id steps := by
  have sounds := bypasses.sound.linked_at bypasses.links bypasses.writes
  refine iff_of_true (fun step member => ?_) fun step member => ?_
  · exact keepsOutcomes_of_untouched (bypasses.calm step member)
      (sounds step member) (bypasses.leaves step member).untouched
  · rintro ⟨origin, _, _, ⟨payload, _, sends, -⟩, same, -⟩
    exact (bypasses.leaves step member).unsent origin payload sends same

section Applying

variable {batchId owner : String} {outcome : ItemStatus} {batch batch' : Batch}
  {position : Position} {item : Item}
  (applied : surroundings.Applied lifetimes hash batchId owner outcome world
    batch batch' position item steps middle)

include applied

theorem Applied.status_of_item {place : Position} {other : Item}
    (there : batch.item? place = some other)
    (final : other.status.isTerminal = true) :
    ∃ item', batch'.item? place = some item' ∧
      (item'.status = other.status ∨
        (other.status = .success ∨ other.status = .dropped) ∧
        ∃ step ∈ steps, surroundings.Refuses step ⟨owner, batch.id, place⟩) := by
  have isOther : place ≠ position := by
    rintro rfl
    rw [applied.found] at there
    cases there
    simp [ItemStatus.isTerminal, applied.waits] at final
  obtain ⟨item', found, status | ⟨invalid, refuses⟩⟩ :=
    applied.followed.status_of_item
      ((Batch.item?_setItemStatus_of_ne outcome isOther).trans there)
  · exact ⟨item', found, .inl status⟩
  · refine ⟨item', found, ?_⟩
    cases status : other.status with
    | pending => simp [ItemStatus.isTerminal, status] at final
    | success => exact .inr ⟨.inl rfl, refuses⟩
    | invalid => exact .inl invalid
    | dropped => exact .inr ⟨.inr rfl, refuses⟩

variable (sound : world.Sound routes) (clean : Address.Clean owner)
  (same : Records.key owner batchId = Records.key address id)
  (read : surroundings.Calm (.readRecord world owner batchId))
  (sending : ∀ step ∈ steps, surroundings.Calm step)
  (write : surroundings.Calm (.writeRecord lifetimes middle owner batch'))

include sound clean same read sending write

/-- The write of the updated record keeps all outcomes, unless a finished item
was refused before. -/
theorem Applied.keepsOutcomes_iff :
    surroundings.KeepsOutcomes address id middle
        (surroundings.written lifetimes middle owner batch') ↔
      ∀ step ∈ steps, ¬surroundings.RefusesFinished address id step := by
  have stored : surroundings.stored? world address id = some batch :=
    stored?_congr same ▸ applied.stored
  obtain ⟨between, ending⟩ :=
    applied.stored?_eq sound clean read sending address id
  rw [stored] at between ending
  have written : surroundings.stored?
      (surroundings.written lifetimes middle owner batch') address id =
        some batch' :=
    stored?_after_calm_write write (applied.soundMiddle sound clean)
      ((applied.key sound clean).trans same)
  constructor
  · rintro kept step member ⟨origin, shown, other, refuses, -, found, there,
      finished⟩
    rw [between step member] at found
    cases found
    obtain ⟨after, shown, outcomes⟩ := kept batch ending
    rw [written] at shown
    cases shown
    have final : other.status.isTerminal = true := by
      obtain success | dropped := finished <;>
        simp [ItemStatus.isTerminal, *]
    obtain ⟨item', found, status⟩ := outcomes origin.position other there final
    obtain ⟨_, again, invalid⟩ :=
      applied.followed.invalid_of_refuses member refuses
    rw [again] at found
    cases found
    rw [← status, invalid] at finished
    obtain success | dropped := finished
    · cases success
    · cases dropped
  · intro unrefused shown found
    rw [ending] at found
    cases found
    refine ⟨batch', written, fun place other there final => ?_⟩
    obtain ⟨item', found, status | ⟨finished, step, member, refuses⟩⟩ :=
      applied.status_of_item there final
    · exact ⟨item', found, status⟩
    · have key : Records.key owner batch.id = Records.key address id := by
        rw [applied.named sound clean, same]
      exact absurd ⟨_, batch, other, refuses, key, between step member, there,
        finished⟩ (unrefused step member)

theorem Applied.accounted :
    surroundings.Accounted address id
      (steps ++ [.writeRecord lifetimes middle owner batch']) := by
  have sounds := sound.readRecord.linked_at applied.followed.linked
    (applied.genuine sound clean)
  have kept (step : Step) (member : step ∈ steps) :
      surroundings.KeepsOutcomes address id step.world
        (surroundings.after step) :=
    keepsOutcomes_of_untouched (sending step member) (sounds step member)
      ((applied.followed.sends step member).untouched _ _)
  have unsent : ¬surroundings.RefusesFinished address id
      (.writeRecord lifetimes middle owner batch') :=
    not_refusesFinished_of_unsent nofun
  have writing := applied.keepsOutcomes_iff sound clean same read sending write
  constructor
  · intro all
    exact List.forall_mem_append.2
      ⟨writing.1 (all (.writeRecord lifetimes middle owner batch') (by simp)),
        List.forall_mem_singleton.2 unsent⟩
  · intro unrefused
    exact List.forall_mem_append.2 ⟨kept, List.forall_mem_singleton.2
      (writing.2 (List.forall_mem_append.1 unrefused).1)⟩

end Applying

theorem Reconciling.accounted {batchId owner : String} {outcome : ItemStatus}
    (reconciling : surroundings.Reconciling lifetimes hash batchId owner outcome
      world steps last)
    (sound : world.Sound routes) (clean : Address.Clean owner)
    (calm : ∀ step ∈ steps, surroundings.Calm step) :
    surroundings.Accounted address id steps := by
  obtain leaves | ⟨same, batch, batch', position, item, sending, middle, applied,
    rfl, rfl⟩ := reconciling.leaves_or_applied sound clean address id
  · exact Bypasses.accounted ⟨sound, reconciling.linked,
      reconciling.writesGenuine sound clean, calm, leaves⟩
  · simp only [List.forall_mem_cons, List.forall_mem_append,
      List.not_mem_nil, false_implies, implies_true, and_true] at calm
    obtain ⟨read, sending, write, remove⟩ := calm
    have reading : surroundings.Accounted address id
        [.readRecord world owner batchId] :=
      (Bypasses.readRecord sound read).accounted
    have removing : surroundings.Accounted address id
        [.removeRoute (surroundings.written lifetimes middle owner batch')
          hash] :=
      (Bypasses.removeRoute (applied.soundWritten sound clean) remove).accounted
    have applying := applied.accounted sound clean same read sending write
    simpa only [List.append_assoc, List.cons_append, List.nil_append]
      using reading.append (applying.append removing)

theorem Submitting.accounted {request : BatchRequest}
    (submitting : surroundings.Submitting lifetimes request world steps last)
    (sound : world.Sound routes)
    (calm : ∀ step ∈ steps, surroundings.Calm step) :
    surroundings.Accounted address id steps := by
  obtain leaves | absent := submitting.leaves_or_absent sound
    (fun step member => (calm step member).lasting.settled) address id
  case inl =>
    exact Bypasses.accounted ⟨sound, submitting.linked,
      submitting.writesGenuine, calm, leaves⟩
  refine iff_of_true (fun step member batch stored => ?_) fun step member => ?_
  · rw [absent step member] at stored
    cases stored
  · rintro ⟨_, batch, _, -, -, stored, -⟩
    rw [absent step member] at stored
    cases stored

theorem invariant_accounted :
    Invariant surroundings lifetimes surroundings.Calm
      fun _ past _ => surroundings.Accounted address id past where
  aside sound accounted calm isAside :=
    accounted.append (Bypasses.aside sound calm isAside).accounted
  found _ accounted _ := accounted
  forgotten accounted := accounted
  reconciled sound accounted member _ reconciling calm :=
    accounted.append
      (reconciling.accounted sound (sound.found _ member).address calm)
  submitted sound accounted submitting calm :=
    accounted.append (submitting.accounted sound calm)

end Surroundings

/-- In calm surroundings an item that has an outcome keeps it all through a run,
just when no item that has succeeded or was dropped is sent and refused. -/
theorem Run.outcomes_kept_iff (run : Run) (calm : run.Calm)
    (address id : String) :
    run.worlds.Pairwise (run.surroundings.KeepsOutcomes address id) ↔
      ∀ step ∈ run.steps,
        ¬run.surroundings.RefusesFinished address id step := by
  have nothing : run.surroundings.Accounted address id [] :=
    iff_of_true (List.forall_mem_nil _) (List.forall_mem_nil _)
  have accounted := run.holds Surroundings.invariant_accounted nothing
    fun step member => calm.step member
  have adjacent := run.linked.pairwise_iff
    (run.surroundings.KeepsOutcomes address id)
    fun first second => first.trans second
  exact adjacent.trans accounted.2

theorem Sample.undoing_loses_outcome :
    ¬Sample.undoing.worlds.Pairwise
      (Sample.undoing.surroundings.KeepsOutcomes Sample.alice "b") := by
  intro keeps
  rcases Sample.undoing.steps_of_tick Sample.undoing_commands with
    ⟨past, step, later, split, begins⟩
  have before := Sample.stored?_before_undoing
  rw [← begins] at before
  rw [Run.worlds, split, List.map_append, List.append_assoc,
    List.pairwise_append, List.map_cons, List.cons_append, List.pairwise_cons]
    at keeps
  have toEnd := keeps.2.1.1 Sample.undoing.final
    (List.mem_append_right _ List.mem_cons_self)
  rcases toEnd _ before with ⟨batch, stored, kept⟩
  rw [Sample.stored?_undoing] at stored
  cases stored
  rcases kept ⟨1, 0⟩ ⟨Sample.early, .success, none⟩ rfl rfl with
    ⟨item, found, status⟩
  cases found
  cases status

theorem Run.succeeded_item_refused : Sample.undoing.Calm ∧
    ∃ step ∈ Sample.undoing.steps,
      Sample.undoing.surroundings.RefusesFinished Sample.alice "b" step := by
  have calm : Sample.undoing.Calm := Sample.run_calm Sample.first _
  refine ⟨calm, Classical.byContradiction fun none => ?_⟩
  apply Sample.undoing_loses_outcome
  apply (Sample.undoing.outcomes_kept_iff calm Sample.alice "b").2
  intro step member refuses
  exact none ⟨step, member, refuses⟩

/-- Even in calm surroundings an item may lose its outcome. -/
theorem Run.outcome_lost : Sample.undoing.Calm ∧
    ¬Sample.undoing.worlds.Pairwise
      (Sample.undoing.surroundings.KeepsOutcomes Sample.alice "b") :=
  ⟨Sample.run_calm Sample.first _, Sample.undoing_loses_outcome⟩

end BatchRelay
