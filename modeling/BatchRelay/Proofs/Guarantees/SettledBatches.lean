import BatchRelay.Proofs.Engine.Leftovers

/-!
# Settled batches

The status of a batch fits what has become of its items, whatever fails.  A
batch that is no longer pending is settled: it keeps its status as long as its
record lasts, and nothing more is sent for it.
-/

namespace BatchRelay

/-- A batch whose status fits its items: while it is pending none of them has
failed, and when it has failed one of them has failed in the same way. -/
structure Batch.Coherent (batch : Batch) : Prop where
  pending : batch.status = .pending → ∀ position item,
    batch.item? position = some item →
    item.status = .pending ∨ item.status = .success
  invalid : batch.status = .invalid → ∃ position item,
    batch.item? position = some item ∧ item.status = .invalid
  dropped : batch.status = .dropped → ∃ position item,
    batch.item? position = some item ∧ item.status = .dropped

theorem Batch.Coherent.ofPending {batch : Batch}
    (isOpen : batch.status = .pending)
    (items : ∀ position item, batch.item? position = some item →
      item.status = .pending ∨ item.status = .success) : batch.Coherent where
  pending _ := items
  invalid status := by
    rw [isOpen] at status
    cases status
  dropped status := by
    rw [isOpen] at status
    cases status

theorem Batch.invalid_item_of_hashes {batch : Batch} {index : Nat}
    (refused : batch.invalidHashesAt index ≠ []) :
    ∃ position item, batch.item? position = some item ∧
      item.status = .invalid := by
  cases present : batch.groups[index]? with
  | none => simp [invalidHashesAt, present] at refused
  | some group =>
      obtain ⟨item, member, status⟩ : ∃ item ∈ group.items,
          item.status = .invalid := by
        simpa [invalidHashesAt, present, Group.invalidHashes] using refused
      obtain ⟨place, found⟩ := List.getElem?_of_mem member
      exact ⟨⟨index, place⟩, item,
        item?_eq_some_iff.2 ⟨group, present, found⟩, status⟩

/-- Every record of a batch in the cache, whether it still counts or not, is
coherent. -/
def World.Coherent (world : World) : Prop :=
  ∀ address id entry batch,
    (Records.key address id, entry) ∈ world.cache.entries →
    Batch.parse entry.value = .ok batch → batch.Coherent

/-- A request that stores coherent batches only. -/
def Request.WritesCoherent (request : Request) : Prop :=
  ∀ address id value batch,
    request.written? = some (Records.key address id, value) →
    Batch.parse value = .ok batch → batch.Coherent

theorem Request.writesCoherent_of_unwritten {request : Request}
    (unwritten : ∀ address id value,
      request.written? ≠ some (Records.key address id, value)) :
    request.WritesCoherent :=
  fun address id value _ written => absurd written (unwritten address id value)

theorem Request.writesCoherent_of_isAside {request : Request}
    (isAside : request.isAside = true) : request.WritesCoherent :=
  writesCoherent_of_unwritten fun address id _ written =>
    touched?_of_isAside isAside (isTracked_recordKey address id)
      (touched?_of_written? written)

/-- Whether a step sends a transaction for a batch. -/
def Step.SendsFor (step : Step) (address id : String) : Prop :=
  ∃ origin payload, step.request = .send origin payload ∧
    Records.key origin.address origin.batchId = Records.key address id

theorem Step.not_sendsFor_of_leaves {step : Step} {address id : String}
    (leaves : step.request.Leaves address id) : ¬step.SendsFor address id := by
  rintro ⟨origin, payload, sends, same⟩
  exact leaves.unsent origin payload sends same

namespace Surroundings

variable {surroundings : Surroundings} {lifetimes : Lifetimes}
  {routes : List (String × Route)} {address id hash : String}
  {past steps : List Step} {world middle last : World}

/-! ## Status and items -/

section Coherence

variable {owner : String} {batch batch' : Batch} {position : Position}
  {item : Item} {outcome : ItemStatus}

theorem Followed.coherent
    (followed : surroundings.Followed lifetimes owner
      (batch.setItemStatus position outcome) position.group outcome world batch'
      steps last)
    (coherent : batch.Coherent) (found : batch.item? position = some item)
    (waits : item.status = .pending) : batch'.Coherent := by
  have marked : (batch.setItemStatus position outcome).item? position =
      some { item with status := outcome } := by
    rw [Batch.item?_setItemStatus_self, found, Option.map_some]
  -- Only the waiting item changes, so a failed one still bears witness.
  have kept {place : Position} {other : Item}
      (there : batch.item? place = some other) (ended : other.status ≠ .pending) :
      (batch.setItemStatus position outcome).item? place = some other := by
    refine (Batch.item?_setItemStatus_of_ne outcome ?_).trans there
    rintro rfl
    rw [found] at there
    cases there
    exact ended waits
  have unfailed (isOpen : batch.status = .pending) (succeeds : outcome = .success)
      (place : Position) (other : Item)
      (there : (batch.setItemStatus position outcome).item? place =
        some other) : other.status = .pending ∨ other.status = .success := by
    obtain ⟨original, present, ⟨-, rfl⟩ | ⟨-, rfl⟩⟩ :=
      Batch.item?_of_setItemStatus there
    · exact coherent.pending isOpen place other present
    · exact .inr succeeds
  cases followed with
  | settled ended =>
      refine ⟨fun isOpen => absurd isOpen ended, fun failed => ?_,
        fun failed => ?_⟩
      · obtain ⟨place, other, there, status⟩ := coherent.invalid failed
        exact ⟨place, other, kept there (by simp [status]), status⟩
      · obtain ⟨place, other, there, status⟩ := coherent.dropped failed
        exact ⟨place, other, kept there (by simp [status]), status⟩
  | invalid _ fails =>
      exact ⟨nofun, fun _ => ⟨position, _, marked, fails⟩, nofun⟩
  | dropped _ fails =>
      exact ⟨nofun, nofun, fun _ => ⟨position, _, marked, fails⟩⟩
  | waiting isOpen succeeds => exact .ofPending isOpen (unfailed isOpen succeeds)
  | finished => exact ⟨nofun, nofun, nofun⟩
  | continued isOpen succeeds _ next taken =>
      refine .ofPending (next.status.trans isOpen) fun place other there => ?_
      obtain ⟨original, present, same⟩ :=
        Batch.item?_of_statuses (next.statuses taken) there
      exact same ▸ unfailed isOpen succeeds place original present
  | stopped _ _ _ _ refused =>
      obtain ⟨place, other, there, status⟩ :=
        Batch.invalid_item_of_hashes refused
      exact ⟨nofun, fun _ => ⟨place, other, there, status⟩, nofun⟩

theorem Started.coherent
    (started : surroundings.Started lifetimes batch owner 0 world batch' steps
      last)
    (fresh : batch.Fresh) (taken : batch'.invalidHashesAt 0 = []) :
    batch'.Coherent := by
  have untouched := fresh.untouched.transfer (started.statuses taken)
  exact .ofPending (started.status.trans fresh.status)
    fun position item found => .inl (untouched position item found)

end Coherence

theorem Followed.status_of_settled {owner : String} {batch batch' : Batch}
    {index : Nat} {outcome : ItemStatus}
    (followed : surroundings.Followed lifetimes owner batch index outcome world
      batch' steps last)
    (ended : batch.status ≠ .pending) : batch'.status = batch.status := by
  cases followed with
  | settled => rfl
  | invalid isOpen | dropped isOpen | waiting isOpen | finished isOpen
  | continued isOpen | stopped isOpen => exact absurd isOpen ended

/-! ## Coherent records -/

theorem stored?_coherent (coherent : world.Coherent)
    (unique : world.cache.entries.Unique) {batch : Batch}
    (stored : surroundings.stored? world address id = some batch) :
    batch.Coherent := by
  rcases Option.bind_eq_some_iff.1 stored with ⟨text, read, parsed⟩
  rcases (value?_eq_some_iff unique).1 read with ⟨entry, member, -, rfl⟩
  cases result : Batch.parse entry.value with
  | error defect =>
      rw [result] at parsed
      cases parsed
  | ok found =>
      rw [result] at parsed
      cases parsed
      exact coherent address id entry batch member result

theorem coherent_after {step : Step} (coherent : step.world.Coherent)
    (writes : step.request.WritesCoherent) :
    (surroundings.after step).Coherent := by
  intro address id entry batch member parsed
  obtain before | written := mem_after_cases member
  · exact coherent address id entry batch before parsed
  · exact writes address id entry.value batch written parsed

theorem writeRecord_writesCoherent {owner : String} {batch : Batch}
    (coherent : batch.Coherent) :
    (Step.writeRecord lifetimes world owner batch).request.WritesCoherent := by
  intro address id value stored written parsed
  obtain rfl : batch.render = value :=
    congrArg Prod.snd (Option.some.inj written)
  rw [Batch.parse_render] at parsed
  cases parsed
  exact coherent

theorem Reconciling.writesCoherent {batchId owner : String}
    {outcome : ItemStatus}
    (reconciling : surroundings.Reconciling lifetimes hash batchId owner outcome
      world steps last)
    (coherent : world.Coherent) (sound : world.Sound routes) :
    ∀ step ∈ steps, step.request.WritesCoherent := by
  cases reconciling with
  | skipped =>
      simp only [List.forall_mem_cons, List.not_mem_nil, false_implies,
        implies_true, and_true]
      exact ⟨Request.writesCoherent_of_unwritten nofun,
        Request.writesCoherent_of_unwritten nofun⟩
  | applied applied =>
      have before := stored?_coherent coherent sound.unique applied.stored
      have after := applied.followed.coherent before applied.found applied.waits
      simp only [List.forall_mem_cons, List.forall_mem_append, List.not_mem_nil,
        false_implies, implies_true, and_true]
      exact ⟨Request.writesCoherent_of_unwritten nofun,
        fun step member => Request.writesCoherent_of_unwritten
          (applied.followed.sends step member).unwritten,
        writeRecord_writesCoherent after,
        Request.writesCoherent_of_unwritten nofun⟩

theorem Submitting.writesCoherent {request : BatchRequest}
    (submitting : surroundings.Submitting lifetimes request world steps last) :
    ∀ step ∈ steps, step.request.WritesCoherent := by
  cases submitting with
  | malformed => exact List.forall_mem_nil _
  | rejected =>
      exact List.forall_mem_singleton.2
        (Request.writesCoherent_of_unwritten nofun)
  | refused offered =>
      exact List.forall_mem_cons.2 ⟨Request.writesCoherent_of_unwritten nofun,
        fun step member => Request.writesCoherent_of_unwritten
          (offered.sent.sends step member).unwritten⟩
  | stored offered taken =>
      simp only [List.forall_mem_cons, List.forall_mem_append, List.not_mem_nil,
        false_implies, implies_true, and_true]
      exact ⟨Request.writesCoherent_of_unwritten nofun,
        fun step member => Request.writesCoherent_of_unwritten
          (offered.sent.sends step member).unwritten,
        writeRecord_writesCoherent
          (offered.sent.coherent offered.admits.fresh taken)⟩

/-- All worlds so far hold coherent records only. -/
def CoherentThrough (past : List Step) (world : World) : Prop :=
  (∀ step ∈ past, step.world.Coherent) ∧ world.Coherent

theorem CoherentThrough.append (through : CoherentThrough past world)
    (links : surroundings.Linked world steps last)
    (writes : ∀ step ∈ steps, step.request.WritesCoherent) :
    CoherentThrough (past ++ steps) last :=
  links.keeps_through World.Coherent through fun step member coherent =>
    coherent_after coherent (writes step member)

theorem invariant_coherent :
    Invariant surroundings lifetimes (fun _ => True)
      fun _ => CoherentThrough where
  aside {_ _ world request} _ through _ isAside :=
    through.append (.single surroundings ⟨world, request⟩)
      (List.forall_mem_singleton.2 (Request.writesCoherent_of_isAside isAside))
  found _ through _ := through
  forgotten through := through
  reconciled sound through _ _ reconciling _ :=
    through.append reconciling.linked
      (reconciling.writesCoherent through.2 sound)
  submitted _ through submitting _ :=
    through.append submitting.linked submitting.writesCoherent

/-! ## Settled records -/

/-- Whether a step takes nothing back: a batch that is settled before it has the
same status after it, and is not sent for. -/
def Respects (surroundings : Surroundings) (address id : String)
    (step : Step) : Prop :=
  ∀ batch, surroundings.stored? step.world address id = some batch →
    batch.status ≠ .pending → ¬step.SendsFor address id ∧
      ∃ batch', surroundings.stored? (surroundings.after step) address id =
          some batch' ∧ batch'.status = batch.status

/-- A step whose end nothing has run out of time in. -/
structure Lasts (surroundings : Surroundings) (step : Step) : Prop where
  before : surroundings.Lasting step.world
  after : surroundings.Lasting (surroundings.after step)

section Respecting

variable {step : Step}

theorem stored?_kept {batch : Batch} (sound : step.world.Sound routes)
    (lasts : surroundings.Lasts step)
    (untouched : step.request.touched? ≠ some (Records.key address id))
    (stored : surroundings.stored? step.world address id = some batch) :
    surroundings.stored? (surroundings.after step) address id = some batch := by
  rcases Option.bind_eq_some_iff.1 stored with ⟨text, read, parsed⟩
  apply Option.bind_eq_some_iff.2
  exact ⟨text, value?_after sound.unique (isTracked_recordKey _ _) lasts.after
    untouched read, parsed⟩

theorem respects_of_leaves (sound : step.world.Sound routes)
    (lasts : surroundings.Lasts step)
    (leaves : step.request.Leaves address id) :
    surroundings.Respects address id step := by
  intro batch stored _
  exact ⟨Step.not_sendsFor_of_leaves leaves,
    batch, stored?_kept sound lasts leaves.untouched stored, rfl⟩

theorem respects_of_open
    (isOpen : ∀ batch, surroundings.stored? step.world address id = some batch →
      batch.status = .pending) : surroundings.Respects address id step := by
  intro batch stored settled
  exact absurd (isOpen batch stored) settled

theorem writeRecord_respects {owner : String} {batch : Batch}
    (sound : world.Sound routes)
    (lasts : surroundings.Lasts (.writeRecord lifetimes world owner batch))
    (same : Records.key owner batch.id = Records.key address id)
    (agrees : ∀ other, surroundings.stored? world address id = some other →
      other.status ≠ .pending → batch.status = other.status) :
    surroundings.Respects address id
      (.writeRecord lifetimes world owner batch) := by
  intro other stored settled
  constructor
  · rintro ⟨_, _, sends, -⟩
    cases sends
  · cases fault : surroundings.fault world.moment
        (.write (Records.key owner batch.id)) with
    | none =>
        exact ⟨batch, stored?_after_lasting_write sound fault lasts.after same,
          agrees other stored settled⟩
    | some error =>
        rcases Option.bind_eq_some_iff.1 stored with ⟨text, read, parsed⟩
        refine ⟨other, Option.bind_eq_some_iff.2 ⟨text, ?_, parsed⟩, rfl⟩
        rw [← same] at read ⊢
        exact value?_after_failed_write sound.unique (isTracked_recordKey _ _)
          fault lasts.after read

end Respecting

theorem Reconciling.respects {batchId owner : String} {outcome : ItemStatus}
    (reconciling : surroundings.Reconciling lifetimes hash batchId owner outcome
      world steps last)
    (sound : world.Sound routes) (clean : Address.Clean owner)
    (lasts : ∀ step ∈ steps, surroundings.Lasts step) :
    ∀ step ∈ steps, surroundings.Respects address id step := by
  have sounds := sound.linked_at reconciling.linked
    (reconciling.writesGenuine sound clean)
  rcases reconciling.leaves_or_applied sound clean address id with leaves |
    ⟨same, batch, batch', position, item, sending, middle, applied, rfl, rfl⟩
  · intro step member
    exact respects_of_leaves (sounds step member) (lasts step member)
      (leaves step member)
  · have stored : surroundings.stored? world address id = some batch :=
      stored?_congr same ▸ applied.stored
    simp only [List.forall_mem_cons, List.forall_mem_append, List.not_mem_nil,
      false_implies, implies_true, and_true] at lasts sounds ⊢
    obtain ⟨readLasts, sendingLasts, writeLasts, removeLasts⟩ := lasts
    obtain ⟨-, -, writeSound, removeSound⟩ := sounds
    -- The record is written last: until then every step sees the same batch.
    have shown {found : Batch} :
        (∀ step ∈ sending,
          surroundings.stored? step.world address id = some found →
            found = batch) ∧
        (surroundings.stored? middle address id = some found →
          found = batch) := by
      obtain ⟨between, ending⟩ := applied.stored?_of_middle sound clean
        readLasts.before.settled
        (fun step member => (sendingLasts step member).before.settled)
      rw [stored] at between ending
      exact ⟨fun step member found => (Option.some.inj
          (between step member found)).symm,
        fun found => (Option.some.inj (ending found)).symm⟩
    refine ⟨?_, ?_, ?_, ?_⟩
    · exact respects_of_leaves sound readLasts readRecord_leaves
    · intro step member
      apply respects_of_open
      intro found there
      rw [shown.1 step member there]
      exact (applied.followed.next (List.ne_nil_of_mem member)).1
    · apply writeRecord_respects writeSound writeLasts
        ((applied.key sound clean).trans same)
      intro found there settled
      rw [shown.2 there] at settled ⊢
      exact applied.followed.status_of_settled settled
    · exact respects_of_leaves removeSound removeLasts removeRoute_leaves

theorem Submitting.respects {request : BatchRequest}
    (submitting : surroundings.Submitting lifetimes request world steps last)
    (sound : world.Sound [])
    (lasts : ∀ step ∈ steps, surroundings.Lasts step) :
    ∀ step ∈ steps, surroundings.Respects address id step := by
  have sounds := sound.linked_at submitting.linked submitting.writesGenuine
  rcases submitting.leaves_or_absent sound
    (fun step member => (lasts step member).before.settled) address id with
    leaves | absent
  · intro step member
    exact respects_of_leaves (sounds step member) (lasts step member)
      (leaves step member)
  · intro step member
    apply respects_of_open
    intro found shown
    rw [absent step member] at shown
    cases shown

theorem invariant_respects :
    Invariant surroundings lifetimes surroundings.Lasts
      fun _ past _ => ∀ step ∈ past, surroundings.Respects address id step where
  aside sound respects lasts isAside :=
    List.forall_mem_append.2 ⟨respects, List.forall_mem_singleton.2
      (respects_of_leaves sound lasts (Request.leaves_of_isAside _ _ isAside))⟩
  found _ respects _ := respects
  forgotten respects := respects
  reconciled sound respects member _ reconciling lasts :=
    List.forall_mem_append.2 ⟨respects,
      reconciling.respects sound (sound.found _ member).address lasts⟩
  submitted sound respects submitting lasts :=
    List.forall_mem_append.2 ⟨respects, submitting.respects sound lasts⟩

/-- Where every step respects a settled batch, it stays as it is. -/
theorem Linked.settled (links : surroundings.Linked world steps last)
    (respects : ∀ step ∈ steps, surroundings.Respects address id step)
    {batch : Batch}
    (stored : surroundings.stored? world address id = some batch)
    (settled : batch.status ≠ .pending) :
    (∀ step ∈ steps, ¬step.SendsFor address id) ∧
      ∀ later ∈ steps.map Step.world ++ [last],
        ∃ batch', surroundings.stored? later address id = some batch' ∧
          batch'.status = batch.status := by
  let holds (later : World) : Prop :=
    ∃ batch', surroundings.stored? later address id = some batch' ∧
      batch'.status = batch.status
  have start : holds world := ⟨batch, stored, rfl⟩
  have kept (step : Step) (member : step ∈ steps) (before : holds step.world) :
      holds (surroundings.after step) := by
    rcases before with ⟨found, shown, status⟩
    rcases respects step member found shown (status ▸ settled) with
      ⟨-, batch', shown', status'⟩
    exact ⟨batch', shown', status'.trans status⟩
  have between := links.keeps_at holds start kept
  constructor
  · intro step member
    rcases between step member with ⟨found, shown, status⟩
    exact (respects step member found shown (status ▸ settled)).1
  · intro later member
    rcases List.mem_append.1 member with inSteps | atEnd
    · rcases List.mem_map.1 inSteps with ⟨step, isStep, rfl⟩
      exact between step isStep
    · obtain rfl := List.mem_singleton.1 atEnd
      exact links.keeps holds start kept

end Surroundings

namespace Run

variable (run : Run)

theorem coherent {world : World} (member : world ∈ run.worlds)
    {address id : String} {batch : Batch}
    (stored : run.surroundings.stored? world address id = some batch) :
    batch.Coherent := by
  have start : Surroundings.CoherentThrough [] run.start := by
    refine ⟨List.forall_mem_nil _, ?_⟩
    intro address id entry batch member
    simp [Run.start, World.start, run.empty] at member
  have through := (run.holds Surroundings.invariant_coherent start
    fun _ _ => trivial).2
  have all := run.forall_worlds.2 through
  exact Surroundings.stored?_coherent (all world member)
    (run.unique world member) stored

/-- The status of a stored batch fits its items, whatever fails.  As long as
records last, a batch whose status is no longer pending keeps it from then on,
and no later step sends for it. -/
theorem settled_batches_final :
    (∀ world ∈ run.worlds, ∀ address id batch,
        run.surroundings.stored? world address id = some batch →
        batch.Coherent) ∧
      ((∀ world ∈ run.worlds, run.surroundings.Lasting world) →
        ∀ front step back, run.steps = front ++ step :: back →
        ∀ address id batch,
        run.surroundings.stored? step.world address id = some batch →
        batch.status ≠ .pending →
        (∀ later ∈ step :: back, ¬later.SendsFor address id) ∧
          ∀ world ∈ (step :: back).map Step.world ++ [run.final],
            ∃ batch', run.surroundings.stored? world address id = some batch' ∧
              batch'.status = batch.status) := by
  constructor
  · intro world member address id batch stored
    exact run.coherent member stored
  · intro lasting front step back split address id batch stored settled
    have invariant : Invariant run.surroundings run.lifetimes
        run.surroundings.Lasts fun _ past _ =>
          ∀ step ∈ past, run.surroundings.Respects address id step :=
      Surroundings.invariant_respects
    have lasts (step : Step) (member : step ∈ run.steps) :
        run.surroundings.Lasts step :=
      ⟨(run.forall_worlds.1 lasting).1 step member,
        lasting _ (run.after_mem_worlds member)⟩
    have respects := (run.holds invariant (List.forall_mem_nil _) lasts).2
    have links := run.linked
    rw [split] at respects links
    exact links.of_append.settled (List.forall_mem_append.1 respects).2 stored
      settled

theorem undone_batch_final :
    (∀ world ∈ (Sample.undoingAnd [.tick ⟨[1], 0⟩]).worlds,
        (Sample.undoingAnd [.tick ⟨[1], 0⟩]).surroundings.Lasting world) ∧
      ∃ batch, (Sample.undoingAnd [.tick ⟨[1], 0⟩]).surroundings.stored?
          (Sample.undoingAnd [.tick ⟨[1], 0⟩]).final Sample.alice "b" =
            some batch ∧ batch.status = .invalid := by
  have lasting := (Sample.undoingAnd_calm [.tick ⟨[1], 0⟩]).lasting
  obtain ⟨past, step, later, split, begins⟩ :=
    (Sample.undoingAnd [.tick ⟨[1], 0⟩]).steps_of_tick
      (Sample.undoingAnd_commands _)
  have before := Sample.stored?_undoingAnd [.tick ⟨[1], 0⟩]
  rw [← begins] at before
  have settled : (Retry.undone "b" Sample.early Sample.first Sample.third
      Sample.noFunds).status ≠ .pending := by simp [Retry.undone]
  have final := (settled_batches_final _).2 lasting past step later split
    Sample.alice "b" _ before settled
  exact ⟨lasting, final.2 _ (by simp)⟩

end Run

end BatchRelay
