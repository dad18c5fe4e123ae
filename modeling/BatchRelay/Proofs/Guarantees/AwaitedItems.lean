import BatchRelay.Proofs.Engine.Acceptances
import BatchRelay.Proofs.Engine.Leftovers
import BatchRelay.Proofs.Guarantees.GroupOrder

/-!
# Whether the outcome of an accepted item is awaited

A route is written when the network takes a transaction and removed when an
outcome has been dealt with, and both go by the hash alone.  So a batch awaits
the outcome of an accepted item just when it has the last word on the item's
hash.  In calm surroundings that can only fail when the hash is not the item's
own: the network took it a second time, or another item of the batch hashes to
it.
-/

namespace BatchRelay

/-- Whether a hash is computed from another item of a batch as well. -/
def Batch.Shares (batch : Batch) (position : Position) (hash : String) : Prop :=
  ∃ place other, place ≠ position ∧ batch.item? place = some other ∧
    other.payload.hash = .ok hash

theorem Batch.map_payload_item? {batch : Batch} {position : Position} :
    (batch.item? position).map Item.payload =
      (batch.payloads[position.group]?).bind fun payloads =>
        payloads[position.item]? := by
  cases present : batch.groups[position.group]? <;>
    simp [item?, payloads, present]

theorem Batch.item?_of_payloads {batch changed : Batch} {position : Position}
    {item : Item} (same : changed.payloads = batch.payloads)
    (found : changed.item? position = some item) :
    ∃ original, batch.item? position = some original ∧
      original.payload = item.payload := by
  have payload := congrArg (Option.map Item.payload) found
  rw [map_payload_item?, same, ← map_payload_item?] at payload
  exact Option.map_eq_some_iff.1 payload

theorem Batch.Shares.transfer {batch changed : Batch} {position : Position}
    {hash : String} (shares : batch.Shares position hash)
    (same : changed.payloads = batch.payloads) : changed.Shares position hash := by
  obtain ⟨place, other, isOther, found, computed⟩ := shares
  obtain ⟨changed, there, payload⟩ := item?_of_payloads same.symm found
  exact ⟨place, changed, isOther, there, payload ▸ computed⟩

/-- Whether a hash stands for more than an item: the network has taken it more
than once, or it is computed from another item of the batch as well. -/
def Batch.Contested (batch : Batch) (position : Position) (hash : String)
    (world : World) : Prop :=
  2 ≤ world.acceptances hash ∨ batch.Shares position hash

theorem Batch.Contested.transfer {batch changed : Batch} {position : Position}
    {hash : String} {world : World}
    (contested : batch.Contested position hash world)
    (same : changed.payloads = batch.payloads) :
    changed.Contested position hash world :=
  contested.imp_right fun shares => shares.transfer same

theorem Batch.Contested.mono {batch : Batch} {position : Position}
    {hash : String} {world last : World} {surroundings : Surroundings}
    {steps : List Step} (contested : batch.Contested position hash world)
    (links : surroundings.Linked world steps last) :
    batch.Contested position hash last :=
  contested.imp_left fun twice => Nat.le_trans twice links.acceptances_le

namespace Surroundings

variable {surroundings : Surroundings} {lifetimes : Lifetimes}
  {routes : List (String × Route)} {address id hash : String}
  {past steps : List Step} {world middle last : World} {step : Step}

/-! ## The hashes of sent items -/

section Sending

variable {owner : String} {batch batch' : Batch} {index : Nat}
  {position : Position} {item : Item}

/-- The hash of an item after its group was sent: it is the old one, or the
network took the item under it. -/
theorem Started.hash_of_item
    (started : surroundings.Started lifetimes batch owner index world batch' steps
      last)
    (found : batch'.item? position = some item) :
    ∃ original, batch.item? position = some original ∧
      original.payload = item.payload ∧
      (original.hash = item.hash ∨ ∃ step ∈ steps,
        surroundings.Accepts step ⟨owner, batch.id, position⟩ item.hash) := by
  cases started with
  | @sent group items steps last present sent =>
      obtain ⟨other, place⟩ := position
      by_cases here : other = index
      case neg =>
        rw [Batch.item?_modifyGroup_of_ne _ here] at found
        exact ⟨item, found, rfl, .inl rfl⟩
      case pos =>
        subst here
        rw [Batch.item?_modifyGroup_self _ present] at found
        obtain ⟨original, there, fate⟩ := sent.item found
        refine ⟨original, Batch.item?_eq_some_iff.2 ⟨group, present, there⟩, ?_⟩
        simp only [Nat.zero_add] at fate
        obtain ⟨earlier, taken, member, answer, rfl⟩ | ⟨_, _, -, -, rfl⟩ |
          ⟨rfl, -⟩ := fate
        · exact ⟨rfl, .inr ⟨_, List.mem_cons_of_mem _ member,
            accepts_send.2 ⟨rfl, answer⟩⟩⟩
        · exact ⟨rfl, .inl rfl⟩
        · exact ⟨rfl, .inl rfl⟩

theorem Started.accepts_of_item {place : Nat}
    (started : surroundings.Started lifetimes batch owner index world batch' steps
      last)
    (taken : batch'.invalidHashesAt index = [])
    (found : batch'.item? ⟨index, place⟩ = some item) :
    ∃ step ∈ steps,
      surroundings.Accepts step ⟨owner, batch.id, ⟨index, place⟩⟩ item.hash := by
  cases started with
  | @sent group items steps last present sent =>
      have inside := (List.getElem?_eq_some_iff.1 present).1
      have clean := (Batch.invalidHashesAt_modifyGroup inside).1 taken
      rw [Batch.item?_modifyGroup_self _ present] at found
      obtain ⟨original, -, earlier, hash, member, answer, rfl⟩ :=
        sent.taken_item clean found
      simp only [Nat.zero_add] at member
      exact ⟨_, List.mem_cons_of_mem _ member, accepts_send.2 ⟨rfl, answer⟩⟩

theorem Followed.hash_of_item {outcome : ItemStatus}
    (followed : surroundings.Followed lifetimes owner batch index outcome world
      batch' steps last)
    (found : batch'.item? position = some item) :
    ∃ original, batch.item? position = some original ∧
      original.payload = item.payload ∧
      (original.hash = item.hash ∨ ∃ step ∈ steps,
        surroundings.Accepts step ⟨owner, batch.id, position⟩ item.hash) := by
  cases followed with
  | continued _ _ _ next => exact next.hash_of_item found
  | stopped _ _ _ next =>
      obtain ⟨original, there, payload, fate⟩ := next.hash_of_item found
      refine ⟨original, there, payload, fate.imp_right ?_⟩
      rintro ⟨step, member, accepts⟩
      exact ⟨step, List.mem_append_left _ member, accepts⟩
  | _ => exact ⟨item, found, rfl, .inl rfl⟩

theorem Followed.item?_of_ne {outcome : ItemStatus}
    (followed : surroundings.Followed lifetimes owner batch index outcome world
      batch' steps last)
    (elsewhere : steps ≠ [] → position.group ≠ index + 1) :
    batch'.item? position = batch.item? position := by
  have sent {started : Batch} {steps : List Step} {last : World}
      (next : surroundings.Started lifetimes batch owner (index + 1) world started
        steps last) (isOther : position.group ≠ index + 1) :
      started.item? position = batch.item? position := by
    cases next with
    | sent => exact Batch.item?_modifyGroup_of_ne _ isOther
  cases followed with
  | continued _ _ _ next => exact sent next (elsewhere next.ne_nil)
  | stopped _ _ _ next =>
      have kept := sent next
        (elsewhere (List.append_ne_nil_of_left_ne_nil next.ne_nil _))
      exact kept
  | _ => rfl

end Sending

/-! ## Items with one hash -/

/-- What holds of the items of a stored batch that have a certain hash: they
have it by their transaction or because the network took them under it, and a
waiting one that was taken is awaited unless the hash is contested. -/
structure Covered (surroundings : Surroundings) (address id hash : String)
    (batch : Batch) (past : List Step) (world : World) : Prop where
  origin : ∀ position item, batch.item? position = some item →
    item.hash = hash → item.payload.hash = .ok hash ∨
      world.Accepted ⟨address, id, position⟩ hash
  awaited : ∀ position item, batch.item? position = some item →
    item.hash = hash → item.status = .pending →
    world.Accepted ⟨address, id, position⟩ hash →
    surroundings.LastWord address id hash past ∨
      batch.Contested position hash world

section Covering

variable {batch batch' : Batch} {position place : Position} {item other : Item}

theorem Covered.contested
    (covered : surroundings.Covered address id hash batch past world)
    (accepted : world.Accepted ⟨address, id, position⟩ hash)
    (isOther : place ≠ position) (there : batch.item? place = some other)
    (same : other.hash = hash) : batch.Contested position hash world := by
  obtain computed | again := covered.origin place other there same
  · exact .inr ⟨place, other, isOther, there, computed⟩
  · refine .inl (accepted.acceptances_of_ne again fun same => isOther ?_)
    exact (congrArg Origin.position same).symm

/-- Steps that leave the batch alone keep its items covered when a route of the
hash is removed only where the hash is contested. -/
theorem Covered.leave
    (covered : surroundings.Covered address id hash batch past world)
    (links : surroundings.Linked world steps last)
    (leaves : ∀ step ∈ steps, step.request.Leaves address id)
    (removes : (∃ step ∈ steps, step.request = .delete (Routes.key hash)) →
      ∀ position item, batch.item? position = some item → item.hash = hash →
        item.status = .pending → world.Accepted ⟨address, id, position⟩ hash →
        batch.Contested position hash world) :
    surroundings.Covered address id hash batch (past ++ steps) last where
  origin position item found same :=
    (covered.origin position item found same).imp_right fun accepted =>
      links.accepted_iff.2 (.inl accepted)
  awaited position item found same waits accepted := by
    obtain before | ⟨step, member, payload, sends, -⟩ :=
      links.accepted_iff.1 accepted
    case inr =>
      exact ((leaves step member).unsent _ payload sends rfl).elim
    obtain lastWord | contested :=
      covered.awaited position item found same waits before
    case inr => exact .inr (contested.mono links)
    by_cases taken : ∃ step ∈ steps,
        surroundings.TakesAway address id hash step
    case neg =>
      exact .inl (lastWord.append fun step member takes =>
        taken ⟨step, member, takes⟩)
    case pos =>
      obtain ⟨step, member, ⟨origin, accepts, isOther⟩ | delete⟩ := taken
      · have again : last.Accepted origin hash :=
          links.accepted_iff.2 (.inr ⟨step, member, accepts⟩)
        refine .inr (.inl (accepted.acceptances_of_ne again fun same => ?_))
        subst same
        exact isOther ⟨rfl, rfl⟩
      · exact .inr ((removes ⟨step, member, delete⟩ position item found same
          waits before).mono links)

/-! ## Changes of the batch itself -/

/-- The steps of a change of a batch: its record is read, a group is perhaps
sent, and the record is written. -/
def changing (lifetimes : Lifetimes) (address id : String) (batch : Batch)
    (world : World) (steps : List Step) (middle : World) : List Step :=
  .readRecord world address id ::
    (steps ++ [.writeRecord lifetimes middle address batch])

theorem linked_changing (links : surroundings.Linked
      (surroundings.after (.readRecord world address id)) steps middle) :
    surroundings.Linked world
      (changing lifetimes address id batch world steps middle)
      (surroundings.written lifetimes middle address batch) :=
  .cons (links.append
    (.single surroundings (.writeRecord lifetimes middle address batch)))

theorem not_takesAway_of_changing {group : Nat}
    (sends : ∀ step ∈ steps, step.request.Sends lifetimes address id group) :
    ∀ step ∈ changing lifetimes address id batch world steps middle,
      ¬surroundings.TakesAway address id hash step := by
  intro step member
  simp only [changing, List.mem_cons, List.mem_append, List.not_mem_nil,
    or_false] at member
  obtain rfl | inSteps | rfl := member
  · rintro (⟨_, ⟨_, sends, -⟩, -⟩ | removes)
    · cases sends
    · cases removes
  · exact not_takesAway_of_sends (sends step inSteps)
  · rintro (⟨_, ⟨_, sends, -⟩, -⟩ | removes)
    · cases sends
    · cases removes

variable {outcome : ItemStatus} {reconciled : String}

section Applying

variable (applied : surroundings.Applied lifetimes reconciled id address outcome
  world batch batch' position item steps middle)

include applied

theorem Applied.not_accepted_next
    (inOrder : surroundings.GroupsInOrder address id past world)
    (accepted : world.Accepted ⟨address, id, place⟩ hash) (sent : steps ≠ []) :
    place.group ≠ position.group + 1 := by
  obtain ⟨group, number⟩ := place
  rintro rfl
  obtain ⟨payload, member⟩ := accepted
  exact applied.unsent_next inOrder sent ⟨number, payload, _, member⟩

theorem Covered.apply
    (covered : surroundings.Covered address id hash batch past world)
    (inOrder : surroundings.GroupsInOrder address id past world)
    (sound : world.Sound routes) (clean : Address.Clean address)
    (final : outcome.isTerminal = true) :
    surroundings.Covered address id hash batch'
      (past ++ changing lifetimes address id batch' world steps middle)
      (surroundings.written lifetimes middle address batch') := by
  have named := applied.named sound clean
  have links : surroundings.Linked world
      (changing lifetimes address id batch' world steps middle)
      (surroundings.written lifetimes middle address batch') :=
    linked_changing applied.followed.linked
  have sends : ∀ step ∈ steps,
      step.request.Sends lifetimes address id (position.group + 1) :=
    named ▸ applied.followed.sends
  have kept : ∀ step ∈ changing lifetimes address id batch' world steps middle,
      ¬surroundings.TakesAway address id hash step :=
    not_takesAway_of_changing sends
  have payloads : batch'.payloads = batch.payloads :=
    applied.followed.payloads.trans (Batch.payloads_setItemStatus outcome)
  constructor
  · intro place other there same
    obtain ⟨marked, found, payload, fate⟩ := applied.followed.hash_of_item there
    obtain ⟨original, present, change⟩ := Batch.item?_of_setItemStatus found
    have unchanged : marked.payload = original.payload ∧
        marked.hash = original.hash := by
      obtain ⟨-, rfl⟩ | ⟨-, rfl⟩ := change <;> exact ⟨rfl, rfl⟩
    rw [links.accepted_iff, ← payload, unchanged.1]
    obtain unsent | ⟨step, member, accepts⟩ := fate
    · have first := covered.origin place original present
        (unchanged.2.symm.trans (unsent.trans same))
      exact first.imp_right .inl
    · subst same
      have accepts : surroundings.Accepts step ⟨address, id, place⟩ other.hash :=
        named ▸ accepts
      refine .inr (.inr ⟨step, ?_, accepts⟩)
      exact List.mem_cons_of_mem _ (List.mem_append_left _ member)
  · intro place other there same waits accepted
    obtain before | ⟨step, member, accepts⟩ := links.accepted_iff.1 accepted
    case inr => exact .inl (lastWord_of_accepts member accepts kept)
    rw [applied.followed.item?_of_ne
      (applied.not_accepted_next inOrder before)] at there
    obtain ⟨original, present, ⟨-, rfl⟩ | ⟨-, rfl⟩⟩ :=
      Batch.item?_of_setItemStatus there
    · obtain lastWord | contested :=
        covered.awaited place other present same waits before
      · exact .inl (lastWord.append kept)
      · exact .inr ((contested.mono links).transfer payloads)
    · simp [ItemStatus.isTerminal, show outcome = .pending from waits] at final

theorem Applied.marked :
    batch'.item? position = some { item with status := outcome } := by
  rw [applied.followed.item?_of_ne fun _ => (Nat.succ_ne_self _).symm,
    Batch.item?_setItemStatus_self, applied.found, Option.map_some]

/-- The items stay covered when the route of the outcome is removed: the item
that took the outcome has the hash, and waits no longer. -/
theorem Covered.settle
    (covered : surroundings.Covered address id hash batch' past
      (surroundings.written lifetimes middle address batch'))
    (final : outcome.isTerminal = true) :
    surroundings.Covered address id hash batch'
      (past ++ [.removeRoute
        (surroundings.written lifetimes middle address batch') reconciled])
      (surroundings.after (.removeRoute
        (surroundings.written lifetimes middle address batch') reconciled)) := by
  refine covered.leave (.single surroundings (.removeRoute _ _))
    (List.forall_mem_singleton.2 removeRoute_leaves) ?_
  rintro ⟨step, member, removes⟩ place other found same waits accepted
  obtain rfl := List.mem_singleton.1 member
  obtain rfl := Routes.key_inj (Request.delete.inj removes)
  obtain ⟨_, there, hashed⟩ := Batch.item?_of_locate applied.located
  rw [applied.found] at there
  cases there
  refine covered.contested accepted (fun here => ?_) applied.marked hashed
  rw [← here, applied.marked] at found
  cases found
  simp [ItemStatus.isTerminal, show outcome = .pending from waits] at final

end Applying

theorem Offered.covered {request : BatchRequest}
    (offered : surroundings.Offered lifetimes request world address batch batch'
      steps middle)
    (taken : batch'.invalidHashesAt 0 = [])
    (unsent : ∀ group, ¬world.SentFor address request.id (group + 1)) :
    surroundings.Covered address request.id hash batch'
      (past ++ changing lifetimes address request.id batch' world steps middle)
      (surroundings.written lifetimes middle address batch') := by
  have named := offered.admits.id
  have links : surroundings.Linked world
      (changing lifetimes address request.id batch' world steps middle)
      (surroundings.written lifetimes middle address batch') :=
    linked_changing offered.sent.linked
  have inside (step : Step) (member : step ∈ steps) : step ∈
      changing lifetimes address request.id batch' world steps middle :=
    List.mem_cons_of_mem _ (List.mem_append_left _ member)
  constructor
  · intro place item found same
    subst same
    obtain ⟨original, there, payload, fate⟩ := offered.sent.hash_of_item found
    have computed := (offered.admits.fresh.item place original there).2
    rw [links.accepted_iff, ← payload, computed]
    obtain unchanged | ⟨step, member, accepts⟩ := fate
    · exact .inl (congrArg _ unchanged)
    · exact .inr (.inr ⟨step, inside step member, named ▸ accepts⟩)
  · intro place item found same _ accepted
    have again : ∃ step ∈
        changing lifetimes address request.id batch' world steps middle,
        surroundings.Accepts step ⟨address, request.id, place⟩ hash := by
      obtain before | accepted := links.accepted_iff.1 accepted
      case inr => exact accepted
      obtain ⟨group, number⟩ := place
      cases group with
      | zero =>
          obtain ⟨step, member, accepts⟩ :=
            offered.sent.accepts_of_item taken found
          exact ⟨step, inside step member, named ▸ same ▸ accepts⟩
      | succ group =>
          obtain ⟨payload, member⟩ := before
          exact (unsent group ⟨number, payload, _, member⟩).elim
    obtain ⟨step, member, accepts⟩ := again
    exact .inl (lastWord_of_accepts member accepts
      (not_takesAway_of_changing (named ▸ offered.sent.sends)))

end Covering

/-! ## All steps of a run -/

/-- What holds of the items of a batch that have a certain hash, whenever there
is a record of it. -/
structure StaysCovered (surroundings : Surroundings) (address id hash : String)
    (routes : List (String × Route)) (past : List Step) (world : World) :
    Prop where
  inOrder : surroundings.GroupsInOrder address id past world
  traced : surroundings.Traced hash routes past world
  covered : ∀ batch, surroundings.stored? world address id = some batch →
    surroundings.Covered address id hash batch past world

section Reconciled

variable {reconciled batchId owner : String} {outcome : ItemStatus}
  (reconciling : surroundings.Reconciling lifetimes reconciled batchId owner
    outcome world steps last)

include reconciling

theorem Reconciling.removes {key : String} (member : step ∈ steps)
    (removes : step.request = .delete key) : key = Routes.key reconciled := by
  cases reconciling with
  | skipped =>
      simp only [List.mem_cons, List.not_mem_nil, or_false] at member
      obtain rfl | rfl := member <;> cases removes
      rfl
  | applied applied =>
      simp only [List.mem_cons, List.mem_append, List.not_mem_nil, or_false]
        at member
      obtain rfl | inSteps | rfl | rfl := member
      · cases removes
      · have sends := applied.followed.sends step inSteps
        rw [removes] at sends
        cases sends
      · cases removes
      · cases removes
        rfl

theorem Reconciling.idle (sound : world.Sound routes)
    (clean : Address.Clean owner)
    (leaves : ∀ step ∈ steps, step.request.Leaves owner batchId)
    (calm : ∀ step ∈ steps, surroundings.Calm step) {batch : Batch}
    {position : Position} {item : Item}
    (stored : surroundings.stored? world owner batchId = some batch)
    (located : batch.locate reconciled = some position)
    (found : batch.item? position = some item) : item.status ≠ .pending := by
  cases reconciling with
  | skipped idle =>
      have works := (calm (.readRecord world owner batchId)
        List.mem_cons_self).works
      exact idle (works _) batch position item stored located found
  | @applied _ batch' _ _ _ middle applied =>
      have write := leaves (.writeRecord lifetimes middle owner batch') (by simp)
      exact (write.untouched (congrArg some (applied.key sound clean))).elim

theorem Covered.contested_of_removed {batch : Batch} {position : Position}
    {item : Item}
    (covered : surroundings.Covered address id hash batch past world)
    (stored : surroundings.stored? world address id = some batch)
    (sound : world.Sound routes) (clean : Address.Clean owner)
    (leaves : ∀ step ∈ steps, step.request.Leaves address id)
    (calm : ∀ step ∈ steps, surroundings.Calm step)
    (taken : ∃ place, world.Accepted ⟨owner, batchId, place⟩ reconciled)
    (removed : reconciled = hash) (found : batch.item? position = some item)
    (same : item.hash = hash) (waits : item.status = .pending)
    (accepted : world.Accepted ⟨address, id, position⟩ hash) :
    batch.Contested position hash world := by
  subst removed
  obtain ⟨place, again⟩ := taken
  by_cases own : owner = address ∧ batchId = id
  case neg =>
    refine .inl (accepted.acceptances_of_ne again fun same => own ?_)
    cases same
    exact ⟨rfl, rfl⟩
  case pos =>
    obtain ⟨rfl, rfl⟩ := own
    obtain ⟨first, located, -⟩ := Batch.locate_isFirst found
    rw [same] at located
    obtain ⟨other, there, hashed⟩ := Batch.item?_of_locate located
    have ended := reconciling.idle sound clean leaves calm stored located there
    refine covered.contested accepted (fun here => ?_) there hashed
    rw [here, found] at there
    cases there
    exact ended waits

theorem StaysCovered.reconcile
    (holds : surroundings.StaysCovered address id hash routes past world)
    (sound : world.Sound routes) (clean : Address.Clean address)
    (cleanOwner : Address.Clean owner) (final : outcome.isTerminal = true)
    (calm : ∀ step ∈ steps, surroundings.Calm step)
    (taken : reconciled = hash →
      ∃ place, world.Accepted ⟨owner, batchId, place⟩ reconciled)
    {batch : Batch}
    (stored : surroundings.stored? last address id = some batch) :
    surroundings.Covered address id hash batch (past ++ steps) last := by
  obtain leaves | ⟨same, before, batch', position, item, sending, middle, applied,
    rfl, rfl⟩ := reconciling.leaves_or_applied sound cleanOwner address id
  · have bypasses : surroundings.Bypasses address id routes world steps last :=
      ⟨sound, reconciling.linked, reconciling.writesGenuine sound cleanOwner,
        calm, leaves⟩
    rw [bypasses.stored?_eq] at stored
    have covered := holds.covered batch stored
    refine covered.leave reconciling.linked leaves ?_
    rintro ⟨step, member, removes⟩ position item found same waits accepted
    have removed := Routes.key_inj (reconciling.removes member removes)
    exact covered.contested_of_removed reconciling stored sound cleanOwner leaves
      calm (taken removed.symm) removed.symm found same waits accepted
  · obtain ⟨rfl, rfl⟩ := Records.key_inj cleanOwner clean same
    simp only [List.forall_mem_cons, List.forall_mem_append,
      List.not_mem_nil, false_implies, implies_true, and_true] at calm
    obtain ⟨read, sending, write, remove⟩ := calm
    have shown : surroundings.stored?
        (surroundings.written lifetimes middle owner batch') owner batchId =
          some batch' :=
      stored?_after_calm_write write (applied.soundMiddle sound clean)
        (applied.key sound clean)
    rw [stored?_removeRoute remove (applied.soundWritten sound clean), shown]
      at stored
    cases stored
    have covered := (holds.covered before applied.stored).apply applied
      holds.inOrder sound clean final
    simpa only [changing, List.append_assoc, List.cons_append, List.nil_append]
      using covered.settle applied final

end Reconciled

theorem Submitting.not_removes {request : BatchRequest}
    (submitting : surroundings.Submitting lifetimes request world steps last)
    (member : step ∈ steps) (key : String) : step.request ≠ .delete key := by
  intro removes
  have sending {owner ownerId : String} {group : Nat}
      (sends : step.request.Sends lifetimes owner ownerId group) : False := by
    rw [removes] at sends
    cases sends
  cases submitting with
  | malformed => cases member
  | rejected =>
      obtain rfl := List.mem_singleton.1 member
      cases removes
  | refused offered =>
      obtain rfl | inSteps := List.mem_cons.1 member
      · cases removes
      · exact sending (offered.sent.sends step inSteps)
  | stored offered =>
      simp only [List.mem_cons, List.mem_append, List.not_mem_nil, or_false]
        at member
      obtain rfl | inSteps | rfl := member
      · cases removes
      · exact sending (offered.sent.sends step inSteps)
      · cases removes

theorem StaysCovered.submit {request : BatchRequest}
    (holds : surroundings.StaysCovered address id hash [] past world)
    (sound : world.Sound []) (clean : Address.Clean address)
    (submitting : surroundings.Submitting lifetimes request world steps last)
    (calm : ∀ step ∈ steps, surroundings.Calm step) {batch : Batch}
    (stored : surroundings.stored? last address id = some batch) :
    surroundings.Covered address id hash batch (past ++ steps) last := by
  obtain leaves | ⟨owner, fresh, batch', sending, ending, same, offered,
    ⟨rfl, rfl, -⟩ | ⟨rfl, rfl, taken⟩⟩ := submitting.leaves_or_offered address id
  · have bypasses : surroundings.Bypasses address id [] world steps last :=
      ⟨sound, submitting.linked, submitting.writesGenuine, calm, leaves⟩
    rw [bypasses.stored?_eq] at stored
    refine (holds.covered batch stored).leave submitting.linked leaves ?_
    rintro ⟨step, member, removes⟩
    exact (submitting.not_removes member _ removes).elim
  · obtain ⟨read, others⟩ := List.forall_mem_cons.1 calm
    rw [(offered.stored?_eq sound read others _ _).2,
      offered.stored?_eq_none same] at stored
    cases stored
  · have write := calm (.writeRecord lifetimes ending owner batch') (by simp)
    have shown : surroundings.stored?
        (surroundings.written lifetimes ending owner batch') address id =
          some batch' :=
      stored?_after_calm_write write (offered.soundLast sound)
        (offered.key.trans same)
    rw [shown] at stored
    cases stored
    have absent := offered.stored?_eq_none same
    obtain ⟨rfl, rfl⟩ := Records.key_inj offered.proper.clean clean same
    exact offered.covered taken (holds.inOrder.unsent absent)

theorem StaysCovered.aside {request : Request}
    (holds : surroundings.StaysCovered address id hash routes past world)
    (sound : world.Sound routes) (calm : surroundings.Calm ⟨world, request⟩)
    (isAside : request.isAside = true) {batch : Batch}
    (stored : surroundings.stored? (surroundings.after ⟨world, request⟩) address
      id = some batch) :
    surroundings.Covered address id hash batch (past ++ [⟨world, request⟩])
      (surroundings.after ⟨world, request⟩) := by
  have untouched := Request.touched?_of_isAside isAside
    (isTracked_recordKey address id)
  rw [stored?_after_untouched calm sound untouched] at stored
  refine (holds.covered batch stored).leave
    (.single surroundings ⟨world, request⟩)
    (List.forall_mem_singleton.2 (Request.leaves_of_isAside _ _ isAside)) ?_
  rintro ⟨step, member, removes⟩
  obtain rfl := List.mem_singleton.1 member
  have touched : request.touched? = some (Routes.key hash) :=
    congrArg Request.touched? removes
  exact (Request.touched?_of_isAside isAside (isTracked_routeKey hash)
    touched).elim

theorem invariant_staysCovered (clean : Address.Clean address) :
    Invariant surroundings lifetimes surroundings.Calm
      (surroundings.StaysCovered address id hash) := by
  have inOrder : Invariant surroundings lifetimes surroundings.Calm
      fun _ => surroundings.GroupsInOrder address id :=
    invariant_groupsInOrder clean
  have traced : Invariant surroundings lifetimes surroundings.Calm
      (surroundings.Traced hash) :=
    invariant_traced
  constructor
  case aside =>
    intro _ _ _ _ sound holds calm isAside
    exact ⟨inOrder.aside sound holds.inOrder calm isAside,
      traced.aside sound holds.traced calm isAside,
      fun _ stored => holds.aside sound calm isAside stored⟩
  case found =>
    intro _ _ _ sound holds shown
    exact ⟨holds.inOrder, traced.found sound holds.traced shown, holds.covered⟩
  case forgotten =>
    intro _ _ _ holds
    exact ⟨holds.inOrder, traced.forgotten holds.traced, holds.covered⟩
  case reconciled =>
    intro _ _ _ _ _ _ _ _ sound holds member final reconciling calm
    refine ⟨inOrder.reconciled sound holds.inOrder member final reconciling calm,
      traced.reconciled sound holds.traced member final reconciling calm,
      fun _ stored => ?_⟩
    refine holds.reconcile reconciling sound clean (sound.found _ member).address
      final calm ?_ stored
    rintro rfl
    exact holds.traced.found _ member
  case submitted =>
    intro _ _ _ _ _ sound holds submitting calm
    exact ⟨inOrder.submitted sound holds.inOrder submitting calm,
      traced.submitted sound holds.traced submitting calm,
      fun _ stored => holds.submit sound clean submitting calm stored⟩

end Surroundings

theorem Run.staysCovered_start (run : Run) (address id hash : String) :
    run.surroundings.StaysCovered address id hash [] [] run.start where
  inOrder := run.groupsInOrder_start address id
  traced := run.traced_start hash
  covered batch stored := by
    rw [run.stored?_start] at stored
    cases stored

/-- In calm surroundings the outcome of an accepted item that still waits is
awaited just when the item's batch has the last word on its hash.  It surely is
when the network took the hash once and no other item of the batch has it. -/
theorem Run.accepted_items_awaited (run : Run) (calm : run.Calm)
    {address id : String} {batch : Batch} {position : Position} {item : Item}
    (stored : run.surroundings.stored? run.final address id = some batch)
    (found : batch.item? position = some item) (waits : item.status = .pending)
    (accepted : run.final.Accepted ⟨address, id, position⟩ item.hash) :
    (run.surroundings.Awaits address id item.hash run.final ↔
        run.surroundings.LastWord address id item.hash run.steps) ∧
      (run.final.acceptances item.hash = 1 →
        ¬batch.Shares position item.hash →
        run.surroundings.Awaits address id item.hash run.final) := by
  have journaled :=
    (run.holds Surroundings.invariant_traced (run.traced_start item.hash)
      fun step member => calm.step member).2.journaled
  obtain ⟨step, member, payload, sends, -⟩ := (journaled _).1 accepted
  have clean : Address.Clean address := run.clean_of_send member sends
  have holds := (run.holds (Surroundings.invariant_staysCovered clean)
    (run.staysCovered_start address id item.hash)
    fun step member => calm.step member).2
  have exactly := run.awaits_iff_lastWord calm address id item.hash
  refine ⟨exactly, fun once single => exactly.2 ?_⟩
  obtain lastWord | twice | shares :=
    (holds.covered batch stored).awaited position item found rfl waits accepted
  · exact lastWord
  · omega
  · exact absurd shares single

/-! ## One transaction twice -/

/-- A network that takes a transaction at any time, in surroundings where nothing
fails. -/
structure Willing (surroundings : Surroundings) (address id : String)
    (transaction : HashedTransaction) : Prop where
  works : ∀ moment access, surroundings.fault moment access = none
  clean : Address.Clean address
  named : id ≠ "" ∧ ';' ∉ id.toList
  valid : transaction.Valid address
  takes : ∀ moment,
    surroundings.send moment transaction.payload = .ok transaction.hash

namespace Willing

open Surroundings

/-- A batch of one group with two equal items. -/
def doubled (id : String) (transaction : HashedTransaction) : Batch :=
  ⟨id, [⟨[.waiting transaction, .waiting transaction]⟩], .pending, none⟩

/-- The batch after an outcome. -/
def half (id : String) (transaction : HashedTransaction) : Batch :=
  ⟨id, [⟨[⟨transaction, .success, none⟩, .waiting transaction]⟩], .pending,
    none⟩

/-- The batch is submitted, and a tick follows. -/
def commands (id : String) (transaction : HashedTransaction) (shard : UInt32) :
    List Command :=
  [.submit (.ofGroups id [[transaction, transaction]]) none, .tick ⟨[shard], 0⟩]

section Sending

variable {surroundings : Surroundings} {address id : String}
  {transaction : HashedTransaction} {world : World}
  (willing : Willing surroundings address id transaction)

include willing

theorem starts (shows : world.Shows address id (fun _ => none) false []) :
    surroundings.Yields (startGroup .forever (doubled id transaction) 0) world
      (doubled id transaction) address id
      (fun key => if key = Routes.key transaction.hash then
          some (Route.encode ⟨id, address, surroundings.now world.moment⟩)
        else if key = Routes.key transaction.hash then
          some (Route.encode ⟨id, address, surroundings.now world.moment⟩)
        else none) false
      [(⟨0, 1⟩, .ok transaction.hash), (⟨0, 0⟩, .ok transaction.hash)] := by
  refine yields_startGroup shows (congrArg some willing.valid.sender) rfl rfl ?_
  intro next _ nexts
  refine yields_sendItems_taken nexts willing.works ⟨rfl, rfl⟩
    (willing.takes _) ?_
  intro second _ seconds
  refine yields_sendItems_taken seconds willing.works ⟨rfl, rfl⟩
    (willing.takes _) ?_
  intro last _ lasts
  exact yields_sendItems_nil lasts

theorem submits (shows : world.Shows address id (fun _ => none) false []) :
    ∃ text? since,
      (surroundings.run (submit .forever
          (.ofGroups id [[transaction, transaction]]) none)
          world).2.Shows address id text? false
        [(⟨0, 1⟩, .ok transaction.hash), (⟨0, 0⟩, .ok transaction.hash)] ∧
      text? (Records.key address id) = some (doubled id transaction).render ∧
      text? (Routes.key transaction.hash) =
        some (Route.encode ⟨id, address, since⟩) ∧
      ∀ shard, text? (Checkpoints.key shard) = none := by
  have passes : (BatchRequest.ofGroups id [[transaction, transaction]]).Passes
      none address (doubled id transaction) :=
    BatchRequest.passes_ofGroups willing.named (by simp) (by simp)
      (by simp [willing.valid])
  have taken : (doubled id transaction).invalidHashesAt 0 = [] := by
    simp [Batch.invalidHashesAt, doubled, Group.invalidHashes, Item.waiting]
  have stored := shows.submit (doubled id transaction) willing.works passes rfl
    rfl (fun opened moment opens => moment ▸ willing.starts opens) rfl taken
  exact ⟨_, surroundings.now (world.moment + 1), stored, by simp, by simp,
    by simp⟩

end Sending

theorem shows_commands {run : Run} {address id : String}
    {transaction : HashedTransaction} {shard : UInt32} {latest : UInt64}
    {observed : ObservedTransaction}
    (willing : Willing run.surroundings address id transaction)
    (forever : run.lifetimes = .forever)
    (confirms : run.surroundings.Confirms shard latest observed)
    (same : observed.hash = transaction.hash)
    (given : run.commands = commands id transaction shard) :
    ∃ text?, run.final.Shows address id text? false
        [(⟨0, 1⟩, .ok transaction.hash), (⟨0, 0⟩, .ok transaction.hash)] ∧
      text? (Records.key address id) = some (half id transaction).render ∧
      text? (Routes.key transaction.hash) = none := by
  obtain ⟨text?, since, shows, stored, routed, unvisited⟩ :=
    willing.submits (run.shows_start address id)
  have located : (doubled id transaction).locate observed.hash = some ⟨0, 0⟩ := by
    simp [same, Batch.locate, Batch.locateFrom, doubled, Item.waiting, Item.hash,
      List.findIdx?_cons]
  have ticked := shows.tick 0 willing.works rfl confirms (unvisited shard)
    (same ▸ routed) ⟨willing.clean, willing.named.2⟩ (half id transaction) stored
    located rfl rfl
    (fun _ _ opens => yields_follow_waiting rfl opens rfl) rfl
  rw [run.final_eq_worldAfter given, Run.worldAfter, forever]
  simp only [commands, run_performAll_cons, run_perform_submit, run_perform_tick]
  exact ⟨_, ticked, by simp, by simp [same]⟩

end Willing

namespace Sample

theorem willing : Willing (network first) alice "b" first where
  works _ _ := rfl
  clean := alice_clean
  named := by decide
  valid := first_valid
  takes := (retry first).takesFirst

/-- One transfer is sent twice, and a tick finds its outcome. -/
def doubling : Run :=
  ⟨network first, .forever, .memory .empty, Cache.entries_empty,
    Willing.commands "b" first 1⟩

theorem doubling_calm : doubling.Calm :=
  doubling.calm_of_forever (fun _ _ => rfl) rfl

theorem doubling_shows :
    doubling.surroundings.stored? doubling.final alice "b" =
        some (Willing.half "b" first) ∧
      doubling.final.Accepted ⟨alice, "b", ⟨0, 1⟩⟩ first.hash ∧
      doubling.surroundings.route? doubling.final first.hash = none := by
  have isWilling : Willing doubling.surroundings alice "b" first := willing
  have confirms : doubling.surroundings.Confirms 1 5 (seen first) :=
    confirms_last first
  obtain ⟨text?, shows, stored, unrouted⟩ :=
    isWilling.shows_commands rfl confirms rfl rfl
  refine ⟨shows.stored? stored, ?_, ?_⟩
  · exact (shows.sent ⟨0, 1⟩ (.ok first.hash)).2 List.mem_cons_self
  · rw [shows.route?, unrouted, Option.map_none]

end Sample

namespace Run

theorem doubling_unawaited : ¬Sample.doubling.surroundings.Awaits Sample.alice "b"
    Sample.first.hash Sample.doubling.final := by
  rintro ⟨route, routed, -⟩
  rw [Sample.doubling_shows.2.2] at routed
  cases routed

/-- In the sample a waiting item was accepted, but its batch does not have the
last word on the hash. -/
theorem claim_to_hash_ended : Sample.doubling.Calm ∧
    Sample.doubling.surroundings.stored? Sample.doubling.final Sample.alice "b" =
      some (Willing.half "b" Sample.first) ∧
    Sample.doubling.final.Accepted ⟨Sample.alice, "b", ⟨0, 1⟩⟩
      Sample.first.hash ∧
    ¬Sample.doubling.surroundings.LastWord Sample.alice "b" Sample.first.hash
      Sample.doubling.steps := by
  obtain ⟨stored, accepted, -⟩ := Sample.doubling_shows
  have found : (Willing.half "b" Sample.first).item? ⟨0, 1⟩ =
      some (.waiting Sample.first) := rfl
  have awaited := Sample.doubling.accepted_items_awaited Sample.doubling_calm
    stored found rfl accepted
  exact ⟨Sample.doubling_calm, stored, accepted,
    fun lastWord => doubling_unawaited (awaited.1.2 lastWord)⟩

/-- Even in calm surroundings an accepted item that waits need not be awaited. -/
theorem accepted_item_unawaited : Sample.doubling.Calm ∧
    ∃ batch item,
      Sample.doubling.surroundings.stored? Sample.doubling.final Sample.alice
        "b" = some batch ∧
      batch.item? ⟨0, 1⟩ = some item ∧ item.status = .pending ∧
      Sample.doubling.final.Accepted ⟨Sample.alice, "b", ⟨0, 1⟩⟩ item.hash ∧
      ¬Sample.doubling.surroundings.Awaits Sample.alice "b" item.hash
        Sample.doubling.final := by
  obtain ⟨stored, accepted, -⟩ := Sample.doubling_shows
  exact ⟨Sample.doubling_calm, Willing.half "b" Sample.first,
    .waiting Sample.first, stored, rfl, rfl, accepted, doubling_unawaited⟩

end Run

end BatchRelay
