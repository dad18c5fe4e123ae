import BatchRelay.Proofs.Engine.Leftovers

/-!
# Which groups have succeeded when a later one is sent

A group is sent when an outcome completes the group right before it, and nobody
looks at the groups further ahead.  In calm surroundings a pending batch has
sent just those of its later groups whose forerunner has succeeded.  So when a
group is sent, all groups before it have succeeded just when each of them was
sent in its turn.
-/

namespace BatchRelay

namespace Surroundings

/-- What a world shows of a batch when a later group of it is sent: one item of
the stored batch has just succeeded and completes the group before.  The record
with that item marked is the one at work; all its groups up to there have
succeeded just when each of them but the first had been sent before. -/
def StartsAfter (surroundings : Surroundings) (address id : String)
    (group : Nat) (world : World) : Prop :=
  ∃ batch position item, surroundings.stored? world address id = some batch ∧
    batch.status = .pending ∧ batch.item? position = some item ∧
    item.status = .pending ∧ position.group = group ∧
    (batch.setItemStatus position .success).groupSuccessful group = true ∧
    ((batch.setItemStatus position .success).DoneBefore (group + 1) ↔
      ∀ earlier < group, world.SentFor address id (earlier + 1))

/-- What holds of a batch all through a calm run. -/
structure GroupsInOrder (surroundings : Surroundings) (address id : String)
    (past : List Step) (world : World) : Prop where
  sends : ∀ step ∈ past, ∀ group place payload,
    step.request = .send ⟨address, id, ⟨group + 1, place⟩⟩ payload →
    surroundings.StartsAfter address id group step.world
  unsent : surroundings.stored? world address id = none →
    ∀ group, ¬world.SentFor address id (group + 1)
  started : ∀ batch, surroundings.stored? world address id = some batch →
    batch.status = .pending → ∀ group, group + 1 < batch.groups.length →
    (world.SentFor address id (group + 1) ↔ batch.groupSuccessful group = true)

variable {surroundings : Surroundings} {lifetimes : Lifetimes}
  {routes : List (String × Route)} {address id hash : String}
  {past steps : List Step} {world middle last : World}

theorem GroupsInOrder.leave
    (inOrder : surroundings.GroupsInOrder address id past world)
    (bypasses : surroundings.Bypasses address id routes world steps last) :
    surroundings.GroupsInOrder address id (past ++ steps) last := by
  have stored := bypasses.stored?_eq
  have sent := bypasses.sentFor_iff
  constructor
  · intro step member group place payload sends
    obtain inPast | inSteps := List.mem_append.1 member
    · exact inOrder.sends step inPast group place payload sends
    · exact (bypasses.unsent inSteps payload sends).elim
  · simpa only [stored, sent] using inOrder.unsent
  · simpa only [stored, sent] using inOrder.started

section Following

variable {batch batch' : Batch} {position : Position} {item : Item}
  {outcome : ItemStatus}

theorem doneBefore_completed
    (complete : (batch.setItemStatus position .success).groupSuccessful
      position.group = true) :
    (batch.setItemStatus position .success).DoneBefore (position.group + 1) ↔
      ∀ earlier < position.group, batch.groupSuccessful earlier = true := by
  have inside := (Batch.groupSuccessful_iff.1 complete).1
  rw [Batch.doneBefore_iff inside]
  have same {earlier : Nat} (order : earlier < position.group) :
      (batch.setItemStatus position .success).groupSuccessful earlier =
        batch.groupSuccessful earlier :=
    Batch.groupSuccessful_modifyGroup_of_ne _ (Nat.ne_of_lt order)
  constructor
  · intro all earlier order
    rw [← same order]
    exact all earlier (Nat.lt_succ_of_lt order)
  · intro all earlier order
    obtain before | rfl := Nat.lt_succ_iff_lt_or_eq.1 order
    · rw [same before]
      exact all earlier before
    · exact complete

theorem Followed.groupSuccessful {owner : String} {group : Nat}
    (followed : surroundings.Followed lifetimes owner
      (batch.setItemStatus position outcome) position.group outcome world batch'
      steps last)
    (found : batch.item? position = some item) (waits : item.status = .pending)
    (isOpen : batch'.status = .pending) :
    batch.status = .pending ∧ batch'.groups.length = batch.groups.length ∧
      (batch'.groupSuccessful group = true ↔
        batch.groupSuccessful group = true ∨
          group = position.group ∧ steps ≠ []) := by
  have incomplete := Batch.groupSuccessful_of_waiting found waits
  have same (isOther : group ≠ position.group) :
      (batch.setItemStatus position outcome).groupSuccessful group =
        batch.groupSuccessful group :=
    Batch.groupSuccessful_modifyGroup_of_ne _ isOther
  cases followed with
  | settled ended => exact absurd isOpen ended
  | invalid | dropped | finished | stopped => cases isOpen
  | waiting isOpen _ stillOpen =>
      refine ⟨isOpen, Batch.length_modifyGroup _, ?_⟩
      by_cases here : group = position.group
      · subst here
        simp [stillOpen, incomplete]
      · simp [same here, here]
  | continued isOpen _ complete next taken =>
      refine ⟨isOpen, next.length.trans (Batch.length_modifyGroup _), ?_⟩
      rw [Batch.groupSuccessful_congr (next.statuses taken)]
      by_cases here : group = position.group
      · subst here
        simp [complete, next.ne_nil]
      · simp [same here, here]

theorem Followed.sentFor {owner : String} {group : Nat}
    (followed : surroundings.Followed lifetimes owner
      (batch.setItemStatus position outcome) position.group outcome world batch'
      steps last)
    (proper : batch.Proper owner) :
    last.SentFor owner batch.id (group + 1) ↔
      world.SentFor owner batch.id (group + 1) ∨
        group = position.group ∧ steps ≠ [] := by
  simp only [World.SentFor, followed.linked.sent_mem_journal]
  constructor
  · rintro ⟨place, payload, reply, before | ⟨step, member, sends, -⟩⟩
    · exact .inl ⟨place, payload, reply, before⟩
    · obtain ⟨-, -, same⟩ := (followed.sends step member).origin sends
      exact .inr ⟨Nat.succ.inj same, List.ne_nil_of_mem member⟩
  · rintro (⟨place, payload, reply, before⟩ | ⟨rfl, sent⟩)
    · exact ⟨place, payload, reply, .inl before⟩
    · obtain ⟨step, member, payload, sends⟩ := followed.sends_first sent
        (proper.setItemStatus position outcome).nonempty
      exact ⟨0, payload, _, .inr ⟨step, member, sends, rfl⟩⟩

end Following

/-- When an earlier group was never sent, some item before has not succeeded. -/
theorem StartsAfter.behind {group earlier : Nat}
    (starts : surroundings.StartsAfter address id group world)
    (order : earlier < group) (skipped : ¬world.SentFor address id (earlier + 1)) :
    ∃ batch position item, surroundings.stored? world address id = some batch ∧
      position.group < group ∧ batch.item? position = some item ∧
      item.status ≠ .success := by
  rcases starts with
    ⟨batch, position, item, stored, -, -, -, rfl, complete, inTurn⟩
  have inside := (Batch.groupSuccessful_iff.1 complete).1
  rw [Batch.setItemStatus, Batch.length_modifyGroup] at inside
  apply Classical.byContradiction
  intro allSucceeded
  apply skipped
  refine inTurn.1 ((doneBefore_completed complete).2 ?_) earlier order
  intro before isBefore
  apply Batch.groupSuccessful_iff.2
  constructor
  · exact Nat.lt_trans isBefore inside
  · intro place other there
    apply Classical.byContradiction
    intro unfinished
    exact allSucceeded
      ⟨batch, ⟨before, place⟩, other, stored, isBefore, there, unfinished⟩

theorem GroupsInOrder.apply {outcome : ItemStatus} {batch batch' : Batch}
    {position : Position} {item : Item}
    (inOrder : surroundings.GroupsInOrder address id past world)
    (sound : world.Sound routes) (clean : Address.Clean address)
    (applied : surroundings.Applied lifetimes hash id address outcome world batch
      batch' position item steps middle)
    (read : surroundings.Calm (.readRecord world address id))
    (sending : ∀ step ∈ steps, surroundings.Calm step)
    (write : surroundings.Calm (.writeRecord lifetimes middle address batch')) :
    surroundings.GroupsInOrder address id
      (past ++ .readRecord world address id ::
        (steps ++ [.writeRecord lifetimes middle address batch']))
      (surroundings.written lifetimes middle address batch') := by
  have proper := applied.proper sound clean
  obtain rfl := applied.named sound clean
  have started := inOrder.started batch applied.stored
  have stored : surroundings.stored?
      (surroundings.written lifetimes middle address batch') address batch.id =
        some batch' :=
    stored?_after_calm_write write (applied.soundMiddle sound clean)
      (applied.key sound clean)
  constructor
  · intro step member group place payload sends
    simp only [List.mem_append, List.mem_cons, List.not_mem_nil, or_false]
      at member
    obtain inPast | rfl | inSteps | rfl := member
    · exact inOrder.sends step inPast group place payload sends
    · cases sends
    · have shown : surroundings.stored? step.world address batch.id = some batch :=
        ((applied.stored?_eq sound clean read sending _ _).1 step inSteps).trans
          applied.stored
      obtain ⟨-, -, same⟩ := (applied.followed.sends step inSteps).origin sends
      obtain rfl := Nat.succ.inj same
      obtain ⟨isOpen, rfl, complete, inside⟩ :=
        applied.followed.next (List.ne_nil_of_mem inSteps)
      refine ⟨batch, position, item, shown, isOpen, applied.found, applied.waits,
        rfl, complete, ?_⟩
      rw [doneBefore_completed complete]
      refine forall_congr' fun earlier => imp_congr_right fun order => ?_
      -- No group before the one that is being sent is sent meanwhile.
      have unsent (step : Step) (member : step ∈ steps) (place : Nat)
          (payload : Transaction) : step.request ≠
            .send ⟨address, batch.id, ⟨earlier + 1, place⟩⟩ payload := by
        intro sends
        have same := ((applied.followed.sends step member).origin sends).2.2
        exact absurd (Nat.succ.inj same) (Nat.ne_of_lt order)
      rw [(applied.followed.linked.sentFor_iff unsent).1 step inSteps,
        sentFor_readRecord]
      rw [Batch.setItemStatus, Batch.length_modifyGroup] at inside
      exact (started isOpen earlier (by omega)).symm
    · cases sends
  · intro absent
    rw [stored] at absent
    cases absent
  · intro found shown isOpen group inside
    rw [stored] at shown
    cases shown
    obtain ⟨wasOpen, length, successful⟩ :=
      applied.followed.groupSuccessful applied.found applied.waits isOpen
    rw [sentFor_writeRecord, applied.followed.sentFor proper, sentFor_readRecord,
      started wasOpen group (length ▸ inside)]
    exact successful.symm

theorem Applied.unsent_next {outcome : ItemStatus} {batch batch' : Batch}
    {position : Position} {item : Item}
    (applied : surroundings.Applied lifetimes hash id address outcome world batch
      batch' position item steps middle)
    (inOrder : surroundings.GroupsInOrder address id past world)
    (sent : steps ≠ []) : ¬world.SentFor address id (position.group + 1) := by
  intro before
  obtain ⟨isOpen, -, -, inside⟩ := applied.followed.next sent
  rw [Batch.setItemStatus, Batch.length_modifyGroup] at inside
  have complete :=
    (inOrder.started batch applied.stored isOpen position.group inside).1 before
  rw [Batch.groupSuccessful_of_waiting applied.found applied.waits] at complete
  cases complete

theorem GroupsInOrder.reconcile {batchId owner : String} {outcome : ItemStatus}
    (inOrder : surroundings.GroupsInOrder address id past world)
    (sound : world.Sound routes) (clean : Address.Clean address)
    (cleanOwner : Address.Clean owner)
    (reconciling : surroundings.Reconciling lifetimes hash batchId owner outcome
      world steps last)
    (calm : ∀ step ∈ steps, surroundings.Calm step) :
    surroundings.GroupsInOrder address id (past ++ steps) last := by
  obtain leaves | ⟨same, batch, batch', position, item, sending, middle, applied,
    rfl, rfl⟩ := reconciling.leaves_or_applied sound cleanOwner address id
  · exact inOrder.leave ⟨sound, reconciling.linked,
      reconciling.writesGenuine sound cleanOwner, calm, leaves⟩
  · obtain ⟨rfl, rfl⟩ := Records.key_inj cleanOwner clean same
    simp only [List.forall_mem_cons, List.forall_mem_append,
      List.not_mem_nil, false_implies, implies_true, and_true] at calm
    obtain ⟨read, sending, write, remove⟩ := calm
    have written := inOrder.apply sound clean applied read sending write
    have removed := written.leave
      (.removeRoute (applied.soundWritten sound clean) remove)
    simpa only [List.append_assoc, List.cons_append, List.nil_append]
      using removed

/-! ## Submissions -/

theorem GroupsInOrder.offer {request : BatchRequest} {owner : String}
    {batch batch' : Batch}
    (inOrder : surroundings.GroupsInOrder address id past world)
    (offered : surroundings.Offered lifetimes request world owner batch batch'
      steps last)
    (same : Records.key owner request.id = Records.key address id) :
    (∀ step ∈ past ++ .readRecord world owner request.id :: steps,
        ∀ group place payload,
        step.request = .send ⟨address, id, ⟨group + 1, place⟩⟩ payload →
        surroundings.StartsAfter address id group step.world) ∧
      ∀ group, ¬last.SentFor address id (group + 1) := by
  have unsent (group : Nat) (step : Step) (member : step ∈ steps) (place : Nat)
      (payload : Transaction) :
      step.request ≠ .send ⟨address, id, ⟨group + 1, place⟩⟩ payload := by
    intro sends
    have first := ((offered.sent.sends step member).origin sends).2.2
    cases first
  constructor
  · intro step member group place payload sends
    simp only [List.mem_append, List.mem_cons] at member
    obtain inPast | rfl | inSteps := member
    · exact inOrder.sends step inPast group place payload sends
    · cases sends
    · exact absurd sends (unsent group step inSteps place payload)
  · intro group
    rw [(offered.sent.linked.sentFor_iff (unsent group)).2, sentFor_readRecord]
    exact inOrder.unsent (offered.stored?_eq_none same) group

theorem GroupsInOrder.submit {request : BatchRequest}
    (inOrder : surroundings.GroupsInOrder address id past world)
    (sound : world.Sound [])
    (submitting : surroundings.Submitting lifetimes request world steps last)
    (calm : ∀ step ∈ steps, surroundings.Calm step) :
    surroundings.GroupsInOrder address id (past ++ steps) last := by
  obtain leaves | ⟨owner, batch, batch', sending, ending, same, offered,
    ⟨rfl, rfl, -⟩ | ⟨rfl, rfl, taken⟩⟩ := submitting.leaves_or_offered address id
  · exact inOrder.leave ⟨sound, submitting.linked, submitting.writesGenuine,
      calm, leaves⟩
  · obtain ⟨sends, unsent⟩ := inOrder.offer offered same
    obtain ⟨read, sending⟩ := List.forall_mem_cons.1 calm
    refine ⟨sends, fun _ => unsent, fun found shown => ?_⟩
    rw [(offered.stored?_eq sound read sending _ _).2,
      offered.stored?_eq_none same] at shown
    cases shown
  · obtain ⟨before, unsent⟩ := inOrder.offer offered same
    have write := calm (.writeRecord lifetimes ending owner batch') (by simp)
    have stored : surroundings.stored?
        (surroundings.written lifetimes ending owner batch') address id =
          some batch' :=
      stored?_after_calm_write write (offered.soundLast sound)
        (offered.key.trans same)
    constructor
    · intro step member group place payload sends
      rw [← List.cons_append, ← List.append_assoc] at member
      obtain inFront | atEnd := List.mem_append.1 member
      · exact before step inFront group place payload sends
      · obtain rfl := List.mem_singleton.1 atEnd
        cases sends
    · intro absent
      rw [stored] at absent
      cases absent
    · intro found shown _ group inside
      rw [stored] at shown
      cases shown
      rw [sentFor_writeRecord]
      have incomplete := offered.groupSuccessful taken
        (Nat.lt_of_succ_lt inside)
      simp [unsent group, incomplete]

theorem invariant_groupsInOrder (clean : Address.Clean address) :
    Invariant surroundings lifetimes surroundings.Calm
      fun _ => surroundings.GroupsInOrder address id where
  aside sound inOrder calm isAside := inOrder.leave (.aside sound calm isAside)
  found _ inOrder _ := inOrder
  forgotten inOrder := inOrder
  reconciled sound inOrder member _ reconciling calm :=
    inOrder.reconcile sound clean (sound.found _ member).address reconciling calm
  submitted sound inOrder submitting calm :=
    inOrder.submit sound submitting calm

end Surroundings

theorem Run.groupsInOrder_start (run : Run) (address id : String) :
    run.surroundings.GroupsInOrder address id [] run.start where
  sends := List.forall_mem_nil _
  unsent _ group := by
    rintro ⟨place, payload, reply, sent⟩
    cases sent
  started batch stored := by
    rw [run.stored?_start] at stored
    cases stored

theorem Run.groupsInOrder (run : Run) (calm : run.Calm) {address : String}
    (clean : Address.Clean address) (id : String) :
    run.surroundings.GroupsInOrder address id run.steps run.final :=
  (run.holds (Surroundings.invariant_groupsInOrder clean)
    (run.groupsInOrder_start address id) fun _ member => calm.step member).2

/-- In calm surroundings a later group is sent right after an outcome has
completed the group before it.  At that moment all groups before it have
succeeded just when each of them but the first was itself sent before. -/
theorem Run.earlier_groups_successful (run : Run) (calm : run.Calm) {step : Step}
    (member : step ∈ run.steps) {address id : String} {group place : Nat}
    {payload : Transaction}
    (sends : step.request = .send ⟨address, id, ⟨group + 1, place⟩⟩ payload) :
    run.surroundings.StartsAfter address id group step.world := by
  have clean : Address.Clean address := run.clean_of_send member sends
  exact (run.groupsInOrder calm clean id).sends step member group place payload
    sends

theorem Run.third_group_follows_second : Sample.attempts.Calm ∧
    ∃ step ∈ Sample.attempts.steps,
      (∃ payload, step.request =
        .send ⟨Sample.alice, "b", ⟨2, 0⟩⟩ payload) ∧
      Sample.attempts.surroundings.StartsAfter Sample.alice "b" 1
        step.world := by
  have calm : Sample.attempts.Calm := Sample.run_calm Sample.third []
  rcases Sample.attempts_sends_third with ⟨step, member, payload, sends⟩
  have starts := Sample.attempts.earlier_groups_successful calm member sends
  exact ⟨calm, step, member, ⟨payload, sends⟩, starts⟩

/-- Even in calm surroundings the third group may be sent while the first one
has an item that has not succeeded. -/
theorem Run.third_group_overtakes_first : Sample.attempts.Calm ∧
    ∃ step ∈ Sample.attempts.steps,
      (∃ payload, step.request =
        .send ⟨Sample.alice, "b", ⟨2, 0⟩⟩ payload) ∧
      ∃ batch position item,
        Sample.attempts.surroundings.stored? step.world Sample.alice "b" =
          some batch ∧
        position.group < 1 ∧ batch.item? position = some item ∧
        item.status ≠ .success := by
  have calm : Sample.attempts.Calm := Sample.run_calm Sample.third []
  rcases Sample.attempts_sends_third with ⟨step, member, payload, sends⟩
  have starts := (Sample.attempts.groupsInOrder calm Sample.alice_clean "b").sends
    step member 1 0 payload sends
  have skipped : ¬step.world.SentFor Sample.alice "b" 1 := fun sent =>
    Sample.attempts_spares_second
      (Sample.attempts.linked.sentFor_mono member sent)
  exact ⟨calm, step, member, ⟨payload, sends⟩,
    starts.behind (Nat.lt_succ_self 0) skipped⟩

end BatchRelay
