import BatchRelay.Proofs.Engine.Reports

/-!
# What a trial changes

A trial that stores a batch gives the item with its hash the outcome.  It may send
the next group, where items take the hashes that the network gives them and an
item that the network refuses becomes invalid; then the hashes of invalid items
are published.  So every item whose status changes keeps its hash meanwhile, and
this is the hash of the trial or it is published.
-/

namespace BatchRelay

/-- All items are still there, and where the status of one has changed its hash
has not, and it is one of the named hashes. -/
def Batch.ChangesOnly (named : String → Prop) (batch batch' : Batch) : Prop :=
  ∀ position item, batch.item? position = some item →
    ∃ item', batch'.item? position = some item' ∧
      (item'.status ≠ item.status → item'.hash = item.hash ∧ named item.hash)

theorem Batch.ChangesOnly.refl (named : String → Prop) (batch : Batch) :
    batch.ChangesOnly named batch :=
  fun _ item found => ⟨item, found, absurd rfl⟩

theorem Batch.ChangesOnly.mono {named others : String → Prop}
    {batch batch' : Batch} (changes : batch.ChangesOnly named batch')
    (implies : ∀ hash, named hash → others hash) :
    batch.ChangesOnly others batch' := by
  intro position item found
  rcases changes position item found with ⟨item', present, differs⟩
  refine ⟨item', present, fun changed => ?_⟩
  rcases differs changed with ⟨same, isNamed⟩
  exact ⟨same, implies _ isNamed⟩

/-- Every place has the status that it had, or is invalid. -/
def Batch.OnlyRefuses (batch batch' : Batch) : Prop :=
  ∀ position,
    (batch'.item? position).map Item.status = (batch.item? position).map Item.status ∨
      (batch'.item? position).map Item.status = some .invalid

theorem Batch.mem_invalidHashesAt {batch : Batch} {position : Position}
    {item : Item} (found : batch.item? position = some item)
    (invalid : item.status = .invalid) :
    item.hash ∈ batch.invalidHashesAt position.group := by
  obtain ⟨group, present, inGroup⟩ := Batch.item?_eq_some_iff.1 found
  rw [invalidHashesAt, present]
  exact List.mem_map_of_mem (List.mem_filter.2
    ⟨List.mem_of_getElem? inGroup, decide_eq_true invalid⟩)

/-- A hash that events name for a batch. -/
def Names (events : List BatchUpdated) (address batchId hash : String) : Prop :=
  ∃ event ∈ events, event.address = address ∧ event.batchId = batchId ∧
    hash ∈ event.hashes

theorem Names.mono {events others : List BatchUpdated}
    {address batchId hash : String} (names : Names events address batchId hash)
    (subset : events ⊆ others) : Names others address batchId hash := by
  rcases names with ⟨event, member, named⟩
  exact ⟨event, subset member, named⟩

theorem published_subset {steps more : List Step} (subset : steps ⊆ more) :
    published steps ⊆ published more := by
  intro event member
  rcases List.mem_filterMap.1 member with ⟨step, isStep, publishes⟩
  exact List.mem_filterMap.2 ⟨step, subset isStep, publishes⟩

namespace Surroundings

variable {surroundings : Surroundings} {lifetimes : Lifetimes}
  {steps : List Step} {address batchId : String}

/-! ## Sending -/

theorem Performs.sendItems_changed {route : Route} {position : Position}
    {items items' : List Item}
    (performs : surroundings.Performs (sendItems lifetimes route position items)
      steps items') {place : Nat} {item : Item}
    (found : items[place]? = some item) :
    ∃ item', items'[place]? = some item' ∧ (item'.status ≠ item.status →
      item'.hash = item.hash ∧ item'.status = .invalid) := by
  induction items generalizing position steps items' place with
  | nil => cases found
  | cons head tail induction =>
      rcases performs.sendItems_cons with
        ⟨earlier, hash, later, rest, others, answer, sends, -, rfl⟩ |
        ⟨earlier, error, -, -, rfl⟩
      · cases place with
        | zero =>
            cases found
            exact ⟨_, rfl, fun changed => absurd (Item.status_adopt _ _) changed⟩
        | succ place => exact induction sends found
      · cases place with
        | zero =>
            cases found
            exact ⟨_, rfl, fun _ => ⟨Item.hash_refuse _ _, Item.status_refuse _ _⟩⟩
        | succ place => exact ⟨item, found, absurd rfl⟩

theorem Performs.startGroup_changes {batch batch' : Batch} {index : Nat}
    (performs : surroundings.Performs (BatchRelay.startGroup lifetimes batch index)
      steps batch') :
    batch.ChangesOnly (· ∈ batch'.invalidHashesAt index) batch' := by
  rcases performs.startGroup with ⟨-, -, rfl⟩ |
    ⟨owner, group, world, rest, items, isSender, present, sends, -, rfl⟩
  · exact .refl _ _
  · intro position item found
    by_cases same : position.group = index
    · subst same
      obtain ⟨other, isGroup, inGroup⟩ := Batch.item?_eq_some_iff.1 found
      rw [present] at isGroup
      cases isGroup
      obtain ⟨item', isItem, changed⟩ := sends.sendItems_changed inGroup
      have becomes := Batch.item?_modifyGroup_self (fun _ => ⟨items⟩) present
        position.item
      rw [isItem] at becomes
      refine ⟨item', becomes, fun differs => ?_⟩
      obtain ⟨sameHash, refused⟩ := changed differs
      exact ⟨sameHash, sameHash ▸ Batch.mem_invalidHashesAt becomes refused⟩
    · exact ⟨item, (Batch.item?_modifyGroup_of_ne _ same).trans found, absurd rfl⟩

theorem Performs.startNext_changes {batch batch' : Batch} {next : Nat}
    (performs : surroundings.Performs
      (BatchRelay.startNext lifetimes address batchId batch next) steps batch') :
    batch.ChangesOnly (Names (published steps) address batchId) batch' := by
  rcases performs.startNext with ⟨front, started, starts,
    ⟨taken, rfl, rfl⟩ | ⟨-, ⟨world, rfl⟩, rfl⟩⟩
  · apply starts.startGroup_changes.mono
    intro hash invalid
    rw [taken] at invalid
    cases invalid
  · have changes := starts.startGroup_changes.mono fun hash invalid =>
      (⟨⟨address, batchId, started.invalidHashesAt next⟩,
        by simp [published, Step.published?], rfl, rfl, invalid⟩ :
        Names (published (front ++ [⟨world, .publish
          ⟨address, batchId, started.invalidHashesAt next⟩⟩])) address batchId hash)
    exact changes

theorem Performs.follow_changes {batch batch' : Batch} {index : Nat}
    {outcome : ItemStatus}
    (performs : surroundings.Performs
      (BatchRelay.follow lifetimes address batchId batch index outcome) steps
      batch') :
    batch.ChangesOnly (Names (published steps) address batchId) batch' := by
  rcases performs.follow with ⟨status, -, rfl⟩ | performs
  · exact fun position item found => ⟨item, found, absurd rfl⟩
  · exact performs.startNext_changes

theorem Performs.sendItems_refuses {route : Route} {position : Position}
    {items items' : List Item}
    (performs : surroundings.Performs (sendItems lifetimes route position items)
      steps items') (place : Nat) :
    (items'[place]?).map Item.status = (items[place]?).map Item.status ∨
      (items'[place]?).map Item.status = some .invalid := by
  cases found : items[place]? with
  | none =>
      have length : items'.length = items.length := by
        simpa using congrArg List.length performs.sendItems_payloads
      rw [List.getElem?_eq_none_iff, ← length] at found
      exact .inl (by rw [List.getElem?_eq_none found])
  | some item =>
      obtain ⟨item', found', changed⟩ := performs.sendItems_changed found
      rw [found', Option.map_some, Option.map_some]
      by_cases same : item'.status = item.status
      · exact .inl (congrArg some same)
      · exact .inr (congrArg some (changed same).2)

theorem Performs.startGroup_refuses {batch batch' : Batch} {index : Nat}
    (performs : surroundings.Performs (BatchRelay.startGroup lifetimes batch index)
      steps batch') :
    batch.OnlyRefuses batch' := by
  rcases performs.startGroup with ⟨-, -, rfl⟩ |
    ⟨owner, group, world, rest, items, isSender, present, sends, -, rfl⟩
  · exact fun _ => .inl rfl
  · rintro ⟨other, place⟩
    by_cases same : other = index
    · subst same
      have before : batch.item? ⟨other, place⟩ = group.items[place]? := by
        simp [Batch.item?, present]
      rw [Batch.item?_modifyGroup_self _ present, before]
      exact sends.sendItems_refuses place
    · exact .inl (by rw [Batch.item?_modifyGroup_of_ne _ same])

theorem Performs.follow_refuses {batch batch' : Batch} {index : Nat}
    {outcome : ItemStatus}
    (performs : surroundings.Performs
      (BatchRelay.follow lifetimes address batchId batch index outcome) steps
      batch') :
    batch.OnlyRefuses batch' := by
  rcases performs.follow with ⟨status, -, rfl⟩ | performs
  · exact fun _ => .inl rfl
  · rcases performs.startNext with ⟨front, started, starts,
      ⟨-, -, rfl⟩ | ⟨-, -, rfl⟩⟩
    · exact starts.startGroup_refuses
    · exact starts.startGroup_refuses

/-! ## Reconciling -/

variable {batch batch' : Batch} {trial : Trial} {step : Step} {id : String}

theorem Performs.outcome_item {position : Position} {item : Item}
    {outcome : ItemStatus} (found : batch.item? position = some item)
    (performs : surroundings.Performs (BatchRelay.follow lifetimes address batchId
      (batch.setItemStatus position outcome) position.group outcome) steps batch') :
    batch'.item? position = some { item with status := outcome } := by
  have sameGroup := performs.follow_group (Nat.ne_of_lt (Nat.lt_succ_self _))
  rw [Batch.item?, sameGroup]
  change (batch.setItemStatus position outcome).item? position = _
  rw [Batch.item?_setItemStatus_self, found]
  rfl

/-- What becomes of a batch when an item takes an outcome. -/
theorem Performs.outcome_changes {position : Position} {item : Item}
    {outcome : ItemStatus} (found : batch.item? position = some item)
    (performs : surroundings.Performs (BatchRelay.follow lifetimes address batchId
      (batch.setItemStatus position outcome) position.group outcome) steps batch') :
    batch.ChangesOnly (fun hash => hash = item.hash ∨
      Names (published steps) address batchId hash) batch' := by
  intro other original present
  by_cases same : other = position
  · subst same
    rw [found] at present
    cases present
    exact ⟨{ item with status := outcome }, performs.outcome_item found,
      fun _ => ⟨rfl, .inl rfl⟩⟩
  · rw [← Batch.item?_setItemStatus_of_ne outcome same] at present
    obtain ⟨item', becomes, changed⟩ := performs.follow_changes other original present
    refine ⟨item', becomes, fun differs => ?_⟩
    obtain ⟨sameHash, named⟩ := changed differs
    exact ⟨sameHash, .inr named⟩

/-- A trial that has read a batch, and stores by one of its steps what has become
of it. -/
structure Rewrites (surroundings : Surroundings) (lifetimes : Lifetimes)
    (trial : Trial) (read : World) (step : Step) (batch batch' : Batch) :
    Prop where
  steps : ∃ front back, trial.steps =
      .readRecord read trial.route.address trial.route.batchId ::
        (front ++ step :: back) ∧
    ∀ other ∈ front, ∀ address id,
      other.request.touched? ≠ some (Records.key address id)
  found : surroundings.stored? read trial.route.address trial.route.batchId =
    some batch
  stores : step = .writeRecord lifetimes step.world trial.route.address batch'
  id : batch'.id = batch.id
  result : trial.result = .ok (.applied batch'.status)
  changes : batch.ChangesOnly (fun hash => hash = trial.hash ∨
    Names (published trial.steps) trial.route.address trial.route.batchId hash)
    batch'

/-- Only what becomes of a batch is written under a record key, and nothing is deleted
there. -/
theorem Handles.writes {hash : String} {outcome : ItemStatus}
    {result : Except BatchError Reconciled}
    (handles : surroundings.Handles lifetimes hash batchId address outcome steps
      result)
    {other : String} (member : step ∈ steps)
    (touched : step.request.touched? = some (Records.key other id)) :
    ∃ read later batch batch' position item middle,
      surroundings.stored? read address batchId = some batch ∧
      batch.locate hash = some position ∧
      batch.item? position = some item ∧ item.status.isTerminal = false ∧
      surroundings.Performs (BatchRelay.follow lifetimes address batchId
        (batch.setItemStatus position outcome) position.group outcome) middle
        batch' ∧
      step = .writeRecord lifetimes later address batch' ∧
      steps = .readRecord read address batchId :: (middle ++ [step]) ∧
      (surroundings.fault later.moment
          (.write (Records.key address batch'.id)) = none →
        result = .ok (.applied batch'.status)) := by
  have onlyLast {batch batch' : Batch} {read later : World} {middle : List Step}
      (sending : surroundings.OnlySends lifetimes batch middle batch')
      (inSteps : step ∈ .readRecord read address batchId ::
        (middle ++ [.writeRecord lifetimes later address batch'])) :
      step = .writeRecord lifetimes later address batch' := by
    simp only [List.mem_cons, List.mem_append, List.not_mem_nil, or_false]
      at inSteps
    rcases inSteps with rfl | inMiddle | isLast
    · cases touched
    · obtain ⟨group, sends⟩ := sending.sends step inMiddle
      exact absurd touched (sends.untouched _ _)
    · exact isLast
  cases handles with
  | unread | missing | stray | settled =>
      cases List.mem_singleton.1 member
      cases touched
  | stored got located found waits follows _ =>
      have isLast := onlyLast follows.follow_onlySends member
      exact ⟨_, _, _, _, _, _, _, (get_eq_some_iff.1 got).2, located, found, waits,
        follows, isLast, by rw [isLast], fun _ => rfl⟩
  | unstored got located found waits follows fails =>
      have isLast := onlyLast follows.follow_onlySends member
      exact ⟨_, _, _, _, _, _, _, (get_eq_some_iff.1 got).2, located, found, waits,
        follows, isLast, by rw [isLast], fun works => by rw [fails] at works; cases works⟩

theorem Attempts.rewrites (attempts : surroundings.Attempts lifetimes trial)
    (member : step ∈ trial.steps) {entry : Entry}
    (absent : (Records.key address id, entry) ∉ step.world.cache.entries)
    (present : (Records.key address id, entry) ∈
      (surroundings.after step).cache.entries) :
    ∃ read batch batch',
      surroundings.Rewrites lifetimes trial read step batch batch' := by
  have written := (mem_after_cases present).resolve_left absent
  rcases attempts.performs.reconcile with ⟨handling, removed, steps, handles⟩
  have inSteps := member
  rw [steps] at inSteps
  rcases List.mem_append.1 inSteps with inHandling | atEnd
  · have touched := Request.touched?_of_written? written
    rcases handles.writes inHandling touched with ⟨read, later, batch, batch',
      position, _, middle, found, located, -, -, follows, rfl, rfl, ends⟩
    have sending := follows.follow_onlySends
    have works : surroundings.fault later.moment
        (.write (Records.key trial.route.address batch'.id)) = none := by
      cases fault : surroundings.fault later.moment
        (.write (Records.key trial.route.address batch'.id)) with
      | none => rfl
      | some error =>
          rw [Step.writeRecord, cache_after_failed_write fault] at present
          exact absurd present absent
    refine ⟨read, batch, batch', ⟨middle, [.removeRoute removed trial.hash], ?_, ?_⟩,
      found, rfl, sending.id, ends works, ?_⟩
    · simp [steps]
    · intro other inMiddle
      obtain ⟨group, sends⟩ := sending.sends other inMiddle
      exact sends.untouched
    · obtain ⟨item, isItem, hashed⟩ := Batch.item?_of_locate located
      apply (follows.outcome_changes isItem).mono
      rintro hash (rfl | named)
      · exact .inl hashed
      · refine .inr (named.mono (published_subset ?_))
        simp [steps]
  · cases List.mem_singleton.1 atEnd
    cases written

end Surroundings

end BatchRelay
