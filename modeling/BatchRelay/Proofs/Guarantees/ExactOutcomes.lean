import BatchRelay.Proofs.Engine.Leftovers
import BatchRelay.Proofs.Engine.Openings
import BatchRelay.Proofs.Json.Records

/-!
# The exact effect of an outcome

Where no access to the cache fails, what an outcome leaves behind is known to the last
key, and it is there until it has run out.  An outcome that no item can take removes the
route of its hash and does nothing else.  An outcome that an item takes changes the
record of the batch as well: the item, the status, and the next group if that is opened
now.

The records may be any batches at all.  They may repeat hashes, have groups without
items, or have statuses that no run leads to.
-/

namespace BatchRelay

/-- Whether a batch is another one in which the item at a position has an outcome now.
Its status may differ, and the next group too if that was opened. -/
structure Batch.Differs (before after : Batch) (position : Position)
    (outcome : ItemStatus) (opens : Bool) : Prop where
  id : after.id = before.id
  sourceIp : after.sourceIp = before.sourceIp
  length : after.groups.length = before.groups.length
  taken : after.item? position =
    (before.item? position).map fun item => { item with status := outcome }
  others : ∀ other, other ≠ position →
    (opens = true → other.group ≠ position.group + 1) →
      after.item? other = before.item? other

/-- An outcome for the item at a position of a batch that is stored under an address. -/
structure Delivery where
  address : String
  batch : Batch
  position : Position
  outcome : ItemStatus

namespace Delivery

variable (delivery : Delivery)

/-- The batch in which only the item has changed. -/
def marked : Batch :=
  delivery.batch.setItemStatus delivery.position delivery.outcome

/-- Whether the next group is opened. -/
def opens : Bool :=
  delivery.marked.opens delivery.position.group delivery.outcome

def opening (lifetimes : Lifetimes) : Activity Batch :=
  openNext lifetimes delivery.marked delivery.position.group delivery.outcome

/-- The hashes of the next group that are invalid once it was opened. -/
def refused (opened : Batch) : List String :=
  delivery.marked.refusedNext delivery.position.group delivery.outcome opened

/-- The batch that is stored in the end. -/
def changed (opened : Batch) : Batch :=
  { opened with
    status := delivery.marked.statusAfter delivery.position.group delivery.outcome
      (delivery.refused opened) }

/-- The announcement of what was refused. -/
def announced (opened : Batch) : List BatchUpdated :=
  if delivery.refused opened = [] then []
  else [⟨delivery.address, delivery.batch.id, delivery.refused opened⟩]

theorem differs (surroundings : Surroundings) (lifetimes : Lifetimes) (world : World) :
    delivery.batch.Differs
      (delivery.changed (surroundings.run (delivery.opening lifetimes) world).1)
      delivery.position delivery.outcome delivery.opens := by
  obtain ⟨change, isOpened⟩ :
      ∃ change, (surroundings.run (delivery.opening lifetimes) world).1 =
        delivery.marked.modifyGroup (delivery.position.group + 1) change :=
    surroundings.openNext_frame lifetimes delivery.marked delivery.position.group
      delivery.outcome world
  constructor
  case id | sourceIp =>
    rw [isOpened]
    rfl
  case length =>
    rw [isOpened]
    simp [changed, marked, Batch.setItemStatus]
  case taken =>
    rw [isOpened]
    refine (Batch.item?_modifyGroup_of_ne change ?_).trans
      (Batch.item?_setItemStatus_self _)
    exact Nat.ne_of_lt (Nat.lt_succ_self _)
  case others =>
    intro other isOther elsewhere
    have kept : delivery.marked.item? other = delivery.batch.item? other :=
      Batch.item?_setItemStatus_of_ne _ isOther
    cases opens : delivery.opens with
    | true =>
        rw [isOpened]
        exact (Batch.item?_modifyGroup_of_ne change (elsewhere opens)).trans kept
    | false =>
        have isMarked :
            (surroundings.run (delivery.opening lifetimes) world).1 =
              delivery.marked := by
          have closed : ¬delivery.marked.opens delivery.position.group
              delivery.outcome = true := Bool.eq_false_iff.1 opens
          rw [opening, openNext, if_neg closed]
          rfl
        rw [isMarked]
        exact kept

end Delivery

namespace Surroundings

/-- Whether the route of a hash was removed, and nothing was sent or announced. -/
structure OnlyForgets (hash : String) (world last : World) : Prop where
  cache : last.cache = world.cache.delete (Routes.key hash)
  journal : last.journal = world.journal

/-- What has come of an outcome that an item takes. -/
structure Delivers (surroundings : Surroundings) (lifetimes : Lifetimes)
    (delivery : Delivery) (hash : String) (world last : World) (steps : List Step) :
    Prop where
  stored : ∀ now, surroundings.Timely lifetimes.batch steps now →
    last.cache.get now (Records.key delivery.address delivery.batch.id) =
      some (delivery.changed
        (surroundings.run (delivery.opening lifetimes) world.pass).1).render
  forgotten : ∀ now, last.cache.get now (Routes.key hash) = none
  /-- The network has taken transactions of the next group. -/
  indexed : ∀ other, other ≠ hash →
    surroundings.Takes (surroundings.steps (delivery.opening lifetimes) world.pass)
      other →
    ∃ owner, delivery.batch.address? = some owner ∧
      ∀ now, surroundings.Timely lifetimes.route steps now →
        last.cache.get now (Routes.key other) = some (Route.encode
          ⟨delivery.batch.id, owner, surroundings.now world.pass.moment⟩)
  others : ∀ key, key ≠ Records.key delivery.address delivery.batch.id →
    key ≠ Routes.key hash →
    (∀ other, surroundings.Takes
      (surroundings.steps (delivery.opening lifetimes) world.pass) other →
        key ≠ Routes.key other) →
    surroundings.Unchanged steps world last key
  journal : last.journal =
    (delivery.announced
      (surroundings.run (delivery.opening lifetimes) world.pass).1).map .published ++
      (surroundings.run (delivery.opening lifetimes) world.pass).2.journal

variable {surroundings : Surroundings} {lifetimes : Lifetimes} {world last : World}
  {hash batchId address : String} {outcome : ItemStatus} {batch : Batch}
  {position : Position} {item : Item} {result : Except BatchError Reconciled}

theorem after_readRecord :
    surroundings.after (.readRecord world address batchId) = world.pass := by
  simp only [Step.readRecord, after, answer, access]
  split <;> rfl

/-! ## Outcomes that no item takes -/

theorem run_applyOutcome_missing
    (read : (surroundings.run (Records.get address batchId) world).1 = .ok none) :
    surroundings.run (applyOutcome lifetimes hash batchId address outcome) world =
      (.ok .batchMissing, world.pass) := by
  simp only [applyOutcome, Bind.bind, Pure.pure, run_bind, read, world_get,
    after_readRecord, run]

theorem run_applyOutcome_elsewhere
    (read : (surroundings.run (Records.get address batchId) world).1 =
      .ok (some batch))
    (absent : batch.locate hash = none) :
    surroundings.run (applyOutcome lifetimes hash batchId address outcome) world =
      (.ok .itemMissing, world.pass) := by
  simp only [applyOutcome, Bind.bind, Pure.pure, run_bind, read, world_get,
    after_readRecord, absent, run]

theorem run_applyOutcome_terminal
    (read : (surroundings.run (Records.get address batchId) world).1 =
      .ok (some batch))
    (first : batch.HoldsFirst hash position item)
    (terminal : item.status.isTerminal = true) :
    surroundings.run (applyOutcome lifetimes hash batchId address outcome) world =
      (.ok .unchanged, world.pass) := by
  simp only [applyOutcome, Bind.bind, Pure.pure, run_bind, read, world_get,
    after_readRecord, first.located, first.found, Option.any_some, terminal, if_true,
    run]

theorem reconcile_onlyForgets
    (works : ∀ moment access, surroundings.fault moment access = none)
    (idle : surroundings.run (applyOutcome lifetimes hash batchId address outcome)
      world = (result, world.pass)) :
    (surroundings.run (reconcile lifetimes hash batchId address outcome) world).1 =
        result ∧
      OnlyForgets hash world
        (surroundings.run (reconcile lifetimes hash batchId address outcome)
          world).2 := by
  rw [run_reconcile_eq, idle]
  refine ⟨rfl, ?_, ?_⟩
  · rw [Step.removeRoute, cache_after_delete (works _ _)]
    rfl
  · rw [journal_after]
    rfl

/-! ## Outcomes that an item takes -/

theorem applyOutcome_comesTo {following : List Step} {changed : Batch} {middle : World}
    (works : ∀ moment access, surroundings.fault moment access = none)
    (read : (surroundings.run (Records.get address batchId) world).1 =
      .ok (some batch))
    (first : batch.HoldsFirst hash position item) (waits : item.status = .pending)
    (follows : surroundings.ComesTo (follow lifetimes address batchId
      (batch.setItemStatus position outcome) position.group outcome) world.pass changed
      following middle) :
    surroundings.ComesTo (applyOutcome lifetimes hash batchId address outcome) world
      (.ok (.applied changed.status))
      (.readRecord world address batchId ::
        (following ++ [.writeRecord lifetimes middle address changed]))
      (surroundings.written lifetimes middle address changed) := by
  have put : (surroundings.run (Records.put lifetimes address changed) middle).1 =
      .ok () := put_eq_ok_iff.2 (works _ _)
  constructor
  · simp only [applyOutcome, Bind.bind, Pure.pure, run_bind, read, world_get,
      after_readRecord, first.located, first.found, Option.any_some,
      ItemStatus.isTerminal, waits, ne_eq, not_true_eq_false, decide_false,
      Bool.false_eq_true, if_false, follows.run, put, world_put, run]
    rfl
  · simp only [applyOutcome, Bind.bind, Pure.pure, steps_bind, read, world_get, steps_get,
      after_readRecord, first.located, first.found, Option.any_some,
      ItemStatus.isTerminal, waits, ne_eq, not_true_eq_false, decide_false,
      Bool.false_eq_true, if_false, follows.run, follows.steps, put, steps_put, steps]
    rfl

theorem ComesTo.reconcile {steps : List Step}
    (applies : surroundings.ComesTo
      (applyOutcome lifetimes hash batchId address outcome) world result steps last) :
    surroundings.ComesTo (reconcile lifetimes hash batchId address outcome) world result
      (steps ++ [.removeRoute last hash]) (surroundings.after (.removeRoute last hash)) where
  run := by rw [run_reconcile_eq, applies.run]
  steps := by rw [steps_reconcile, applies.run, applies.steps]

theorem follow_announces (surroundings : Surroundings) (lifetimes : Lifetimes)
    (delivery : Delivery) (world : World) :
    let opened := surroundings.run (delivery.opening lifetimes) world
    ∃ announcing middle,
      surroundings.ComesTo (follow lifetimes delivery.address delivery.batch.id
          delivery.marked delivery.position.group delivery.outcome) world
        (delivery.changed opened.1)
        (surroundings.steps (delivery.opening lifetimes) world ++ announcing) middle ∧
      surroundings.Linked opened.2 announcing middle ∧
      (∀ step ∈ announcing, step.request.touched? = none) ∧
      middle.journal = (delivery.announced opened.1).map .published ++
        opened.2.journal := by
  intro opened
  let announcement : Step :=
    ⟨opened.2, .publish
      ⟨delivery.address, delivery.batch.id, delivery.refused opened.1⟩⟩
  have follows : surroundings.ComesTo _ world _
      (_ ++ if delivery.refused opened.1 = [] then [] else [announcement])
      (if delivery.refused opened.1 = [] then opened.2
        else surroundings.after announcement) :=
    surroundings.follow_comesTo lifetimes delivery.marked delivery.position.group
      delivery.outcome world delivery.address delivery.batch.id
  refine ⟨_, _, follows, ?_⟩
  by_cases allTaken : delivery.refused opened.1 = []
  · rw [if_pos allTaken, if_pos allTaken, Delivery.announced, if_pos allTaken]
    exact ⟨.nil, List.forall_mem_nil _, rfl⟩
  · rw [if_neg allTaken, if_neg allTaken, Delivery.announced, if_neg allTaken]
    exact ⟨.single surroundings announcement, List.forall_mem_singleton.2 rfl,
      journal_after⟩

theorem reconcile_delivers (delivery : Delivery)
    (works : ∀ moment access, surroundings.fault moment access = none)
    (unique : world.cache.entries.Unique)
    (read : (surroundings.run (Records.get delivery.address delivery.batch.id)
      world).1 = .ok (some delivery.batch))
    (first : delivery.batch.HoldsFirst hash delivery.position item)
    (waits : item.status = .pending) :
    let activity := reconcile lifetimes hash delivery.batch.id delivery.address
      delivery.outcome
    (surroundings.run activity world).1 = .ok (.applied (delivery.changed
        (surroundings.run (delivery.opening lifetimes) world.pass).1).status) ∧
      surroundings.Delivers lifetimes delivery hash world
        (surroundings.run activity world).2 (surroundings.steps activity world) := by
  intro activity
  obtain ⟨announcing, middle, follows, announces, aside, journal⟩ :=
    surroundings.follow_announces lifetimes delivery world.pass
  let opened := surroundings.run (delivery.opening lifetimes) world.pass
  let changed := delivery.changed opened.1
  let write : Step := .writeRecord lifetimes middle delivery.address changed
  let remove : Step := .removeRoute (surroundings.after write) hash
  have sameId : changed.id = delivery.batch.id :=
    (delivery.differs surroundings lifetimes world.pass).id
  let sending := surroundings.steps (delivery.opening lifetimes) world.pass
  let rest := announcing ++ [write, remove]
  have comes : surroundings.ComesTo activity world (.ok (.applied changed.status))
      (.readRecord world delivery.address delivery.batch.id :: (sending ++ rest))
      (surroundings.after remove) := by
    have applies := (applyOutcome_comesTo works read first waits follows).reconcile
    simp only [List.append_assoc, List.cons_append, List.nil_append] at applies
    exact applies
  have links := comes.linked
  rw [comes.run, comes.steps]
  have closes : surroundings.Linked opened.2 rest (surroundings.after remove) :=
    announces.append (.cons (.cons .nil))
  have within : sending ⊆
      .readRecord world delivery.address delivery.batch.id :: (sending ++ rest) :=
    List.subset_cons_of_subset _ (List.subset_append_left _ _)
  have after : rest ⊆
      .readRecord world delivery.address delivery.batch.id :: (sending ++ rest) :=
    List.subset_cons_of_subset _ (List.subset_append_right _ _)
  have openedUnique : opened.2.cache.entries.Unique :=
    (surroundings.linked (delivery.opening lifetimes)).unique unique
  have untouched (key : String)
      (notRecord : key ≠ Records.key delivery.address delivery.batch.id)
      (notRoute : key ≠ Routes.key hash) :
      ∀ step ∈ rest, step.request.touched? ≠ some key := by
    intro step member same
    obtain inAnnouncing | rfl | rfl : step ∈ announcing ∨ step = write ∨ step = remove :=
      by simpa [rest] using member
    · rw [aside step inAnnouncing] at same
      cases same
    · exact notRecord (sameId ▸ (Option.some.inj same).symm)
    · exact notRoute (Option.some.inj same).symm
  refine ⟨rfl, ?_⟩
  constructor
  case stored =>
    intro now timely
    rw [← sameId]
    exact get_record_of_written works (announces.unique openedUnique) timely
      fun step member => after (List.mem_append_right _ member)
  case forgotten =>
    intro now
    simp only [remove, Step.removeRoute]
    rw [cache_after_delete (works _ _)]
    exact Cache.get_delete
  case indexed =>
    intro other isOther taken
    obtain ⟨owner, isOwner, leaves⟩ := surroundings.openNext_leaves lifetimes
      delivery.marked delivery.position.group delivery.outcome world.pass works taken
    refine ⟨owner, ?_, ?_⟩
    · rwa [Delivery.marked, address?_setItemStatus] at isOwner
    · intro now timely
      have held := (leaves now (timely.mono within)).mono within
      refine (closes.leaves timely after (untouched _ ?_ ?_) held).get timely
        (closes.unique openedUnique)
      · exact Routes.key_ne_recordKey _ _ _
      · exact fun same => isOther (Routes.key_inj same)
  case others =>
    intro key notRecord notRoute notTaken
    apply links.unchanged unique
    intro step member
    left
    rcases List.mem_cons.1 member with rfl | member
    · exact fun same => by cases same
    · rcases List.mem_append.1 member with inOpening | inRest
      · have only := surroundings.openNext_onlyIndexes lifetimes delivery.marked
          delivery.position.group delivery.outcome world.pass
        exact only.untouched notTaken step inOpening
      · exact untouched key notRecord notRoute step inRest
  case journal =>
    simp only [remove, write, Step.removeRoute, Step.writeRecord, journal_after]
    exact journal

/-- An outcome has exactly the effect it should have on what is stored, whichever batch
is stored.  Without an item that waits for it, it removes the route of its hash. -/
theorem reconcile_exact (surroundings : Surroundings) (lifetimes : Lifetimes)
    (hash batchId address : String) (outcome : ItemStatus) (world : World)
    (works : ∀ moment access, surroundings.fault moment access = none)
    (unique : world.cache.entries.Unique) :
    let activity := reconcile lifetimes hash batchId address outcome
    let reconciled := surroundings.run activity world
    (surroundings.value? world (Records.key address batchId) = none →
      reconciled.1 = .ok .batchMissing ∧ OnlyForgets hash world reconciled.2) ∧
    ∀ batch, surroundings.stored? world address batchId = some batch →
      batch.id = batchId →
      ((∀ position item, batch.item? position = some item → item.hash ≠ hash) →
        reconciled.1 = .ok .itemMissing ∧ OnlyForgets hash world reconciled.2) ∧
      ∀ position item, batch.HoldsFirst hash position item →
        (item.status.isTerminal = true →
          reconciled.1 = .ok .unchanged ∧ OnlyForgets hash world reconciled.2) ∧
        (item.status = .pending →
          let delivery : Delivery := ⟨address, batch, position, outcome⟩
          let changed := delivery.changed
            (surroundings.run (delivery.opening lifetimes) world.pass).1
          reconciled.1 = .ok (.applied changed.status) ∧
            batch.Differs changed position outcome delivery.opens ∧
            surroundings.Delivers lifetimes delivery hash world reconciled.2
              (surroundings.steps activity world)) := by
  intro activity reconciled
  constructor
  · intro absent
    have read := get_eq_none_iff.2 ⟨works _ _, absent⟩
    exact reconcile_onlyForgets works (run_applyOutcome_missing read)
  · intro batch stored isSame
    have read := get_eq_some_iff.2 ⟨works _ _, stored⟩
    subst isSame
    constructor
    · intro elsewhere
      have absent := Batch.locate_eq_none_iff.2 elsewhere
      exact reconcile_onlyForgets works (run_applyOutcome_elsewhere read absent)
    · intro position item first
      constructor
      · intro terminal
        exact reconcile_onlyForgets works
          (run_applyOutcome_terminal read first terminal)
      · intro waits delivery changed
        obtain ⟨result, delivers⟩ :=
          reconcile_delivers delivery works unique read first waits
        exact ⟨result, delivery.differs surroundings lifetimes world.pass, delivers⟩

end Surroundings

namespace Sample

/-- A batch of which the network will not take the second group. -/
def unfunded : Batch :=
  .ofGroups "b" [[first], [refused]]

/-- A world in which nothing but that batch is stored. -/
def unfundedStored : World :=
  .start (.memory ⟨[(Records.key alice "b", ⟨unfunded.render, none⟩)]⟩)

end Sample

theorem Sample.unfunded_reconciled :
    let reconciled := (network third).run
      (reconcile .forever first.hash "b" alice .success) unfundedStored
    reconciled.1 = .ok (.applied .invalid) ∧
      reconciled.2.journal =
        [.published ⟨alice, "b", [refused.hash]⟩,
          .sent ⟨alice, "b", ⟨1, 0⟩⟩ refused.payload (.error noFunds)] ∧
      ∀ now, reconciled.2.cache.get now (Routes.key first.hash) = none := by
  have unique : unfundedStored.cache.entries.Unique :=
    List.pairwise_singleton _ _
  have value : (network third).value? unfundedStored (Records.key alice "b") =
      some unfunded.render :=
    (Surroundings.value?_eq_some_iff unique).2
      ⟨_, List.mem_singleton_self _, rfl, rfl⟩
  have stored : (network third).stored? unfundedStored alice "b" = some unfunded := by
    rw [Surroundings.stored?, value, Option.bind_some, Batch.parse_render]
    rfl
  have isFirst : unfunded.HoldsFirst first.hash ⟨0, 0⟩ (.waiting first) :=
    Batch.holdsFirst_of_locate rfl rfl
  obtain ⟨-, whenStored⟩ := Surroundings.reconcile_exact (network third) .forever
    first.hash "b" alice .success unfundedStored (fun _ _ => rfl) unique
  obtain ⟨-, whenFirst⟩ := whenStored unfunded stored rfl
  obtain ⟨result, -, delivers⟩ := (whenFirst ⟨0, 0⟩ (.waiting first) isFirst).2 rfl
  exact ⟨result.trans rfl, delivers.journal.trans rfl, delivers.forgotten⟩

end BatchRelay
