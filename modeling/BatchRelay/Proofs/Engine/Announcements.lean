import BatchRelay.Engine.Pass

/-!
# The announcements of a pass

The events are kept in the order of their batches, so an event that is added
meets the one about its batch before it would be put in.  Every batch with a
change is announced once, with all hashes that have changed in their order.
-/

namespace BatchRelay

namespace BatchUpdated

variable {left right third event : BatchUpdated} {address batchId : String}

theorem comesBefore_iff :
    left.comesBefore right = true ↔ left.address < right.address ∨
      left.address = right.address ∧ left.batchId < right.batchId := by
  simp [comesBefore]

theorem sameBatch_iff :
    left.sameBatch right = true ↔
      left.address = right.address ∧ left.batchId = right.batchId := by
  simp [sameBatch]

theorem comesBefore_trans (first : left.comesBefore right = true)
    (second : right.comesBefore third = true) : left.comesBefore third = true := by
  rw [comesBefore_iff] at first second ⊢
  rcases first with first | ⟨same, first⟩ <;>
    rcases second with second | ⟨again, second⟩
  · exact .inl (String.lt_trans first second)
  · exact .inl (again ▸ first)
  · exact .inl (same ▸ second)
  · exact .inr ⟨same.trans again, String.lt_trans first second⟩

theorem not_sameBatch_of_comesBefore (before : left.comesBefore right = true) :
    left.sameBatch right = false := by
  rw [← Bool.not_eq_true, sameBatch_iff]
  rintro ⟨sameAddress, sameId⟩
  rw [comesBefore_iff, sameAddress, sameId] at before
  rcases before with before | ⟨-, before⟩
  · exact String.lt_irrefl _ before
  · exact String.lt_irrefl _ before

theorem comesBefore_of_not (others : left.sameBatch right = false)
    (not_before : left.comesBefore right = false) :
    right.comesBefore left = true := by
  rw [← Bool.not_eq_true, comesBefore_iff, not_or, not_and] at not_before
  rw [← Bool.not_eq_true, sameBatch_iff, not_and] at others
  rw [comesBefore_iff]
  by_cases sameAddress : left.address = right.address
  · refine .inr ⟨sameAddress.symm, Decidable.not_not.1 fun not_after => ?_⟩
    exact others sameAddress (String.le_antisymm (String.not_lt.1 not_after)
      (String.not_lt.1 (not_before.2 sameAddress)))
  · refine .inl (Decidable.not_not.1 fun not_after => ?_)
    exact sameAddress (String.le_antisymm (String.not_lt.1 not_after)
      (String.not_lt.1 not_before.1))

/-- Whether an event is about a batch. -/
def isAbout (address batchId : String) (event : BatchUpdated) : Bool :=
  event.address = address && event.batchId = batchId

theorem isAbout_iff : event.isAbout address batchId = true ↔
    event.address = address ∧ event.batchId = batchId := by
  simp [isAbout]

@[simp] theorem isAbout_self (event : BatchUpdated) :
    event.isAbout event.address event.batchId = true := by
  simp [isAbout]

theorem isAbout_congr (same : left.sameBatch right = true) :
    left.isAbout address batchId = right.isAbout address batchId := by
  obtain ⟨sameAddress, sameId⟩ := sameBatch_iff.1 same
  rw [isAbout, isAbout, sameAddress, sameId]

theorem sameBatch_of_isAbout (isLeft : left.isAbout address batchId = true)
    (isRight : right.isAbout address batchId = true) :
    left.sameBatch right = true := by
  rw [isAbout_iff] at isLeft isRight
  exact sameBatch_iff.2
    ⟨isLeft.1.trans isRight.1.symm, isLeft.2.trans isRight.2.symm⟩

end BatchUpdated

/-! ## Events in order -/

/-- Events of which every one comes before those after it. -/
def Ordered (events : List BatchUpdated) : Prop :=
  events.Pairwise fun left right => left.comesBefore right = true

/-- The hashes that events announce for a batch. -/
def hashesOf (events : List BatchUpdated) (address batchId : String) :
    List String :=
  (events.filter (BatchUpdated.isAbout address batchId)).flatMap
    BatchUpdated.hashes

section Adding

variable {event first other : BatchUpdated} {events : List BatchUpdated}
  {address batchId : String}

/-- What comes before all events still does when an event is added. -/
theorem comesBefore_addEvent (before : other.comesBefore event = true)
    (beforeAll : ∀ member ∈ events, other.comesBefore member = true) :
    ∀ member ∈ addEvent event events, other.comesBefore member = true := by
  induction events with
  | nil => exact List.forall_mem_singleton.2 before
  | cons head tail induction =>
      obtain ⟨beforeHead, beforeTail⟩ := List.forall_mem_cons.1 beforeAll
      unfold addEvent
      split
      case isTrue => exact List.forall_mem_cons.2 ⟨beforeHead, beforeTail⟩
      case isFalse =>
        split
        case isTrue =>
          exact List.forall_mem_cons.2 ⟨before, beforeAll⟩
        case isFalse =>
          exact List.forall_mem_cons.2 ⟨beforeHead, induction beforeTail⟩

theorem Ordered.addEvent (ordered : Ordered events) :
    Ordered (addEvent event events) := by
  induction events with
  | nil => exact List.pairwise_singleton _ _
  | cons head tail induction =>
      obtain ⟨beforeTail, orderedTail⟩ := List.pairwise_cons.1 ordered
      unfold BatchRelay.addEvent
      split
      case isTrue => exact List.pairwise_cons.2 ⟨beforeTail, orderedTail⟩
      case isFalse others =>
        split
        case isTrue before =>
          refine List.pairwise_cons.2 ⟨?_, ordered⟩
          exact List.forall_mem_cons.2 ⟨before, fun member inTail =>
            BatchUpdated.comesBefore_trans before (beforeTail member inTail)⟩
        case isFalse not_before =>
          refine List.pairwise_cons.2 ⟨?_, induction orderedTail⟩
          apply comesBefore_addEvent _ beforeTail
          exact BatchUpdated.comesBefore_of_not (Bool.eq_false_iff.2 others)
            (Bool.eq_false_iff.2 not_before)

theorem hashesOf_cons : hashesOf (first :: events) address batchId =
    (if first.isAbout address batchId then first.hashes else []) ++
      hashesOf events address batchId := by
  cases isAbout : first.isAbout address batchId <;> simp [hashesOf, isAbout]

theorem Ordered.hashesOf_tail (ordered : Ordered (first :: events))
    (isAbout : first.isAbout address batchId = true) :
    hashesOf events address batchId = [] := by
  have others : events.filter (BatchUpdated.isAbout address batchId) = [] := by
    rw [List.filter_eq_nil_iff]
    intro member inTail again
    have differs := BatchUpdated.not_sameBatch_of_comesBefore
      (List.rel_of_pairwise_cons ordered inTail)
    rw [BatchUpdated.sameBatch_of_isAbout isAbout again] at differs
    cases differs
  rw [hashesOf, others]
  rfl

theorem Ordered.hashesOf_addEvent (ordered : Ordered events) :
    hashesOf (BatchRelay.addEvent event events) address batchId =
      hashesOf events address batchId ++
        if event.isAbout address batchId then event.hashes else [] := by
  induction events with
  | nil =>
      rw [BatchRelay.addEvent, hashesOf_cons]
      exact List.append_nil _
  | cons head tail induction =>
      unfold BatchRelay.addEvent
      split
      case isTrue same =>
        rw [hashesOf_cons, hashesOf_cons, BatchUpdated.isAbout_congr same]
        cases isAbout : head.isAbout address batchId with
        | true =>
            have merged : BatchUpdated.isAbout address batchId
                { head with hashes := head.hashes ++ event.hashes } = true :=
              isAbout
            simp [merged, ordered.hashesOf_tail isAbout]
        | false =>
            have merged : BatchUpdated.isAbout address batchId
                { head with hashes := head.hashes ++ event.hashes } = false :=
              isAbout
            simp [merged]
      case isFalse =>
        split
        case isTrue before =>
          rw [hashesOf_cons]
          cases isAbout : event.isAbout address batchId with
          | false => simp
          | true =>
              have added : Ordered (event :: head :: tail) := by
                refine List.pairwise_cons.2 ⟨?_, ordered⟩
                exact List.forall_mem_cons.2 ⟨before, fun member inTail =>
                  BatchUpdated.comesBefore_trans before
                    (List.rel_of_pairwise_cons ordered inTail)⟩
              simp [added.hashesOf_tail isAbout]
        case isFalse =>
          rw [hashesOf_cons, hashesOf_cons,
            induction (List.pairwise_cons.1 ordered).2, List.append_assoc]

theorem ne_nil_of_mem_addEvent (given : event.hashes ≠ [])
    (all : ∀ member ∈ events, member.hashes ≠ []) :
    ∀ member ∈ addEvent event events, member.hashes ≠ [] := by
  induction events with
  | nil => exact List.forall_mem_singleton.2 given
  | cons head tail induction =>
      obtain ⟨givenHead, givenTail⟩ := List.forall_mem_cons.1 all
      unfold addEvent
      split
      case isTrue =>
        exact List.forall_mem_cons.2
          ⟨List.append_ne_nil_of_left_ne_nil givenHead _, givenTail⟩
      case isFalse =>
        split
        case isTrue => exact List.forall_mem_cons.2 ⟨given, all⟩
        case isFalse =>
          exact List.forall_mem_cons.2 ⟨givenHead, induction givenTail⟩

/-- Among events in order the one about a batch has all of its hashes. -/
theorem Ordered.hashesOf_of_mem (ordered : Ordered events)
    (member : event ∈ events) :
    hashesOf events event.address event.batchId = event.hashes := by
  induction events with
  | nil => cases member
  | cons head tail induction =>
      rw [hashesOf_cons]
      rcases List.mem_cons.1 member with rfl | inTail
      · simp [ordered.hashesOf_tail]
      · rw [induction (List.pairwise_cons.1 ordered).2 inTail]
        have differs := BatchUpdated.not_sameBatch_of_comesBefore
          (List.rel_of_pairwise_cons ordered inTail)
        cases isAbout : head.isAbout event.address event.batchId with
        | false => simp
        | true =>
            rw [BatchUpdated.sameBatch_of_isAbout isAbout event.isAbout_self]
              at differs
            cases differs

theorem exists_mem_of_hashesOf (some : hashesOf events address batchId ≠ []) :
    ∃ event ∈ events, event.address = address ∧ event.batchId = batchId := by
  obtain ⟨hash, isHash⟩ := List.exists_mem_of_ne_nil _ some
  obtain ⟨event, isMember, -⟩ := List.mem_flatMap.1 isHash
  obtain ⟨member, isAbout⟩ := List.mem_filter.1 isMember
  exact ⟨event, member, BatchUpdated.isAbout_iff.1 isAbout⟩

end Adding

/-! ## What is announced -/

namespace Attempt

/-- The event that announces one attempt. -/
def event (attempt : Attempt) : BatchUpdated :=
  ⟨attempt.route.address, attempt.route.batchId, [attempt.hash]⟩

/-- Whether an attempt has changed an item of a batch. -/
def changes (address batchId : String) (attempt : Attempt) : Bool :=
  attempt.isChange && attempt.route.address = address &&
    attempt.route.batchId = batchId

theorem changes_eq (attempt : Attempt) (address batchId : String) :
    attempt.changes address batchId =
      (attempt.isChange && attempt.event.isAbout address batchId) :=
  Bool.and_assoc _ _ _

end Attempt

/-- The hashes whose items a pass has changed in a batch, in order. -/
def changedHashes (attempts : List Attempt) (address batchId : String) :
    List String :=
  (attempts.filter (Attempt.changes address batchId)).map Attempt.hash

theorem changedHashes_cons (attempt : Attempt) (attempts : List Attempt)
    (address batchId : String) :
    changedHashes (attempt :: attempts) address batchId =
      (if attempt.changes address batchId then [attempt.hash] else []) ++
        changedHashes attempts address batchId := by
  cases isChange : attempt.changes address batchId <;>
    simp [changedHashes, isChange]

/-- Events that announce what attempts have changed: exactly one for each batch
with a change, with exactly the hashes that have changed in their order. -/
structure Announces (attempts : List Attempt) (events : List BatchUpdated) :
    Prop where
  once : events.Pairwise fun left right =>
    ¬(left.address = right.address ∧ left.batchId = right.batchId)
  mem_iff : ∀ event, event ∈ events ↔
    event.hashes = changedHashes attempts event.address event.batchId ∧
      event.hashes ≠ []

theorem Ordered.announces {attempts : List Attempt} {events : List BatchUpdated}
    (ordered : Ordered events) (given : ∀ event ∈ events, event.hashes ≠ [])
    (all : ∀ address batchId, hashesOf events address batchId =
      changedHashes attempts address batchId) : Announces attempts events where
  once := ordered.imp fun before same => by
    have differs := BatchUpdated.not_sameBatch_of_comesBefore before
    rw [BatchUpdated.sameBatch_iff.2 same] at differs
    cases differs
  mem_iff event := by
    rw [← all]
    constructor
    · intro member
      exact ⟨(ordered.hashesOf_of_mem member).symm, given event member⟩
    · rintro ⟨hashes, some⟩
      rw [hashes] at some
      obtain ⟨other, member, sameAddress, sameId⟩ := exists_mem_of_hashesOf some
      have sameHashes := ordered.hashesOf_of_mem member
      rw [sameAddress, sameId, ← hashes] at sameHashes
      cases event
      cases other
      cases sameAddress
      cases sameId
      cases sameHashes
      exact member

/-- The induction is on the attempts, with the events so far. -/
private theorem announces_foldl {attempts : List Attempt}
    {events : List BatchUpdated} (ordered : Ordered events)
    (given : ∀ event ∈ events, event.hashes ≠ []) :
    let later := (attempts.filter Attempt.isChange).foldl
      (fun events attempt => addEvent attempt.event events) events
    Ordered later ∧ (∀ event ∈ later, event.hashes ≠ []) ∧
      ∀ address batchId, hashesOf later address batchId =
        hashesOf events address batchId ++
          changedHashes attempts address batchId := by
  induction attempts generalizing events with
  | nil => exact ⟨ordered, given, fun _ _ => (List.append_nil _).symm⟩
  | cons attempt attempts induction =>
      simp only [changedHashes_cons, Attempt.changes_eq]
      cases isChange : attempt.isChange with
      | false =>
          rw [List.filter_cons_of_neg (by simp [isChange])]
          exact induction ordered given
      | true =>
          rw [List.filter_cons_of_pos isChange]
          have named : attempt.event.hashes ≠ [] := List.cons_ne_nil _ _
          obtain ⟨orderedLater, givenLater, all⟩ :=
            induction ordered.addEvent (ne_nil_of_mem_addEvent named given)
          refine ⟨orderedLater, givenLater, fun address batchId => ?_⟩
          rw [← List.append_assoc]
          exact (all address batchId).trans
            (congrArg (· ++ _) ordered.hashesOf_addEvent)

/-- A pass announces every batch that it has changed, once and with all hashes in
order. -/
theorem announcements_announces (attempts : List Attempt) :
    Announces attempts (announcements attempts) := by
  obtain ⟨ordered, given, all⟩ :=
    @announces_foldl attempts [] List.Pairwise.nil nofun
  exact ordered.announces given all

end BatchRelay
