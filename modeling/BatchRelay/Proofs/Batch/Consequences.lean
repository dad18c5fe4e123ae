import BatchRelay.Proofs.Batch.Positions

/-!
# What an outcome does to a batch

An outcome goes to the first item with its hash.  What follows from it for the batch
is a matter of the batch with that item marked: whether the next group is opened, and
which status the batch has then.
-/

namespace BatchRelay

namespace Batch

variable {batch : Batch} {position other : Position} {item earlier : Item}
  {hash : String} {start before place : Nat} {groups : List Group} {group : Group}

/-! ## The first item with a hash -/

/-- Whether a place holds the first item with a hash, in the order of the groups and
in the order of the items of a group. -/
structure HoldsFirst (batch : Batch) (hash : String) (position : Position)
    (item : Item) : Prop where
  found : batch.item? position = some item
  same : item.hash = hash
  first : ∀ other later, batch.item? other = some later → later.hash = hash →
    position.group < other.group ∨
      position.group = other.group ∧ position.item ≤ other.item

theorem locateFrom_eq_none_iff :
    locateFrom hash start groups = none ↔
      ∀ group ∈ groups, ∀ item ∈ group.items, item.hash ≠ hash := by
  induction groups generalizing start with
  | nil => simp [locateFrom]
  | cons group groups induction =>
      rw [List.forall_mem_cons, ← induction, locateFrom]
      split
      case h_1 place found =>
        obtain ⟨inside, holds, -⟩ := List.findIdx?_eq_some_iff_getElem.1 found
        simp only [reduceCtorEq, false_iff, not_and]
        intro absent
        exact absurd (by simpa using holds) (absent _ (List.getElem_mem inside))
      case h_2 absent =>
        have others := List.findIdx?_eq_none_iff.1 absent
        simp only [decide_eq_false_iff_not] at others
        exact (and_iff_right others).symm

theorem locate_eq_none_iff :
    batch.locate hash = none ↔
      ∀ position item, batch.item? position = some item → item.hash ≠ hash := by
  rw [locate, locateFrom_eq_none_iff]
  constructor
  · intro absent position item found
    obtain ⟨group, present, member⟩ := item?_eq_some_iff.1 found
    exact absent group (List.mem_of_getElem? present) item (List.mem_of_getElem? member)
  · intro absent group present item member
    obtain ⟨index, isGroup⟩ := List.getElem?_of_mem present
    obtain ⟨place, isItem⟩ := List.getElem?_of_mem member
    exact absent ⟨index, place⟩ item (item?_eq_some_iff.2 ⟨group, isGroup, isItem⟩)

/-- No item with the hash comes before the place where it is located. -/
theorem locateFrom_le (located : locateFrom hash start groups = some position)
    (present : groups[before]? = some group)
    (member : group.items[place]? = some item) (same : item.hash = hash) :
    position.group < start + before ∨
      position.group = start + before ∧ position.item ≤ place := by
  induction groups generalizing start before with
  | nil => cases located
  | cons head tail induction =>
      simp only [locateFrom] at located
      split at located
      case h_1 index found =>
        cases located
        cases before with
        | zero =>
            cases present
            obtain ⟨_, -, smaller⟩ := List.findIdx?_eq_some_iff_getElem.1 found
            obtain ⟨inside, isItem⟩ := List.getElem?_eq_some_iff.1 member
            refine .inr ⟨rfl, Nat.le_of_not_lt fun less => ?_⟩
            exact smaller place less (by simp [isItem, same])
        | succ before => exact .inl (by simp)
      case h_2 absent =>
        cases before with
        | zero =>
            cases present
            have isNone := List.findIdx?_eq_none_iff.1 absent item
              (List.mem_of_getElem? member)
            simp [same] at isNone
        | succ before =>
            have order := induction located present
            omega

theorem HoldsFirst.unique (first : batch.HoldsFirst hash position item)
    (again : batch.HoldsFirst hash other earlier) : position = other := by
  have order := first.first other earlier again.found again.same
  have converse := again.first position item first.found first.same
  cases position
  cases other
  simp only [Position.mk.injEq] at order converse ⊢
  omega

theorem holdsFirst_of_locate (located : batch.locate hash = some position)
    (found : batch.item? position = some item) :
    batch.HoldsFirst hash position item := by
  obtain ⟨_, again, isHash⟩ := item?_of_locate located
  cases found.symm.trans again
  refine ⟨found, isHash, ?_⟩
  intro other later present same
  obtain ⟨group, isGroup, isItem⟩ := item?_eq_some_iff.1 present
  have order := locateFrom_le located isGroup isItem same
  omega

/-- A hash is located where its first item is. -/
theorem HoldsFirst.located (first : batch.HoldsFirst hash position item) :
    batch.locate hash = some position := by
  cases located : batch.locate hash with
  | none => exact absurd first.same (locate_eq_none_iff.1 located _ _ first.found)
  | some place =>
      obtain ⟨item, found, -⟩ := item?_of_locate located
      have isFirst := holdsFirst_of_locate located found
      exact congrArg some (isFirst.unique first)

/-- Where a hash is located depends on no group after it. -/
theorem locate_of_hashes {changed : Batch} (located : batch.locate hash = some position)
    (same : ∀ other, other.group ≤ position.group →
      (changed.item? other).map Item.hash = (batch.item? other).map Item.hash) :
    changed.locate hash = some position := by
  obtain ⟨item, found, -⟩ := item?_of_locate located
  have first := holdsFirst_of_locate located found
  have here := same position (Nat.le_refl _)
  rw [found] at here
  obtain ⟨again, present, isSame⟩ := Option.map_eq_some_iff.1 here
  refine HoldsFirst.located ⟨present, isSame.trans first.same, ?_⟩
  intro other later isLater isHash
  by_cases before : other.group ≤ position.group
  · have there := same other before
    rw [isLater] at there
    obtain ⟨original, isOriginal, sameHash⟩ := Option.map_eq_some_iff.1 there.symm
    exact first.first other original isOriginal (sameHash.trans isHash)
  · exact .inl (Nat.lt_of_not_le before)

/-- What is located in the first group depends on that group only. -/
theorem locate_of_firstGroup {changed : Batch} {place : Nat}
    (same : changed.groups[0]? = batch.groups[0]?)
    (located : batch.locate hash = some ⟨0, place⟩) :
    changed.locate hash = some ⟨0, place⟩ := by
  apply locate_of_hashes located
  rintro ⟨group, other⟩ early
  obtain rfl : group = 0 := Nat.le_zero.1 early
  rw [item?_of_firstGroup same]

/-! ## What follows for the batch -/

/-- Whether an outcome opens the next group of a batch in which it has just marked an
item. -/
def opens (batch : Batch) (group : Nat) (outcome : ItemStatus) : Bool :=
  batch.status = .pending && outcome = .success && batch.groupSuccessful group &&
    group + 1 ≠ batch.groups.length

/-- The status of a batch after an outcome has marked an item of a group, when these
hashes of the next group are refused. -/
def statusAfter (batch : Batch) (group : Nat) (outcome : ItemStatus)
    (refused : List String) : BatchStatus :=
  match batch.status, outcome with
  | .pending, .invalid => .invalid
  | .pending, .dropped => .dropped
  | .pending, .success =>
      if batch.groupSuccessful group = false then .pending
      else if group + 1 = batch.groups.length then .success
      else if refused = [] then .pending
      else .invalid
  | status, _ => status

section Consequences

variable {index : Nat} {outcome : ItemStatus} {refused : List String}

theorem opens_iff :
    batch.opens index outcome = true ↔
      batch.status = .pending ∧ outcome = .success ∧
        batch.groupSuccessful index = true ∧ index + 1 ≠ batch.groups.length := by
  simp [opens, and_assoc]

theorem statusAfter_of_opens (opens : batch.opens index outcome = true) :
    batch.statusAfter index outcome refused =
      if refused = [] then .pending else .invalid := by
  obtain ⟨waits, isSuccess, complete, notLast⟩ := opens_iff.1 opens
  simp [statusAfter, waits, isSuccess, complete, notLast]

/-- A batch that has its status keeps it. -/
theorem statusAfter_of_settled (settled : batch.status ≠ .pending) :
    batch.statusAfter index outcome refused = batch.status := by
  unfold statusAfter
  split
  · contradiction
  · contradiction
  · contradiction
  · rfl

theorem modifyGroup_self : (batch.modifyGroup index fun group => group) = batch := by
  have same (groups : List Group) : groups.modify index (fun group => group) = groups :=
    List.modify_id index groups
  rw [modifyGroup, same]

end Consequences

end Batch

end BatchRelay
