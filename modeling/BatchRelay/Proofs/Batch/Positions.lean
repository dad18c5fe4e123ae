import BatchRelay.Engine.Reconciliation

/-!
# Places in a batch

Which item stands at a place after a change, where a hash is located, and what
the transactions of a batch alone decide.
-/

namespace BatchRelay

namespace Batch

variable {batch changed : Batch} {position other : Position} {item : Item}
  {hash : String} {index : Nat}

theorem item?_eq_some_iff :
    batch.item? position = some item ↔
      ∃ group, batch.groups[position.group]? = some group ∧
        group.items[position.item]? = some item := by
  simp [item?, Option.bind_eq_some_iff]

theorem group_lt_of_item? (found : batch.item? position = some item) :
    position.group < batch.groups.length := by
  obtain ⟨group, present, -⟩ := item?_eq_some_iff.1 found
  exact (List.getElem?_eq_some_iff.1 present).1

theorem item?_modifyGroup_of_ne (change : Group → Group)
    (isOther : position.group ≠ index) :
    (batch.modifyGroup index change).item? position = batch.item? position := by
  simp [item?, modifyGroup, Ne.symm isOther]

theorem item?_modifyGroup_self {group : Group} (change : Group → Group)
    (present : batch.groups[index]? = some group) (place : Nat) :
    (batch.modifyGroup index change).item? ⟨index, place⟩ =
      (change group).items[place]? := by
  simp [item?, modifyGroup, present]

theorem item?_setItemStatus_self (status : ItemStatus) :
    (batch.setItemStatus position status).item? position =
      (batch.item? position).map fun item => { item with status := status } := by
  obtain ⟨group, place⟩ := position
  simp only [setItemStatus, item?, modifyGroup, Option.bind_eq_bind]
  cases present : batch.groups[group]? <;> simp [present]

theorem item?_setItemStatus_of_ne (status : ItemStatus)
    (isOther : other ≠ position) :
    (batch.setItemStatus position status).item? other = batch.item? other := by
  obtain ⟨group, place⟩ := position
  obtain ⟨otherGroup, otherPlace⟩ := other
  by_cases same : otherGroup = group
  · subst same
    have elsewhere : place ≠ otherPlace := fun equal => isOther (equal ▸ rfl)
    simp only [setItemStatus, item?, modifyGroup, Option.bind_eq_bind]
    cases present : batch.groups[otherGroup]? <;>
      simp [present, elsewhere]
  · exact item?_modifyGroup_of_ne _ same

/-- Only the item at the place itself has changed, and only its status. -/
theorem item?_of_setItemStatus {status : ItemStatus}
    (found : (batch.setItemStatus position status).item? other = some item) :
    ∃ original, batch.item? other = some original ∧
      (other ≠ position ∧ item = original ∨
        other = position ∧ item = { original with status := status }) := by
  by_cases isOther : other = position
  · subst isOther
    rw [item?_setItemStatus_self] at found
    obtain ⟨original, present, rfl⟩ := Option.map_eq_some_iff.1 found
    exact ⟨original, present, .inr ⟨rfl, rfl⟩⟩
  · rw [item?_setItemStatus_of_ne status isOther] at found
    exact ⟨item, found, .inl ⟨isOther, rfl⟩⟩

private theorem map_modify {α β : Type} {read : α → β} {change : α → α}
    (same : ∀ value, read (change value) = read value) (values : List α)
    (place : Nat) : (values.modify place change).map read = values.map read := by
  apply List.ext_getElem?
  intro other
  simp only [List.getElem?_map, List.getElem?_modify]
  by_cases here : place = other
  · subst here
    cases values[place]? <;> simp [same]
  · simp [here]

/-- A change of a status leaves what is read off the items otherwise. -/
theorem map_items_setItemStatus {α : Type} {status : ItemStatus}
    (read : Item → α)
    (same : ∀ item : Item, read { item with status := status } = read item) :
    (batch.setItemStatus position status).groups.map
        (fun group => group.items.map read) =
      batch.groups.map fun group => group.items.map read :=
  map_modify (fun group => map_modify same group.items position.item) _ _

/-! ## Locating hashes -/

theorem locateFrom_eq_some {start : Nat} {groups : List Group}
    (located : locateFrom hash start groups = some position) :
    ∃ before group item, position.group = start + before ∧
      groups[before]? = some group ∧
      group.items[position.item]? = some item ∧ item.hash = hash := by
  induction groups generalizing start with
  | nil => cases located
  | cons group groups induction =>
      simp only [locateFrom] at located
      split at located
      case h_1 place found =>
        cases located
        obtain ⟨inside, holds, -⟩ := List.findIdx?_eq_some_iff_getElem.1 found
        exact ⟨0, group, _, rfl, rfl, List.getElem?_eq_getElem inside,
          by simpa using holds⟩
      case h_2 =>
        obtain ⟨before, found, item, place, present, member, same⟩ :=
          induction located
        exact ⟨before + 1, found, item, by omega, present, member, same⟩

theorem locateFrom_congr {start : Nat} {left right : List Group}
    (same : left.map (fun group => group.items.map Item.hash) =
      right.map fun group => group.items.map Item.hash) :
    locateFrom hash start left = locateFrom hash start right := by
  induction left generalizing right start with
  | nil =>
      obtain rfl : right = [] := List.map_eq_nil_iff.1 same.symm
      rfl
  | cons group groups induction =>
      cases right with
      | nil => cases same
      | cons other others =>
          simp only [List.map_cons, List.cons.injEq] at same
          have here : group.items.findIdx? (fun item => item.hash = hash) =
              other.items.findIdx? fun item => item.hash = hash := by
            have read := congrArg (List.findIdx? fun text => text = hash) same.1
            simpa [List.findIdx?_map, Function.comp_def] using read
          rw [locateFrom, locateFrom, here, induction same.2]

theorem locate_setItemStatus (status : ItemStatus) :
    (batch.setItemStatus position status).locate hash = batch.locate hash :=
  locateFrom_congr (map_items_setItemStatus Item.hash fun _ => rfl)

/-- The place of a hash holds an item with that hash. -/
theorem item?_of_locate (located : batch.locate hash = some position) :
    ∃ item, batch.item? position = some item ∧ item.hash = hash := by
  obtain ⟨before, group, item, place, present, member, same⟩ :=
    locateFrom_eq_some located
  rw [Nat.zero_add] at place
  exact ⟨item, item?_eq_some_iff.2 ⟨group, place ▸ present, member⟩, same⟩

theorem locateFrom_isFirst {start before : Nat} {groups : List Group}
    {group : Group} (present : groups[before]? = some group)
    (member : item ∈ group.items) :
    ∃ position, locateFrom item.hash start groups = some position ∧
      position.group ≤ start + before := by
  induction groups generalizing start before with
  | nil => simp at present
  | cons head tail induction =>
      simp only [locateFrom]
      split
      case h_1 place found => exact ⟨_, rfl, Nat.le_add_right _ _⟩
      case h_2 absent =>
        cases before with
        | zero =>
            cases present
            have isNone := List.findIdx?_eq_none_iff.1 absent item member
            simp at isNone
        | succ before =>
            obtain ⟨position, located, early⟩ :=
              @induction (start + 1) before present
            exact ⟨position, located, by omega⟩

/-- A hash is located no later than any item that has it. -/
theorem locate_isFirst (found : batch.item? position = some item) :
    ∃ first, batch.locate item.hash = some first ∧
      first.group ≤ position.group := by
  obtain ⟨group, present, member⟩ := item?_eq_some_iff.1 found
  obtain ⟨first, located, early⟩ : ∃ first,
      locateFrom item.hash 0 batch.groups = some first ∧
        first.group ≤ 0 + position.group :=
    locateFrom_isFirst present (List.mem_of_getElem? member)
  exact ⟨first, located, by omega⟩

theorem locate_group_le (located : batch.locate item.hash = some position)
    (found : batch.item? other = some item) : position.group ≤ other.group := by
  obtain ⟨first, again, early⟩ := locate_isFirst found
  rw [located] at again
  cases again
  exact early

theorem item?_of_firstGroup {place : Nat}
    (same : changed.groups[0]? = batch.groups[0]?) :
    changed.item? ⟨0, place⟩ = batch.item? ⟨0, place⟩ := by
  simp [item?, same]

/-! ## Groups that have succeeded -/

theorem groupSuccessful_iff :
    batch.groupSuccessful index = true ↔
      index < batch.groups.length ∧
        ∀ place item, batch.item? ⟨index, place⟩ = some item →
          item.status = .success := by
  cases present : batch.groups[index]? with
  | none =>
      have outside := List.getElem?_eq_none_iff.1 present
      simp [groupSuccessful, Nat.not_lt.2 outside]
  | some group =>
      have inside := (List.getElem?_eq_some_iff.1 present).1
      have items (place : Nat) : batch.item? ⟨index, place⟩ = group.items[place]? := by
        simp [item?, present]
      simp only [groupSuccessful, present, Option.map_some, Option.getD_some,
        Group.isSuccessful, List.all_eq_true, decide_eq_true_eq, inside, items,
        true_and]
      constructor
      · exact fun all place item found => all item (List.mem_of_getElem? found)
      · intro all item member
        obtain ⟨place, found⟩ := List.getElem?_of_mem member
        exact all place item found

/-- What has become of the items of a batch by groups. -/
def statuses (batch : Batch) : List (List ItemStatus) :=
  batch.groups.map fun group => group.items.map Item.status

/-- Whether a group has succeeded is a matter of its statuses alone. -/
theorem groupSuccessful_eq :
    batch.groupSuccessful index = ((batch.statuses[index]?).map fun statuses =>
      statuses.all fun status => status = .success).getD false := by
  cases present : batch.groups[index]? <;>
    simp [groupSuccessful, statuses, present, Group.isSuccessful,
      Function.comp_def]

theorem groupSuccessful_congr (same : batch.statuses = changed.statuses) :
    batch.groupSuccessful index = changed.groupSuccessful index := by
  rw [groupSuccessful_eq, groupSuccessful_eq, same]

theorem groupSuccessful_modifyGroup_of_ne {other : Nat} (change : Group → Group)
    (isOther : other ≠ index) :
    (batch.modifyGroup index change).groupSuccessful other =
      batch.groupSuccessful other := by
  simp [groupSuccessful, modifyGroup, Ne.symm isOther]

/-- A batch none of whose items has an outcome. -/
def Untouched (batch : Batch) : Prop :=
  ∀ position item, batch.item? position = some item → item.status = .pending

theorem map_status_item? :
    (batch.item? position).map Item.status =
      (batch.statuses[position.group]?).bind fun statuses =>
        statuses[position.item]? := by
  cases present : batch.groups[position.group]? <;>
    simp [item?, statuses, present]

theorem item?_of_statuses (same : changed.statuses = batch.statuses)
    (found : changed.item? position = some item) :
    ∃ original, batch.item? position = some original ∧
      original.status = item.status := by
  have status := congrArg (Option.map Item.status) found
  rw [map_status_item?, same, ← map_status_item?] at status
  exact Option.map_eq_some_iff.1 status

theorem Untouched.transfer (untouched : batch.Untouched)
    (same : changed.statuses = batch.statuses) : changed.Untouched := by
  intro position item found
  obtain ⟨original, present, status⟩ := item?_of_statuses same found
  exact status ▸ untouched position original present

/-- A group with a waiting item has not succeeded. -/
theorem groupSuccessful_of_waiting (found : batch.item? position = some item)
    (waits : item.status = .pending) :
    batch.groupSuccessful position.group = false := by
  cases complete : batch.groupSuccessful position.group with
  | false => rfl
  | true =>
      have success := (groupSuccessful_iff.1 complete).2 _ item found
      rw [waits] at success
      cases success

/-- Every item of the groups before a place in the list has succeeded. -/
def DoneBefore (batch : Batch) (index : Nat) : Prop :=
  ∀ position item, position.group < index → batch.item? position = some item →
    item.status = .success

theorem doneBefore_zero : batch.DoneBefore 0 :=
  fun _ _ before _ => absurd before (Nat.not_lt_zero _)

theorem DoneBefore.mono {earlier : Nat} (done : batch.DoneBefore index)
    (order : earlier ≤ index) : batch.DoneBefore earlier :=
  fun position item before => done position item (Nat.lt_of_lt_of_le before order)

theorem DoneBefore.succ (done : batch.DoneBefore index)
    (successful : batch.groupSuccessful index = true) :
    batch.DoneBefore (index + 1) := by
  intro position item before found
  obtain earlier | same := Nat.lt_succ_iff_lt_or_eq.1 before
  · exact done position item earlier found
  · subst same
    exact (groupSuccessful_iff.1 successful).2 _ item found

/-- A change of one group leaves the groups before it done. -/
theorem DoneBefore.modifyGroup (done : batch.DoneBefore index)
    (change : Group → Group) : (batch.modifyGroup index change).DoneBefore index := by
  intro position item before found
  rw [item?_modifyGroup_of_ne change (Nat.ne_of_lt before)] at found
  exact done position item before found

theorem DoneBefore.groupSuccessful (done : batch.DoneBefore index)
    {earlier : Nat} (order : earlier < index)
    (inside : earlier < batch.groups.length) :
    batch.groupSuccessful earlier = true :=
  groupSuccessful_iff.2
    ⟨inside, fun _ item found => done _ item order found⟩

theorem doneBefore_iff (inside : index ≤ batch.groups.length) :
    batch.DoneBefore index ↔
      ∀ earlier < index, batch.groupSuccessful earlier = true := by
  constructor
  · intro done earlier order
    exact done.groupSuccessful order (Nat.lt_of_lt_of_le order inside)
  · intro all position item before found
    exact (groupSuccessful_iff.1 (all position.group before)).2 _ item found

/-- All items have succeeded when those of every group have. -/
theorem doneBefore_length_iff :
    batch.DoneBefore batch.groups.length ↔
      ∀ group ∈ batch.groups, group.isSuccessful = true := by
  rw [doneBefore_iff (Nat.le_refl _)]
  constructor
  · intro all group member
    obtain ⟨place, found⟩ := List.getElem?_of_mem member
    have successful := all place (List.getElem?_eq_some_iff.1 found).1
    simpa [Batch.groupSuccessful, found] using successful
  · intro all place inside
    simpa [Batch.groupSuccessful, inside] using all _ (List.getElem_mem inside)

/-! ## What the transactions decide -/

/-- The transactions of a batch by groups. -/
def payloads (batch : Batch) : List (List Transaction) :=
  batch.groups.map fun group => group.items.map Item.payload

theorem address?_eq :
    batch.address? = do
      let transactions ← batch.payloads.head?
      let transaction ← transactions.head?
      return transaction.sender := by
  simp only [address?, payloads, List.head?_map, Option.bind_eq_bind]
  cases batch.groups.head? with
  | none => rfl
  | some group => cases items : group.items.head? <;> simp [items]

theorem address?_of_item? (found : batch.item? ⟨0, 0⟩ = some item) :
    batch.address? = some item.payload.sender := by
  obtain ⟨group, present, member⟩ := item?_eq_some_iff.1 found
  simp [address?, List.head?_eq_getElem?, present, member]

theorem map_items_modifyGroup {α : Type} {group : Group}
    {change : Group → Group} (read : Item → α)
    (present : batch.groups[index]? = some group)
    (same : (change group).items.map read = group.items.map read) :
    (batch.modifyGroup index change).groups.map
        (fun group => group.items.map read) =
      batch.groups.map fun group => group.items.map read := by
  apply List.ext_getElem?
  intro place
  simp only [modifyGroup, List.getElem?_map, List.getElem?_modify]
  by_cases here : index = place
  · subst here
    simp [present, same]
  · simp [here]

theorem payloads_modifyGroup {group : Group} {change : Group → Group}
    (present : batch.groups[index]? = some group)
    (same : (change group).items.map Item.payload =
      group.items.map Item.payload) :
    (batch.modifyGroup index change).payloads = batch.payloads :=
  map_items_modifyGroup Item.payload present same

theorem payloads_setItemStatus (status : ItemStatus) :
    (batch.setItemStatus position status).payloads = batch.payloads :=
  map_items_setItemStatus Item.payload fun _ => rfl

@[simp] theorem length_modifyGroup (change : Group → Group) :
    (batch.modifyGroup index change).groups.length = batch.groups.length := by
  simp [modifyGroup]

end Batch

end BatchRelay
