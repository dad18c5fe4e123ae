import BatchRelay.Proofs.Engine.Reconciling

/-!
# Accepting a batch, step by step

What the checks let pass: `BatchRequest.Admits` relates a request to the batch
that is made of it, with an address that keeps keys and routes readable.
`Submitting` describes a run of `submit` by what was sent and stored.
-/

namespace BatchRelay

section Traversal

variable {ε α β : Type} {change : α → Except ε β} {values : List α}
  {results : List β}

theorem mapM_cons_eq_ok_iff {value : α} :
    (value :: values).mapM change = .ok results ↔
      ∃ head tail, change value = .ok head ∧ values.mapM change = .ok tail ∧
        results = head :: tail := by
  simp only [List.mapM_cons, Except.bind_eq_ok_iff, Pure.pure, Except.pure,
    Except.ok.injEq]
  constructor
  · rintro ⟨head, first, tail, rest, rfl⟩
    exact ⟨head, tail, first, rest, rfl⟩
  · rintro ⟨head, tail, first, rest, rfl⟩
    exact ⟨head, first, tail, rest, rfl⟩

theorem map_of_mapM {back : β → α}
    (inverts : ∀ value result, change value = .ok result → back result = value)
    (mapped : values.mapM change = .ok results) : results.map back = values := by
  induction values generalizing results with
  | nil => cases mapped; rfl
  | cons value values induction =>
      obtain ⟨head, tail, first, rest, rfl⟩ := mapM_cons_eq_ok_iff.1 mapped
      rw [List.map_cons, inverts value head first, induction rest]

theorem mem_of_mapM (mapped : values.mapM change = .ok results) {result : β}
    (member : result ∈ results) : ∃ value ∈ values, change value = .ok result := by
  induction values generalizing results with
  | nil => cases mapped; cases member
  | cons value values induction =>
      obtain ⟨head, tail, first, rest, rfl⟩ := mapM_cons_eq_ok_iff.1 mapped
      obtain rfl | inTail := List.mem_cons.1 member
      · exact ⟨value, List.mem_cons_self, first⟩
      · obtain ⟨found, inValues, made⟩ := induction rest inTail
        exact ⟨found, List.mem_cons_of_mem _ inValues, made⟩

end Traversal

/-- A batch whose keys and routes can be read back. -/
structure Batch.Proper (batch : Batch) (address : String) : Prop where
  sender : batch.address? = some address
  clean : Address.Clean address
  id : ';' ∉ batch.id.toList
  nonempty : ∀ transactions ∈ batch.payloads, transactions ≠ []

/-- Being proper is a matter of the identifier and the transactions alone. -/
theorem Batch.Proper.transfer {batch changed : Batch} {address : String}
    (proper : batch.Proper address) (id : changed.id = batch.id)
    (payloads : changed.payloads = batch.payloads) : changed.Proper address where
  sender := by rw [address?_eq, payloads, ← address?_eq, proper.sender]
  clean := proper.clean
  id := id ▸ proper.id
  nonempty := payloads ▸ proper.nonempty

theorem Batch.Proper.setItemStatus {batch : Batch} {address : String}
    (proper : batch.Proper address) (position : Position) (status : ItemStatus) :
    (batch.setItemStatus position status).Proper address :=
  proper.transfer rfl (payloads_setItemStatus status)

theorem Batch.Proper.length_pos {batch : Batch} {address : String}
    (proper : batch.Proper address) : 0 < batch.groups.length := by
  have isSender := proper.sender
  unfold address? at isSender
  cases groups : batch.groups with
  | nil => simp [groups] at isSender
  | cons group groups => exact Nat.succ_pos _

theorem Batch.Proper.item_of_group {batch : Batch} {address : String}
    (proper : batch.Proper address) {group : Nat}
    (inside : group < batch.groups.length) :
    ∃ item, batch.item? ⟨group, 0⟩ = some item := by
  have full := proper.nonempty (batch.groups[group].items.map Item.payload)
    (List.mem_map_of_mem (List.getElem_mem inside))
  have nonempty : batch.groups[group].items ≠ [] := by simpa using full
  obtain ⟨item, items, same⟩ := List.exists_cons_of_ne_nil nonempty
  exact ⟨item, by simp [item?, inside, same]⟩

/-- A batch in which nothing has happened yet. -/
structure Batch.Fresh (batch : Batch) : Prop where
  status : batch.status = .pending
  item : ∀ position item, batch.item? position = some item →
    item.status = .pending ∧ item.payload.hash = .ok item.hash

theorem Batch.Fresh.untouched {batch : Batch} (fresh : batch.Fresh) :
    batch.Untouched :=
  fun position item found => (fresh.item position item found).1

/-- A request that passes the checks of its text, its sender and its batch. -/
structure BatchRequest.Admits (request : BatchRequest) (address : String)
    (batch : Batch) : Prop where
  id : batch.id = request.id
  payloads : batch.payloads = request.transactions
  proper : batch.Proper address
  fresh : batch.Fresh

namespace BatchRequest

variable {request : BatchRequest} {address : String} {batch : Batch}
  {sourceIp : Option String}

theorem Item.fresh_eq_ok_iff {payload : Transaction} {item : Item} :
    Item.fresh payload = .ok item ↔
      ∃ hash, payload.hash = .ok hash ∧ item = ⟨⟨payload, hash⟩, .pending, none⟩ := by
  simp only [Item.fresh, Except.bind_eq_ok_iff, Pure.pure, Except.pure,
    Except.ok.injEq]
  exact exists_congr fun hash => and_congr_right fun _ => eq_comm

theorem Item.fresh_eq_ok {payload : Transaction} {item : Item}
    (made : Item.fresh payload = .ok item) :
    item.payload = payload ∧ item.status = .pending ∧
      item.payload.hash = .ok item.hash := by
  obtain ⟨hash, hashed, rfl⟩ := Item.fresh_eq_ok_iff.1 made
  exact ⟨rfl, rfl, hashed⟩

private theorem group_eq_ok {transactions : List Transaction} {group : Group}
    (made : (transactions.mapM Item.fresh >>= fun items =>
      pure (Group.mk items)) = .ok group) :
    transactions.mapM Item.fresh = .ok group.items := by
  obtain ⟨items, traversed, same⟩ := Except.bind_eq_ok_iff.1 made
  cases same
  exact traversed

theorem fresh_of_toBatch {position : Position} {item : Item}
    (made : request.toBatch sourceIp = .ok batch)
    (found : batch.item? position = some item) :
    ∃ payload, Item.fresh payload = .ok item := by
  simp only [toBatch, Except.bind_eq_ok_iff, Pure.pure, Except.pure,
    Except.ok.injEq] at made
  obtain ⟨groups, mapped, rfl⟩ := made
  obtain ⟨group, present, member⟩ := Batch.item?_eq_some_iff.1 found
  obtain ⟨_, -, made⟩ := mem_of_mapM mapped (List.mem_of_getElem? present)
  obtain ⟨payload, -, made⟩ :=
    mem_of_mapM (group_eq_ok made) (List.mem_of_getElem? member)
  exact ⟨payload, made⟩

theorem toBatch_eq_ok (made : request.toBatch sourceIp = .ok batch) :
    batch.id = request.id ∧ batch.payloads = request.transactions ∧
      batch.Fresh := by
  have items {position : Position} {item : Item}
      (found : batch.item? position = some item) := fresh_of_toBatch made found
  simp only [toBatch, Except.bind_eq_ok_iff, Pure.pure, Except.pure,
    Except.ok.injEq] at made
  obtain ⟨groups, mapped, rfl⟩ := made
  refine ⟨rfl, ?_, rfl, ?_⟩
  · refine map_of_mapM ?_ mapped
    intro transactions group made
    exact map_of_mapM (fun _ _ made => (Item.fresh_eq_ok made).1)
      (group_eq_ok made)
  · intro position item found
    obtain ⟨payload, made⟩ := items found
    exact (Item.fresh_eq_ok made).2

theorem checkShape_eq_ok (passes : request.checkShape = .ok address) :
    (∀ transactions ∈ request.transactions, transactions ≠ []) ∧
      ';' ∉ request.id.toList ∧
      ∃ first rest, request.transactions.flatten = first :: rest ∧
        first.sender = address := by
  unfold checkShape at passes
  split at passes
  case h_1 => cases passes
  case h_2 =>
    split at passes
    case h_1 => cases passes
    case h_2 full =>
      split at passes
      case isTrue => cases passes
      case isFalse named =>
        split at passes
        case h_2 => cases passes
        case h_1 first rest flat =>
          cases passes
          refine ⟨fun transactions member => ?_, (not_or.1 named).2, first,
            rest, flat, rfl⟩
          simpa using List.findIdx?_eq_none_iff.1 full transactions member

theorem Transaction.sender_decodes {transaction : Transaction} {hash : String}
    (hashed : transaction.hash = .ok hash) :
    ∃ publicKey, Address.decode transaction.sender = .ok publicKey := by
  simp only [Transaction.hash, Transaction.encode, Transaction.fields,
    Except.bind_eq_ok_iff] at hashed
  obtain ⟨_, ⟨_, ⟨_, -, _, -, publicKey, decoded, -⟩, -⟩, -⟩ := hashed
  exact ⟨publicKey, decoded⟩

theorem Transaction.clean_of_check {transaction : Transaction}
    (passes : transaction.check = .ok ()) :
    Address.Clean transaction.sender := by
  have sound : transaction.fault? = none := by
    unfold Transaction.check at passes
    split at passes
    case h_1 => cases passes
    case h_2 sound => exact sound
  have hashed : ∃ hash, transaction.hash = .ok hash := by
    unfold Transaction.fault? at sound
    split at sound
    case isTrue => cases sound
    case isFalse =>
      split at sound
      case isTrue => cases sound
      case isFalse =>
        split at sound
        case isTrue => cases sound
        case isFalse =>
          split at sound
          case h_1 hash hashed => exact ⟨hash, hashed⟩
          case h_2 => cases sound
  simp only [Transaction.hash, Transaction.encode, Transaction.fields,
    Except.bind_eq_ok_iff] at hashed
  obtain ⟨_, _, ⟨_, ⟨_, -, _, -, _, sender, -⟩, -⟩, -⟩ := hashed
  exact Address.clean_of_decode sender

theorem admits (shaped : request.checkShape = .ok address)
    (checked : request.checkTransactions address = .ok ())
    (made : request.toBatch sourceIp = .ok batch) :
    request.Admits address batch := by
  obtain ⟨full, named, first, rest, flat, isSender⟩ := checkShape_eq_ok shaped
  obtain ⟨id, payloads, fresh⟩ := toBatch_eq_ok made
  simp only [checkTransactions, Except.bind_eq_ok_iff, flat] at checked
  obtain ⟨_, -, checked⟩ := checked
  obtain ⟨_, firstPasses, -⟩ := Except.bind_eq_ok_iff.1 checked
  refine ⟨id, payloads, ⟨?_, ?_, id ▸ named, payloads ▸ full⟩, fresh⟩
  · rw [Batch.address?_eq, payloads]
    match transactions : request.transactions with
    | [] => simp [transactions] at flat
    | [] :: _ => exact absurd rfl (full [] (by simp [transactions]))
    | (head :: _) :: _ =>
        simp only [transactions, List.flatten_cons, List.cons_append,
          List.cons.injEq] at flat
        simp [flat.1, isSender]
  · exact isSender ▸ Transaction.clean_of_check firstPasses

end BatchRequest

namespace Surroundings

variable (surroundings : Surroundings) (lifetimes : Lifetimes)

/-- A batch made of a request is not stored yet, and its first group is sent:
it becomes `batch'`, and `steps` end in `last`. -/
structure Offered (request : BatchRequest) (world : World) (address : String)
    (batch batch' : Batch) (steps : List Step) (last : World) : Prop where
  admits : request.Admits address batch
  works : surroundings.fault world.moment
    (.read (Records.key address request.id)) = none
  absent : surroundings.value? world (Records.key address request.id) = none
  sent : surroundings.Started lifetimes batch address 0
    (surroundings.after (.readRecord world address request.id)) batch' steps last

/-- A run of `submit`.  Without a clean first group nothing is stored. -/
inductive Submitting (request : BatchRequest) (world : World) :
    List Step → World → Prop
  | malformed : Submitting request world [] world
  | rejected {address : String} :
      Submitting request world [.readRecord world address request.id]
        (surroundings.after (.readRecord world address request.id))
  | refused {address : String} {batch batch' : Batch} {steps : List Step}
      {last : World}
      (offered : surroundings.Offered lifetimes request world address batch batch'
        steps last)
      (refused : batch'.invalidHashesAt 0 ≠ []) :
      Submitting request world
        (.readRecord world address request.id :: steps) last
  | stored {address : String} {batch batch' : Batch} {steps : List Step}
      {last : World}
      (offered : surroundings.Offered lifetimes request world address batch batch'
        steps last)
      (taken : batch'.invalidHashesAt 0 = []) :
      Submitting request world
        (.readRecord world address request.id ::
          (steps ++ [.writeRecord lifetimes last address batch']))
        (surroundings.written lifetimes last address batch')

theorem Submitting.linked {request : BatchRequest} {world last : World}
    {steps : List Step}
    (submitting : surroundings.Submitting lifetimes request world steps last) :
    surroundings.Linked world steps last := by
  cases submitting with
  | malformed => exact .nil
  | rejected => exact .cons .nil
  | refused offered => exact .cons offered.sent.linked
  | stored offered => exact .cons (offered.sent.linked.append (.cons .nil))

/-- A run of `submit` with its result.  A group that was taken and cannot be
stored is the only error that comes after a sending. -/
inductive Submits (request : BatchRequest) (world : World) :
    Except BatchError Batch → List Step → World → Prop
  | malformed {error : BatchError} : Submits request world (.error error) [] world
  | rejected {address : String} {error : BatchError} :
      Submits request world (.error error) [.readRecord world address request.id]
        (surroundings.after (.readRecord world address request.id))
  | refused {address : String} {batch batch' : Batch} {steps : List Step}
      {last : World}
      (offered : surroundings.Offered lifetimes request world address batch batch'
        steps last)
      (refused : batch'.invalidHashesAt 0 ≠ []) :
      Submits request world (.ok { batch' with status := .invalid })
        (.readRecord world address request.id :: steps) last
  | stored {address : String} {batch batch' : Batch} {steps : List Step}
      {last : World}
      (offered : surroundings.Offered lifetimes request world address batch batch'
        steps last)
      (taken : batch'.invalidHashesAt 0 = [])
      (works : surroundings.fault last.moment
        (.write (Records.key address batch'.id)) = none) :
      Submits request world (.ok batch')
        (.readRecord world address request.id ::
          (steps ++ [.writeRecord lifetimes last address batch']))
        (surroundings.written lifetimes last address batch')
  | unstored {address : String} {batch batch' : Batch} {steps : List Step}
      {last : World} {error : CacheError}
      (offered : surroundings.Offered lifetimes request world address batch batch'
        steps last)
      (taken : batch'.invalidHashesAt 0 = [])
      (fails : surroundings.fault last.moment
        (.write (Records.key address batch'.id)) = some error) :
      Submits request world (.error (.cache error))
        (.readRecord world address request.id ::
          (steps ++ [.writeRecord lifetimes last address batch']))
        (surroundings.written lifetimes last address batch')

theorem submit_submits (request : BatchRequest) (sourceIp : Option String)
    (world : World) :
    surroundings.Submits lifetimes request world
      (surroundings.run (submit lifetimes request sourceIp) world).1
      (surroundings.steps (submit lifetimes request sourceIp) world)
      (surroundings.run (submit lifetimes request sourceIp) world).2 := by
  simp only [submit, BatchRequest.validate, Bind.bind, Pure.pure, run_bind,
    steps_bind]
  cases shaped : request.checkShape with
  | error error => exact .malformed
  | ok address =>
      simp only [run_bind, steps_bind, world_get, steps_get]
      cases read : (surroundings.run (Records.get address request.id) world).1 with
      | error error => exact .rejected
      | ok value =>
          cases value with
          | some batch => exact .rejected
          | none =>
              obtain ⟨works, absent⟩ := get_eq_none_iff.1 read
              simp only [run, steps]
              cases checked : request.checkTransactions address with
              | error error => exact .rejected
              | ok _ =>
                  simp only [Except.ok_map]
                  cases made : request.toBatch sourceIp with
                  | error error => exact .rejected
                  | ok batch =>
                      have admits := BatchRequest.admits shaped checked made
                      have sent := surroundings.startGroup_started lifetimes
                        admits.proper.sender admits.proper.length_pos
                        (surroundings.after
                          (.readRecord world address request.id))
                      simp only [run_bind, steps_bind]
                      split
                      case isTrue refused =>
                        have ends := Submits.refused
                          ⟨admits, works, absent, sent⟩ refused
                        simpa only [run, steps, List.append_nil,
                          List.singleton_append] using ends
                      case isFalse taken =>
                        have offered : surroundings.Offered lifetimes request
                            world address batch _ _ _ :=
                          ⟨admits, works, absent, sent⟩
                        have clean := Decidable.not_not.1 taken
                        simp only [run_bind, steps_bind, world_put, steps_put]
                        split
                        case h_1 error answer =>
                          simp only [run, steps, List.append_nil,
                            List.singleton_append]
                          exact .unstored offered clean (put_eq_error_iff.1 answer)
                        case h_2 answer =>
                          simp only [run, steps, List.append_nil,
                            List.singleton_append]
                          exact .stored offered clean (put_eq_ok_iff.1 answer)

theorem Submits.submitting {request : BatchRequest} {world last : World}
    {result : Except BatchError Batch} {steps : List Step}
    (submits : surroundings.Submits lifetimes request world result steps last) :
    surroundings.Submitting lifetimes request world steps last := by
  cases submits with
  | malformed => exact .malformed
  | rejected => exact .rejected
  | refused offered refused => exact .refused offered refused
  | stored offered taken => exact .stored offered taken
  | unstored offered taken => exact .stored offered taken

theorem submit_submitting (request : BatchRequest) (sourceIp : Option String)
    (world : World) :
    surroundings.Submitting lifetimes request world
      (surroundings.steps (submit lifetimes request sourceIp) world)
      (surroundings.run (submit lifetimes request sourceIp) world).2 :=
  (surroundings.submit_submits lifetimes request sourceIp world).submitting

end Surroundings

end BatchRelay
