import BatchRelay.Proofs.Engine.Evaluation

/-!
# What the checks let pass

Each check of a request lets pass exactly what it is meant to: `WellFormed` says what
the checks come to together, without mention of their order.  A batch can be made of
every well formed request.
-/

namespace BatchRelay

/-- Whether a transaction has all that the checks ask for and can be encoded. -/
structure Transaction.Complete (transaction : Transaction) : Prop where
  sender : transaction.sender ≠ ""
  receiver : transaction.receiver ≠ ""
  chainId : transaction.chainId ≠ ""
  signature : transaction.signature ≠ ""
  hashes : ∃ hash, transaction.hash = .ok hash

/-- Whether a request may be accepted for an address if it is a new one. -/
structure BatchRequest.WellFormed (request : BatchRequest) (address : String) : Prop where
  nonempty : request.transactions ≠ []
  full : ∀ group ∈ request.transactions, group ≠ []
  named : request.id ≠ "" ∧ ';' ∉ request.id.toList
  senders : ∀ transaction ∈ request.transactions.flatten, transaction.sender = address
  complete : ∀ transaction ∈ request.transactions.flatten, transaction.Complete

section Traversal

variable {ε α β : Type} {values : List α}

theorem forM_eq_ok_iff {check : α → Except ε Unit} :
    values.forM check = .ok () ↔ ∀ value ∈ values, check value = .ok () := by
  refine ⟨?_, forM_eq_ok⟩
  induction values with
  | nil => exact fun _ => List.forall_mem_nil _
  | cons value values induction =>
      intro passes
      obtain ⟨_, first, others⟩ := Except.bind_eq_ok_iff.1 passes
      exact List.forall_mem_cons.2 ⟨first, induction others⟩

theorem forM_eq_error {check : α → Except ε Unit} {error : ε}
    (fails : values.forM check = .error error) :
    ∃ value ∈ values, check value = .error error := by
  induction values with
  | nil => cases fails
  | cons value values induction =>
      cases first : check value with
      | error other =>
          have same : (check value >>= fun _ => values.forM check) = .error error := fails
          rw [first] at same
          cases same
          exact ⟨value, List.mem_cons_self, first⟩
      | ok _ =>
          have rest : (check value >>= fun _ => values.forM check) = .error error := fails
          rw [first] at rest
          obtain ⟨found, member, isError⟩ := induction rest
          exact ⟨found, List.mem_cons_of_mem _ member, isError⟩

theorem exists_mapM {change : α → Except ε β}
    (all : ∀ value ∈ values, ∃ result, change value = .ok result) :
    ∃ results, values.mapM change = .ok results := by
  induction values with
  | nil => exact ⟨[], rfl⟩
  | cons value values induction =>
      obtain ⟨⟨head, first⟩, others⟩ := List.forall_mem_cons.1 all
      obtain ⟨tail, rest⟩ := induction others
      exact ⟨_, mapM_cons_eq_ok_iff.2 ⟨head, tail, first, rest, rfl⟩⟩

end Traversal

theorem Transaction.check_eq_ok_iff {transaction : Transaction} :
    transaction.check = .ok () ↔ transaction.Complete := by
  have sound : transaction.check = .ok () ↔ transaction.fault? = none := by
    unfold check
    split <;> simp [*]
  rw [sound]
  constructor
  · intro faultless
    unfold fault? at faultless
    split at faultless
    case isTrue => cases faultless
    case isFalse ends =>
      split at faultless
      case isTrue => cases faultless
      case isFalse chained =>
        split at faultless
        case isTrue => cases faultless
        case isFalse signed =>
          obtain ⟨sender, receiver⟩ := not_or.1 ends
          split at faultless
          case h_1 hash hashed => exact ⟨sender, receiver, chained, signed, hash, hashed⟩
          case h_2 => cases faultless
  · rintro ⟨sender, receiver, chainId, signature, hash, hashed⟩
    simp [fault?, sender, receiver, chainId, signature, hashed]

theorem Transaction.check_eq_error {transaction : Transaction} {error : BatchError}
    (fails : transaction.check = .error error) :
    ∃ reason, error = .malformedPayload reason := by
  unfold check at fails
  split at fails
  · cases fails
    exact ⟨_, rfl⟩
  · cases fails

namespace BatchRequest

variable {request : BatchRequest} {address : String}

theorem checkShape_eq_ok_iff :
    request.checkShape = .ok address ↔
      (∀ group ∈ request.transactions, group ≠ []) ∧
        (request.id ≠ "" ∧ ';' ∉ request.id.toList) ∧
        ∃ first, request.transactions.flatten.head? = some first ∧
          first.sender = address := by
  cases groups : request.transactions with
  | nil => simp [checkShape, groups]
  | cons head tail =>
      cases empty : (head :: tail).findIdx? List.isEmpty with
      | some index =>
          obtain ⟨inside, isEmpty, -⟩ := List.findIdx?_eq_some_iff_getElem.1 empty
          have isMember := List.getElem_mem inside
          simp only [checkShape, groups, empty, reduceCtorEq, false_iff]
          rintro ⟨full, -⟩
          exact full _ isMember (List.isEmpty_iff.1 isEmpty)
      | none =>
          have full : ∀ group ∈ head :: tail, group ≠ [] := by
            intro group member
            simpa using List.findIdx?_eq_none_iff.1 empty group member
          by_cases named : request.id = "" ∨ ';' ∈ request.id.toList
          · simp only [checkShape, groups, empty, if_pos named, reduceCtorEq, false_iff]
            rintro ⟨-, ⟨isNamed, plain⟩, -⟩
            exact named.elim isNamed plain
          · have isNamed := not_or.1 named
            simp only [checkShape, groups, empty, if_neg named]
            cases flat : (head :: tail).flatten with
            | nil => simp
            | cons first rest =>
                simp only [Except.ok.injEq, List.head?_cons, Option.some.injEq]
                constructor
                · exact fun isSender => ⟨full, isNamed, first, rfl, isSender⟩
                · rintro ⟨-, -, _, rfl, isSender⟩
                  exact isSender

theorem checkSenders_eq_ok_iff :
    request.checkSenders address = .ok () ↔
      ∀ transaction ∈ request.transactions.flatten, transaction.sender = address := by
  unfold checkSenders
  split
  case h_1 transaction found =>
    have isMember := List.mem_of_find?_eq_some found
    have isOther : transaction.sender ≠ address := by
      simpa using List.find?_some found
    simp only [reduceCtorEq, false_iff]
    exact fun all => isOther (all transaction isMember)
  case h_2 absent =>
    have all := List.find?_eq_none.1 absent
    exact iff_of_true rfl fun transaction member => by simpa using all transaction member

theorem checkTransactions_eq_ok_iff :
    request.checkTransactions address = .ok () ↔
      (∀ transaction ∈ request.transactions.flatten, transaction.sender = address) ∧
        ∀ transaction ∈ request.transactions.flatten, transaction.Complete := by
  rw [← checkSenders_eq_ok_iff]
  simp only [checkTransactions, Except.bind_eq_ok_iff, forM_eq_ok_iff,
    Transaction.check_eq_ok_iff]
  constructor
  · rintro ⟨_, passes, complete⟩
    exact ⟨passes, complete⟩
  · rintro ⟨passes, complete⟩
    exact ⟨(), passes, complete⟩

/-- The checks that need no cache let pass exactly the well formed requests. -/
theorem wellFormed_iff :
    request.WellFormed address ↔ request.checkShape = .ok address ∧
      request.checkTransactions address = .ok () := by
  rw [checkShape_eq_ok_iff, checkTransactions_eq_ok_iff]
  constructor
  · rintro ⟨nonempty, full, named, senders, complete⟩
    obtain ⟨group, groups, isCons⟩ := List.exists_cons_of_ne_nil nonempty
    obtain ⟨first, rest, isGroup⟩ :=
      List.exists_cons_of_ne_nil (full group (isCons ▸ List.mem_cons_self))
    have isFirst : request.transactions.flatten.head? = some first := by
      simp [isCons, isGroup]
    exact ⟨⟨full, named, first, isFirst, senders first (List.mem_of_mem_head? isFirst)⟩,
      senders, complete⟩
  · rintro ⟨⟨full, named, first, isFirst, -⟩, senders, complete⟩
    refine ⟨?_, full, named, senders, complete⟩
    rintro isNil
    simp [isNil] at isFirst

theorem checkShape_ne_encoding (reason : EncodingError) :
    request.checkShape ≠ .error (.encoding reason) := by
  intro fails
  unfold checkShape at fails
  split at fails
  · cases fails
  · split at fails
    · cases fails
    · split at fails
      · cases fails
      · split at fails <;> cases fails

theorem checkTransactions_ne_encoding (reason : EncodingError) :
    request.checkTransactions address ≠ .error (.encoding reason) := by
  intro fails
  unfold checkTransactions at fails
  cases senders : request.checkSenders address with
  | error error =>
      rw [senders] at fails
      cases fails
      unfold checkSenders at senders
      split at senders <;> cases senders
  | ok _ =>
      rw [senders] at fails
      obtain ⟨_, -, isError⟩ := forM_eq_error fails
      obtain ⟨_, same⟩ := Transaction.check_eq_error isError
      cases same

/-! ## The batch of a request -/

/-- Whether a batch has the transactions of a request, with all of it still to come. -/
structure Makes (request : BatchRequest) (sourceIp : Option String) (address : String)
    (batch : Batch) : Prop where
  id : batch.id = request.id
  status : batch.status = .pending
  sourceIp : batch.sourceIp = sourceIp
  payloads : batch.payloads = request.transactions
  item : ∀ position item, batch.item? position = some item →
    item.status = .pending ∧ item.error = none ∧ item.payload.hash = .ok item.hash
  address : batch.address? = some address
  first : ∃ item, batch.item? ⟨0, 0⟩ = some item

theorem WellFormed.makes (wellFormed : request.WellFormed address)
    (sourceIp : Option String) :
    ∃ batch, request.toBatch sourceIp = .ok batch ∧
      request.Makes sourceIp address batch := by
  obtain ⟨shaped, checked⟩ := wellFormed_iff.1 wellFormed
  have makesGroup : ∀ transactions ∈ request.transactions, ∃ group,
      (do return Group.mk (← transactions.mapM Item.fresh)) = Except.ok group := by
    intro transactions inGroups
    obtain ⟨items, mapped⟩ : ∃ items, transactions.mapM Item.fresh = .ok items := by
      apply exists_mapM
      intro transaction inGroup
      obtain ⟨hash, hashed⟩ := (wellFormed.complete transaction
        (List.mem_flatten.2 ⟨_, inGroups, inGroup⟩)).hashes
      exact ⟨_, Item.fresh_eq_ok_iff.2 ⟨hash, hashed, rfl⟩⟩
    exact ⟨⟨items⟩, Except.bind_eq_ok_iff.2 ⟨items, mapped, rfl⟩⟩
  obtain ⟨groups, mapped⟩ := exists_mapM makesGroup
  have made : request.toBatch sourceIp = .ok ⟨request.id, groups, .pending, sourceIp⟩ :=
    Except.bind_eq_ok_iff.2 ⟨groups, mapped, rfl⟩
  have admits := BatchRequest.admits shaped checked made
  refine ⟨_, made, rfl, rfl, rfl, admits.payloads, ?_, admits.proper.sender,
    admits.proper.item_of_group admits.proper.length_pos⟩
  intro position item found
  obtain ⟨payload, isFresh⟩ := fresh_of_toBatch made found
  obtain ⟨hash, hashed, rfl⟩ := Item.fresh_eq_ok_iff.1 isFresh
  exact ⟨rfl, rfl, hashed⟩

end BatchRequest

end BatchRelay
