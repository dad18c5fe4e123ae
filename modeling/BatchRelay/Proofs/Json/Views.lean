import BatchRelay.Proofs.Json.Records
import BatchRelay.Proofs.Text.Magnitudes

/-!
# Views are read back

The view of an item is one object with the members of its transaction and its own.
The reader keeps what is not its own until the end, and the members of a transaction
are fit for that: none has the name of one of the view's own, they hold texts and
integers only, and integers of 64 bits have a value.
-/

namespace BatchRelay

namespace Json

theorem keepable_text (depth : Nat) (value : String) :
    keepable depth (text value) = true := by
  simp [text, keepable]

theorem keepable_nat (depth : Nat) {value : Nat} (fits : value < UInt64.size) :
    keepable depth (nat value) = true := by
  simp [nat, keepable, inRange_of_lt fits]

theorem forall_mem_optionalMember {α : Type} {name : String} {encode : α → Json}
    {holds : String × Json → Prop} (every : ∀ value, holds (name, encode value))
    (value : Option α) :
    ∀ member ∈ optionalMember name encode value, holds member := by
  cases value with
  | none => exact List.forall_mem_nil _
  | some value => exact List.forall_mem_singleton.2 (every value)

end Json

namespace TransactionView

/-- The names of the own members of a view. -/
def ownNames : List String :=
  ["hash", "status", "error"]

/-- Whether a member is not a view's own and can be kept inside of `level` arrays and
objects. -/
def Keeps (level : Nat) (member : String × Json) : Prop :=
  member.1 ∉ ownNames ∧ member.2.keepable (Json.deepest - level) = true

section Keeping

variable {level : Nat}

theorem keeps_text {name : String} (foreign : name ∉ ownNames) (value : String) :
    Keeps level (name, .text value) :=
  ⟨foreign, Json.keepable_text _ value⟩

theorem keeps_word64 {name : String} (foreign : name ∉ ownNames) (value : UInt64) :
    Keeps level (name, .nat value.toNat) :=
  ⟨foreign, Json.keepable_nat _ value.toNat_lt⟩

theorem keeps_word32 {name : String} (foreign : name ∉ ownNames) (value : UInt32) :
    Keeps level (name, .nat value.toNat) :=
  ⟨foreign, Json.keepable_nat _ (Nat.lt_trans value.toNat_lt (by decide))⟩

/-- All members of a transaction can be kept. -/
theorem keeps_members (transaction : Transaction) :
    ∀ member ∈ transaction.members, Keeps level member := by
  simp only [Transaction.members, List.forall_mem_append, List.forall_mem_cons,
    List.not_mem_nil, false_implies, implies_true, and_true]
  refine ⟨⟨⟨⟨⟨⟨⟨keeps_word64 ?_ _, keeps_text ?_ _, keeps_text ?_ _, keeps_text ?_ _,
    keeps_word64 ?_ _, keeps_word64 ?_ _⟩, ?data⟩, keeps_text ?_ _, keeps_word32 ?_ _⟩,
    ?options⟩, keeps_text ?_ _⟩, ?guardian⟩, ?guardianSignature⟩
  case data | guardian | guardianSignature =>
    exact Json.forall_mem_optionalMember (keeps_text (by decide)) _
  case options =>
    exact Json.forall_mem_optionalMember (keeps_word32 (by decide)) _
  all_goals decide

/-- What a view does not own is kept in its order. -/
theorem takeMembers_kept {members : List (String × Json)} (draft : Draft)
    (keeps : ∀ member ∈ members, Keeps level member) :
    Json.takeMembers (Draft.take level) draft
        (members.map fun (name, value) => (some name, value)) =
      .ok { draft with
        others := draft.others ++
          members.map fun (name, value) => (some name, value) } := by
  induction members generalizing draft with
  | nil => simp
  | cons member members induction =>
      obtain ⟨name, value⟩ := member
      obtain ⟨first, others⟩ := List.forall_mem_cons.1 keeps
      have kept : Draft.take level draft name value =
          .ok { draft with others := draft.others ++ [(some name, value)] } := by
        obtain ⟨foreign, keepable⟩ := first
        simp only [ownNames, List.mem_cons, List.not_mem_nil, or_false, not_or] at foreign
        unfold Draft.take
        split
        · exact absurd rfl foreign.1
        · exact absurd rfl foreign.2.1
        · exact absurd rfl foreign.2.2
        · exact if_pos keepable
      rw [List.map_cons, Json.takeMembers_cons, kept, Except.ok_bind,
        induction _ others]
      simp

end Keeping

theorem plain_toJson (view : TransactionView) : view.toJson.plain = true := by
  have members := view.payload.plain_toJson
  rw [Transaction.toJson, Json.plain_record] at members
  rw [toJson, Json.plain_record]
  simp only [List.all_append, members, List.all_cons, List.all_nil, ItemStatus.toJson,
    Json.plain_text, Json.plain_optionalMember Json.plain_text, Bool.and_self]

/-- The own members of a view, behind those of its transaction. -/
theorem takeMembers_own (level : Nat) (view : TransactionView)
    (others : List (Option String × Json)) :
    Json.takeMembers (Draft.take level) { others }
        (([("hash", Json.text view.hash), ("status", view.status.toJson)] ++
          Json.optionalMember "error" .text view.error).map
            fun (name, value) => (some name, value)) =
      .ok ⟨some view.hash, some view.status, view.error.map some, others⟩ := by
  obtain ⟨payload, hash, status, error⟩ := view
  cases error <;>
    simp [Json.optionalMember, Draft.take, Json.fill, ItemStatus.ofJson_toJson]

theorem ofJsonAt_toJson (level : Nat) (view : TransactionView) :
    ofJsonAt level view.toJson = .ok view := by
  have payload : (Json.takeMembers Transaction.Draft.take {}
      (view.payload.members.map fun (name, value) => (some name, value)) >>=
        Transaction.Draft.finish) = .ok view.payload :=
    view.payload.ofJson_toJson
  have taken : Json.takeMembers (Draft.take level) {}
      ((view.payload.members ++
        ([("hash", Json.text view.hash), ("status", view.status.toJson)] ++
          Json.optionalMember "error" .text view.error)).map
            fun (name, value) => (some name, value)) =
      .ok ⟨some view.hash, some view.status, view.error.map some,
        view.payload.members.map fun (name, value) => (some name, value)⟩ := by
    rw [List.map_append, Json.takeMembers_append,
      takeMembers_kept _ (keeps_members view.payload), Except.ok_bind]
    exact takeMembers_own level view _
  have error : (view.error.map some).join = view.error := by
    cases view.error <;> rfl
  simp only [toJson, Json.record, ofJsonAt, List.append_assoc, taken, Except.ok_bind,
    Json.need, error]
  rw [← bind_assoc, payload]
  rfl

end TransactionView

namespace BatchView

theorem plain_toJson (view : BatchView) : view.toJson.plain = true := by
  simp [toJson, Json.plain_record, BatchStatus.toJson,
    Json.plain_array_map TransactionView.plain_toJson]

theorem ofJson_toJson (view : BatchView) : ofJson view.toJson = .ok view := by
  simp [ofJson, toJson, Json.record, Json.takeRecord, Draft.take, Json.fill, Json.need,
    Json.asList_map (TransactionView.ofJsonAt_toJson 3), BatchStatus.ofJson_toJson]

/-- The text of a view stands for that view. -/
theorem decodeText_render (view : BatchView) :
    Json.decodeText ofJson view.toJson.render = .ok view := by
  rw [Json.decodeText_render _ view.plain_toJson, ofJson_toJson]

end BatchView

end BatchRelay
