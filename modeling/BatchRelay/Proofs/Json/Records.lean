import BatchRelay.Batch.Record
import BatchRelay.Proofs.Json.Printing
import Mathlib.Control.Monad.Basic

/-!
# Stored batches are read back

`Batch.parse_render` says that the text of a batch stands for that batch again,
whatever its texts, numbers and absent fields are.  Each record on the way has
two lemmas: its JSON is plain, and it is decoded to itself.
-/

namespace BatchRelay

@[simp] theorem Except.ok_bind {ε α β : Type} (value : α)
    (next : α → Except ε β) : (Except.ok value >>= next) = next value :=
  rfl

@[simp] theorem Except.ok_map {ε α β : Type} (value : α) (change : α → β) :
    (Except.ok value : Except ε α).map change = .ok (change value) :=
  rfl

@[simp] theorem Except.error_map {ε α β : Type} (error : ε) (change : α → β) :
    (Except.error error : Except ε α).map change = .error error :=
  rfl

theorem Except.bind_eq_ok_iff {ε α β : Type} {first : Except ε α}
    {next : α → Except ε β} {result : β} :
    (first >>= next) = .ok result ↔
      ∃ value, first = .ok value ∧ next value = .ok result := by
  cases first with
  | error error => simp [Bind.bind, Except.bind]
  | ok value => simp

namespace Json

@[simp] theorem asText_text (value : String) : asText (text value) = .ok value :=
  rfl

@[simp] theorem asWord64_nat (value : UInt64) :
    asWord64 (nat value.toNat) = .ok value := by
  simp [asWord64, nat, value.toNat_lt]

@[simp] theorem asWord32_nat (value : UInt32) :
    asWord32 (nat value.toNat) = .ok value := by
  simp [asWord32, nat, value.toNat_lt]

@[simp] theorem asOptional_text (value : String) :
    asOptional asText (text value) = .ok (some value) :=
  rfl

@[simp] theorem asOptional_nat (value : UInt32) :
    asOptional asWord32 (nat value.toNat) = .ok (some value) := by
  change (asWord32 (nat value.toNat)).map some = _
  rw [asWord32_nat]
  rfl

theorem takeMembers_append {δ : Type}
    (take : δ → String → Json → Except Defect δ) (draft : δ)
    (front back : List (Option String × Json)) :
    takeMembers take draft (front ++ back) =
      takeMembers take draft front >>= fun draft => takeMembers take draft back :=
  List.foldlM_append

@[simp] theorem takeMembers_nil {δ : Type}
    (take : δ → String → Json → Except Defect δ) (draft : δ) :
    takeMembers take draft [] = .ok draft :=
  rfl

@[simp] theorem takeMembers_cons {δ : Type}
    (take : δ → String → Json → Except Defect δ) (draft : δ) (name : String)
    (value : Json) (members : List (Option String × Json)) :
    takeMembers take draft ((some name, value) :: members) =
      take draft name value >>= fun draft => takeMembers take draft members :=
  rfl

theorem asList_map {α : Type} {decode : Json → Except Defect α}
    {encode : α → Json} (readBack : ∀ value, decode (encode value) = .ok value)
    (values : List α) :
    asList decode (.array (values.map encode)) = .ok values := by
  simp only [asList, List.mapM_map]
  induction values with
  | nil => rfl
  | cons value values induction =>
      rw [List.mapM_cons, Function.comp_apply, readBack, induction]
      rfl

@[simp] theorem plain_text (value : String) : plain (text value) = true := rfl

@[simp] theorem plain_nat (value : Nat) : plain (nat value) = true := rfl

theorem plain_record (members : List (String × Json)) :
    plain (record members) = members.all fun member => plain member.2 := by
  simp only [plain, record]
  induction members with
  | nil => rfl
  | cons member members induction =>
      simp [membersPlain, induction]

theorem plain_array_map {α : Type} {encode : α → Json}
    (isPlain : ∀ value, plain (encode value) = true) (values : List α) :
    plain (.array (values.map encode)) = true := by
  simp only [plain]
  induction values with
  | nil => rfl
  | cons value values induction =>
      simp [elementsPlain, isPlain, induction]

theorem plain_optionalMember {α : Type} {name : String} {encode : α → Json}
    (isPlain : ∀ value, plain (encode value) = true) (value : Option α) :
    (optionalMember name encode value).all (fun member => plain member.2) =
      true := by
  cases value <;> simp [optionalMember, isPlain]

end Json

theorem ItemStatus.ofJson_toJson (status : ItemStatus) :
    ItemStatus.ofJson status.toJson = .ok status := by
  cases status <;> rfl

theorem BatchStatus.ofJson_toJson (status : BatchStatus) :
    BatchStatus.ofJson status.toJson = .ok status := by
  cases status <;> rfl

namespace Transaction

theorem plain_toJson (transaction : Transaction) :
    transaction.toJson.plain = true := by
  rw [toJson, Json.plain_record]
  simp only [members, List.all_append, List.all_cons, List.all_nil,
    Json.plain_text, Json.plain_nat, Json.plain_optionalMember Json.plain_text,
    Json.plain_optionalMember fun options : UInt32 =>
      Json.plain_nat options.toNat,
    Bool.and_self]

private theorem take_data (draft : Draft) (unset : draft.data = none)
    (data : Option String) :
    Json.takeMembers Draft.take draft
        ((Json.optionalMember "data" .text data).map fun (name, value) =>
          (some name, value)) =
      .ok { draft with data := data.map some } := by
  cases data <;>
    simp [Json.optionalMember, Draft.take, Json.fill, unset]
  rw [← unset]

private theorem take_options (draft : Draft) (unset : draft.options = none)
    (options : Option UInt32) :
    Json.takeMembers Draft.take draft
        ((Json.optionalMember "options" (fun options => .nat options.toNat)
          options).map fun (name, value) => (some name, value)) =
      .ok { draft with options := options.map some } := by
  cases options <;>
    simp [Json.optionalMember, Draft.take, Json.fill, unset]
  rw [← unset]

private theorem take_guardian (draft : Draft) (unset : draft.guardian = none)
    (guardian : Option String) :
    Json.takeMembers Draft.take draft
        ((Json.optionalMember "guardian" .text guardian).map
          fun (name, value) => (some name, value)) =
      .ok { draft with guardian := guardian.map some } := by
  cases guardian <;>
    simp [Json.optionalMember, Draft.take, Json.fill, unset]
  rw [← unset]

private theorem take_guardianSignature (draft : Draft)
    (unset : draft.guardianSignature = none) (signature : Option String) :
    Json.takeMembers Draft.take draft
        ((Json.optionalMember "guardianSignature" .text signature).map
          fun (name, value) => (some name, value)) =
      .ok { draft with guardianSignature := signature.map some } := by
  cases signature <;>
    simp [Json.optionalMember, Draft.take, Json.fill, unset]
  rw [← unset]

private theorem join_map_some {α : Type} (value : Option α) :
    (value.map some).join = value := by
  cases value <;> rfl

theorem ofJson_toJson (transaction : Transaction) :
    ofJson transaction.toJson = .ok transaction := by
  simp [ofJson, toJson, members, Json.record, Json.takeRecord,
    Json.takeMembers_append, take_data, take_options, take_guardian,
    take_guardianSignature, Draft.take, Draft.finish, Json.fill, Json.need,
    join_map_some]

end Transaction

theorem HashedTransaction.plain_toJson (transaction : HashedTransaction) :
    transaction.toJson.plain = true := by
  simp [toJson, Json.plain_record, Transaction.plain_toJson]

theorem HashedTransaction.ofJson_toJson (transaction : HashedTransaction) :
    ofJson transaction.toJson = .ok transaction := by
  simp [ofJson, toJson, Json.record, Json.takeRecord, Draft.take, Json.fill,
    Json.need, Transaction.ofJson_toJson]

namespace Item

theorem plain_toJson (item : Item) : item.toJson.plain = true := by
  rw [toJson, Json.plain_record]
  simp only [List.all_append, List.all_cons, List.all_nil,
    HashedTransaction.plain_toJson, ItemStatus.toJson, Json.plain_text,
    Json.plain_optionalMember Json.plain_text, Bool.and_self]

theorem ofJson_toJson (item : Item) : ofJson item.toJson = .ok item := by
  obtain ⟨transaction, status, error⟩ := item
  cases error <;>
    simp [ofJson, toJson, Json.record, Json.takeRecord, Json.optionalMember,
      Draft.take, Json.fill, Json.need, HashedTransaction.ofJson_toJson,
      ItemStatus.ofJson_toJson]

end Item

theorem Group.plain_toJson (group : Group) : group.toJson.plain = true := by
  simp [toJson, Json.plain_record, Json.plain_array_map Item.plain_toJson]

theorem Group.ofJson_toJson (group : Group) : ofJson group.toJson = .ok group := by
  simp [ofJson, toJson, Json.record, Json.takeRecord, Draft.take, Json.fill,
    Json.need, Json.asList_map Item.ofJson_toJson]

namespace Batch

theorem plain_toJson (batch : Batch) : batch.toJson.plain = true := by
  rw [toJson, Json.plain_record]
  simp only [List.all_append, List.all_cons, List.all_nil, Json.plain_text,
    Json.plain_array_map Group.plain_toJson, BatchStatus.toJson,
    Json.plain_optionalMember Json.plain_text, Bool.and_self]

theorem ofJson_toJson (batch : Batch) : ofJson batch.toJson = .ok batch := by
  obtain ⟨id, groups, status, sourceIp⟩ := batch
  cases sourceIp <;>
    simp [ofJson, toJson, Json.record, Json.takeRecord, Json.optionalMember,
      Draft.take, Json.fill, Json.need, Json.asList_map Group.ofJson_toJson,
      BatchStatus.ofJson_toJson]

/-- The text of a batch stands for that batch. -/
theorem parse_render (batch : Batch) : parse batch.render = .ok batch := by
  rw [parse, render, Json.decodeText_render _ batch.plain_toJson, ofJson_toJson]

end Batch

end BatchRelay
