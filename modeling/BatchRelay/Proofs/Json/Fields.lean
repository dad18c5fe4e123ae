import BatchRelay.Gateway
import BatchRelay.Proofs.Json.Records

/-!
# The fields of records

A record is read member by member, and a fault of any member is a fault of the
record.  Whether it is read, and as what, is a matter of each field apart: of the
values under its name, in their order.
-/

namespace BatchRelay

namespace Json

/-- The values of the members with a name, in their order. -/
def valuesOf (name : String) (members : List (String × Json)) : List Json :=
  (members.filter fun member => member.1 = name).map Prod.snd

@[simp] theorem valuesOf_nil (name : String) : valuesOf name [] = [] :=
  rfl

theorem valuesOf_cons (name : String) (member : String × Json)
    (members : List (String × Json)) :
    valuesOf name (member :: members) =
      if member.1 = name then member.2 :: valuesOf name members
      else valuesOf name members := by
  unfold valuesOf
  split
  case isTrue same => simp [same]
  case isFalse other => simp [other]

theorem mem_valuesOf {name : String} {members : List (String × Json)} {value : Json}
    (member : value ∈ valuesOf name members) :
    ∃ found ∈ members, found.2 = value := by
  obtain ⟨found, isFound, isValue⟩ := List.mem_map.1 member
  exact ⟨found, (List.mem_filter.1 isFound).1, isValue⟩

/-- Fills the slot of a field with one value after the other. -/
def fillAll {α : Type} (decode : Json → Except Defect α) (slot : Option α)
    (values : List Json) : Except Defect (Option α) :=
  values.foldlM (fun slot value => fill slot (decode value)) slot

section Slots

variable {α : Type} {decode : Json → Except Defect α} {slot filled : Option α}

@[simp] theorem fillAll_nil : fillAll decode slot [] = .ok slot :=
  rfl

theorem fillAll_cons (value : Json) (values : List Json) :
    fillAll decode slot (value :: values) =
      fill slot (decode value) >>= fun slot => fillAll decode slot values :=
  rfl

theorem fill_eq_ok_iff {result : Except Defect α} :
    fill slot result = .ok filled ↔
      slot = none ∧ ∃ found, result = .ok found ∧ filled = some found := by
  cases slot with
  | some found => simp [fill]
  | none => cases result <;> simp [fill, eq_comm]

/-- A slot that is filled stays so only if there are no more values. -/
theorem fillAll_some_eq_ok_iff {found : α} {values : List Json} :
    fillAll decode (some found) values = .ok filled ↔
      values = [] ∧ filled = some found := by
  cases values with
  | nil => simp [eq_comm]
  | cons value values => simp [fillAll_cons, Except.bind_eq_ok_iff, fill_eq_ok_iff]

/-- An empty slot is filled by the only value, if there is one. -/
theorem fillAll_none_eq_ok_iff {values : List Json} :
    fillAll decode none values = .ok filled ↔
      (values = [] ∧ filled = none) ∨
        ∃ value found, values = [value] ∧ decode value = .ok found ∧
          filled = some found := by
  cases values with
  | nil => simp [eq_comm]
  | cons value values =>
      simp only [fillAll_cons, Except.bind_eq_ok_iff, fill_eq_ok_iff, true_and,
        reduceCtorEq, false_and, false_or, List.cons.injEq]
      constructor
      · intro filled
        obtain ⟨_, ⟨found, decoded, rfl⟩, rest⟩ := filled
        obtain ⟨rfl, rfl⟩ := fillAll_some_eq_ok_iff.1 rest
        exact ⟨value, found, ⟨rfl, rfl⟩, decoded, rfl⟩
      · intro filled
        obtain ⟨_, found, ⟨rfl, rfl⟩, decoded, rfl⟩ := filled
        exact ⟨_, ⟨found, decoded, rfl⟩, rfl⟩

end Slots

end Json

open Json

/-- The members of a record under the names that they are read with. -/
def Json.named (members : List (String × Json)) : List (Option String × Json) :=
  members.map fun (name, value) => (some name, value)

@[simp] theorem Json.named_cons (name : String) (value : Json)
    (members : List (String × Json)) :
    named ((name, value) :: members) = (some name, value) :: named members :=
  rfl

/-- A record of which one field matters is read by that field alone. -/
theorem Gateway.takeMembers_takeOnly_eq_ok_iff {α : Type} {field : String}
    {decode : Json → Except Defect α} {slot filled : Option α}
    {members : List (String × Json)}
    (wellFormed : ∀ member ∈ members, member.2.wellFormed = true) :
    takeMembers (takeOnly field decode) slot (named members) = .ok filled ↔
      fillAll decode slot (valuesOf field members) = .ok filled := by
  induction members generalizing slot with
  | nil => rfl
  | cons member members induction =>
      obtain ⟨name, value⟩ := member
      obtain ⟨valueWellFormed, othersWellFormed⟩ := List.forall_mem_cons.1 wellFormed
      have skipped : value.skip = .ok () := if_pos valueWellFormed
      rw [named_cons, takeMembers_cons, valuesOf_cons, takeOnly]
      split
      case isTrue =>
        simp only [fillAll_cons, Except.bind_eq_ok_iff, induction othersWellFormed]
      case isFalse =>
        rw [skipped]
        exact induction othersWellFormed

namespace Json

theorem mismatch_ne_ok {α : Type} (value : Json) (found : α) :
    mismatch value ≠ .ok found := by
  unfold mismatch
  split <;> simp

theorem asText_eq_ok_iff {value : Json} {found : String} :
    asText value = .ok found ↔ value = .text found := by
  constructor
  · intro read
    unfold asText at read
    split at read
    case h_1 => rw [Except.ok.inj read, text]
    case h_2 => exact absurd read (mismatch_ne_ok _ _)
  · rintro rfl
    rfl

theorem asOptional_eq_ok_iff {α : Type} {decode : Json → Except Defect α} {value : Json} :
    (∃ found, asOptional decode value = .ok found) ↔
      value = .null ∨ ∃ found, decode value = .ok found := by
  unfold asOptional
  split
  case h_1 => simp
  case h_2 notNull =>
    rw [or_iff_right notNull]
    cases decode value <;> simp

theorem need_eq_ok_iff {α : Type} {slot : Option α} {found : α} :
    need slot = .ok found ↔ slot = some found := by
  cases slot <;> simp [need]

/-- Members that are read all have names. -/
theorem exists_named_of_takeMembers {δ : Type} {take : δ → String → Json → Except Defect δ}
    {draft filled : δ} {members : List (Option String × Json)}
    (read : takeMembers take draft members = .ok filled) :
    ∃ others, members = named others := by
  induction members generalizing draft with
  | nil => exact ⟨[], rfl⟩
  | cons member members induction =>
      obtain ⟨_ | name, value⟩ := member
      · cases read
      · rw [takeMembers_cons, Except.bind_eq_ok_iff] at read
        obtain ⟨next, -, read⟩ := read
        obtain ⟨others, rfl⟩ := induction read
        exact ⟨(name, value) :: others, rfl⟩

theorem wellFormed_record (members : List (String × Json)) :
    (record members).wellFormed = members.all fun member => member.2.wellFormed := by
  simp only [wellFormed, record]
  induction members with
  | nil => rfl
  | cons member members induction => simp [membersWellFormed, induction]

/-- A record that has a field once, with a value of some shape, or the array of that
value alone. -/
inductive Holds (field : String) (Shape : Json → Prop) : Json → Prop
  | record {members : List (String × Json)} {value : Json}
      (only : valuesOf field members = [value]) (shape : Shape value) :
      Holds field Shape (.record members)
  | array {value : Json} (shape : Shape value) : Holds field Shape (.array [value])

/-- The empty record holds no field. -/
theorem not_holds_nil {field : String} {Shape : Json → Prop} :
    ¬Holds field Shape (.record []) := by
  intro holds
  generalize isEmpty : Json.record [] = value at holds
  cases holds with
  | @record members value only shape =>
      have noMembers : members = [] :=
        List.map_eq_nil_iff.1 (Json.object.inj isEmpty).symm
      rw [noMembers] at only
      cases only
  | array shape => cases isEmpty

end Json

namespace Gateway

variable {α : Type} {field : String} {decode : Json → Except Defect α}

theorem takeRecord_takeOnly_array {elements : List Json} {found : α} :
    takeRecord [field] (takeOnly field decode) none (.array elements) =
        .ok (some found) ↔
      ∃ value, elements = [value] ∧ decode value = .ok found := by
  cases elements with
  | nil => simp [takeRecord]
  | cons value others =>
      have first : takeMembers (takeOnly field decode) none [(some field, value)] =
          fill none (decode value) := by
        rw [takeMembers_cons, takeOnly, if_pos rfl]
        cases decode value <;> rfl
      cases others with
      | nil => simp [takeRecord, first, Except.bind_eq_ok_iff, fill_eq_ok_iff]
      | cons second others =>
          simp [takeRecord, first, Except.bind_eq_ok_iff]

/-- A record of which one field matters is read when it holds that field. -/
theorem only_eq_ok_iff {value : Json} (wellFormed : value.wellFormed = true) :
    (∃ found, only field decode value = .ok found) ↔
      Holds field (fun inner => ∃ found, decode inner = .ok found) value := by
  simp only [only, Except.bind_eq_ok_iff, need_eq_ok_iff]
  constructor
  · intro read
    obtain ⟨found, slot, read, rfl⟩ := read
    cases value with
    | object members =>
        obtain ⟨members, rfl⟩ := exists_named_of_takeMembers read
        have membersWellFormed := List.all_eq_true.1 (wellFormed_record members ▸ wellFormed)
        have filled := (takeMembers_takeOnly_eq_ok_iff membersWellFormed).1 read
        obtain ⟨-, isNone⟩ | ⟨inner, _, only, decoded, -⟩ := fillAll_none_eq_ok_iff.1 filled
        · cases isNone
        · exact .record only ⟨_, decoded⟩
    | array elements =>
        obtain ⟨inner, rfl, decoded⟩ := takeRecord_takeOnly_array.1 read
        exact .array ⟨found, decoded⟩
    | _ =>
        rw [takeRecord] at read
        · exact absurd read (mismatch_ne_ok _ _)
        all_goals simp
  · intro holds
    cases holds with
    | record isOnly shape =>
        obtain ⟨found, decoded⟩ := shape
        have membersWellFormed := List.all_eq_true.1 (wellFormed_record _ ▸ wellFormed)
        refine ⟨found, some found,
          (takeMembers_takeOnly_eq_ok_iff membersWellFormed).2 ?_, rfl⟩
        exact fillAll_none_eq_ok_iff.2 (.inr ⟨_, found, isOnly, decoded, rfl⟩)
    | array shape =>
        obtain ⟨found, decoded⟩ := shape
        exact ⟨found, some found, takeRecord_takeOnly_array.2 ⟨_, rfl, decoded⟩, rfl⟩

end Gateway

namespace Envelope

variable {α : Type} {decode : Json → Except Defect α}

/-- The three fields of an envelope are read apart. -/
theorem takeMembers_eq_ok_iff {draft filled : Draft α} {members : List (String × Json)}
    (wellFormed : ∀ member ∈ members, member.2.wellFormed = true) :
    takeMembers (Draft.take decode) draft (named members) = .ok filled ↔
      fillAll (asOptional decode) draft.data (valuesOf "data" members) =
          .ok filled.data ∧
        fillAll asText draft.error (valuesOf "error" members) = .ok filled.error ∧
        fillAll asText draft.code (valuesOf "code" members) = .ok filled.code := by
  induction members generalizing draft with
  | nil =>
      obtain ⟨data, error, code⟩ := draft
      obtain ⟨filledData, filledError, filledCode⟩ := filled
      simp [named]
  | cons member members induction =>
      obtain ⟨name, value⟩ := member
      obtain ⟨valueWellFormed, othersWellFormed⟩ := List.forall_mem_cons.1 wellFormed
      have skipped : value.skip = .ok () := if_pos valueWellFormed
      have others (draft : Draft α) := @induction draft othersWellFormed
      rw [named_cons, takeMembers_cons, valuesOf_cons, valuesOf_cons, valuesOf_cons]
      by_cases isData : name = "data"
      · subst isData
        simp only [Draft.take, Except.bind_eq_ok_iff, others, fillAll_cons, if_true,
          String.reduceEq, if_false, Pure.pure, Except.pure, Except.ok.injEq]
        grind
      by_cases isError : name = "error"
      · subst isError
        simp only [Draft.take, Except.bind_eq_ok_iff, others, fillAll_cons, if_true,
          String.reduceEq, if_false, Pure.pure, Except.pure, Except.ok.injEq]
        grind
      by_cases isCode : name = "code"
      · subst isCode
        simp only [Draft.take, Except.bind_eq_ok_iff, others, fillAll_cons, if_true,
          String.reduceEq, if_false, Pure.pure, Except.pure, Except.ok.injEq]
        grind
      · simp [Draft.take, isData, isError, isCode, skipped, others]

theorem ofJson_record_eq_ok_iff {envelope : Envelope α} {members : List (String × Json)}
    (wellFormed : ∀ member ∈ members, member.2.wellFormed = true) :
    ofJson decode (.record members) = .ok envelope ↔
      ∃ data error code,
        fillAll (asOptional decode) none (valuesOf "data" members) = .ok data ∧
          fillAll asText none (valuesOf "error" members) = .ok error ∧
          fillAll asText none (valuesOf "code" members) = .ok code ∧
          envelope = ⟨data.join, error.getD "", code.getD ""⟩ := by
  have opened : ofJson decode (.record members) =
      takeMembers (Draft.take decode) {} (named members) >>= fun draft =>
        .ok ⟨draft.data.join, draft.error.getD "", draft.code.getD ""⟩ :=
    rfl
  rw [opened, Except.bind_eq_ok_iff]
  simp only [takeMembers_eq_ok_iff wellFormed, Except.ok.injEq]
  constructor
  · intro read
    obtain ⟨draft, ⟨data, error, code⟩, rfl⟩ := read
    exact ⟨_, _, _, data, error, code, rfl⟩
  · intro read
    obtain ⟨data, error, code, isData, isError, isCode, rfl⟩ := read
    exact ⟨⟨data, error, code⟩, ⟨isData, isError, isCode⟩, rfl⟩

end Envelope

end BatchRelay
