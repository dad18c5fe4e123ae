import BatchRelay.Proofs.Json.Fields

/-!
# The error texts of the gateway

An error text in an envelope decides what a reply means: a submission is refused
with that text, and a lookup finds nothing when the text says so.  But the data of
an envelope are read along with its error, so the error counts only if the data are
missing or `null` or have the shape that they have without an error.
-/

namespace BatchRelay

open Json

theorem Json.decodeText_of_parse? {α : Type} (decode : Json → Except Defect α)
    {source : String} {value : Json} (parsed : parse? source = some value) :
    value.wellFormed = true ∧ decodeText decode source = decode value := by
  simp only [parse?, Option.ite_none_right_eq_some, Option.some.injEq] at parsed
  obtain ⟨⟨wellFormed, ended⟩, isValue⟩ := parsed
  rw [isValue] at wellFormed
  refine ⟨wellFormed, ?_⟩
  simp only [decodeText, isValue, ended, if_true]
  cases decode value <;> rfl

theorem Pieces.occurs_iff {part text : List Char} :
    occurs part text = true ↔ part <:+: text := by
  induction text with
  | nil => simp [occurs]
  | cons head tail induction =>
      simp [occurs, List.infix_cons_iff, induction, List.isPrefixOf_iff_prefix]

namespace Gateway

/-- A body that is an object with one error text, at most one code, which is a text,
and at most one value as its data.  Any other members may stand anywhere between
them. -/
structure Carries (body error : String) (data : Option Json) : Prop where
  object : ∃ members, parse? body = some (.record members) ∧
    valuesOf "error" members = [.text error] ∧
    (valuesOf "code" members = [] ∨ ∃ code, valuesOf "code" members = [.text code]) ∧
    valuesOf "data" members = data.toList

/-- Data that are missing or `null` or have a shape. -/
def Fits (Shape : Json → Prop) (data : Option Json) : Prop :=
  ∀ value ∈ data, value = .null ∨ Shape value

/-- The data that an accepted submission has: the hash under its name. -/
def Sent : Json → Prop :=
  Holds "txHash" fun value => ∃ hash, value = .text hash

/-- The data that a known hash has: the transaction under its name. -/
def Known : Json → Prop :=
  Holds "transaction" fun value =>
    ∃ transaction, ObservedTransaction.ofJson value = .ok transaction

/-- What an error text decides, and what it does not. -/
structure ErrorDecides (status : Nat) (body error : String) (data : Option Json) :
    Prop where
  rejected : error ≠ "" →
    (readSent (.answered status body) = .error (.rejected error) ↔ Fits Sent data)
  unknown : ∀ hash, status = 404 ∨ "not found".toList <:+: error.toList →
    (readLookup hash (.answered status body) = .ok none ↔ Fits Known data)
  /-- Data of another shape hide the error. -/
  sentHidden : ¬Fits Sent data →
    readSent (.answered status body) =
      .error (.decode "error decoding response body")
  knownHidden : ∀ hash, ¬Fits Known data →
    readLookup hash (.answered status body) =
      .error (.decode "error decoding response body")

section Opening

variable {α : Type} {decode : Json → Except Defect α} {Shape : Json → Prop}
  {body error : String} {data : Option Json}

theorem fits_iff_fillAll
    (shape : ∀ value ∈ data, (∃ found, decode value = .ok found) ↔ Shape value) :
    Fits Shape data ↔
      ∃ filled, fillAll (asOptional decode) none data.toList = .ok filled := by
  cases data with
  | none => simp [Fits]
  | some value =>
      have fits : Fits Shape (some value) ↔ value = .null ∨ Shape value := by
        simp [Fits]
      rw [fits, ← shape value rfl, ← asOptional_eq_ok_iff]
      constructor
      · intro read
        obtain ⟨found, isFound⟩ := read
        exact ⟨some found, fillAll_none_eq_ok_iff.2 (.inr ⟨value, found, rfl, isFound, rfl⟩)⟩
      · intro read
        obtain ⟨_, isFilled⟩ := read
        obtain ⟨isNil, -⟩ | ⟨_, found, isValue, isFound, -⟩ :=
          fillAll_none_eq_ok_iff.1 isFilled
        · cases isNil
        · cases isValue
          exact ⟨found, isFound⟩

theorem open?_of_carries (carries : Carries body error data)
    (shape : ∀ value : Json, value.wellFormed = true →
      ((∃ found, decode value = .ok found) ↔ Shape value)) (status : Nat) :
    (Fits Shape data ∧ ∃ envelope,
        open? decode (.answered status body) = .ok (status, envelope) ∧
          envelope.error = error) ∨
      (¬Fits Shape data ∧
        open? decode (.answered status body) =
          .error (.decode "error decoding response body")) := by
  obtain ⟨members, parsed, isError, isCode, isData⟩ := carries.object
  obtain ⟨wellFormed, decoded⟩ :=
    decodeText_of_parse? (Envelope.ofJson decode) parsed
  have membersWellFormed := List.all_eq_true.1 (wellFormed_record members ▸ wellFormed)
  have fits : Fits Shape data ↔
      ∃ filled, fillAll (asOptional decode) none data.toList = .ok filled := by
    apply fits_iff_fillAll
    intro value member
    apply shape
    have isValue : value ∈ valuesOf "data" members := by
      rw [isData, Option.mem_toList]
      exact member
    obtain ⟨found, isMember, rfl⟩ := mem_valuesOf isValue
    exact membersWellFormed _ isMember
  rw [← isData] at fits
  have errorFilled : fillAll asText none (valuesOf "error" members) = .ok (some error) := by
    rw [isError]
    rfl
  have codeFilled : ∃ code, fillAll asText none (valuesOf "code" members) = .ok code := by
    obtain isNone | ⟨code, isCode⟩ := isCode
    · exact ⟨none, by rw [isNone]; rfl⟩
    · exact ⟨some code, by rw [isCode]; rfl⟩
  simp only [open?, decoded]
  cases result : Envelope.ofJson decode (.record members) with
  | ok envelope =>
      obtain ⟨filled, slot, code, isFilled, slotFilled, -, rfl⟩ :=
        (Envelope.ofJson_record_eq_ok_iff membersWellFormed).1 result
      rw [errorFilled] at slotFilled
      cases slotFilled
      exact .inl ⟨fits.2 ⟨filled, isFilled⟩, _, rfl, rfl⟩
  | error defect =>
      refine .inr ⟨fun fitting => ?_, rfl⟩
      obtain ⟨filled, isFilled⟩ := fits.1 fitting
      obtain ⟨code, isCodeFilled⟩ := codeFilled
      have opened := (Envelope.ofJson_record_eq_ok_iff membersWellFormed).2
        ⟨filled, some error, code, isFilled, errorFilled, isCodeFilled, rfl⟩
      exact absurd (result.symm.trans opened) (by simp)

end Opening

theorem sentData_shape (value : Json) (wellFormed : value.wellFormed = true) :
    (∃ hash, sentData value = .ok hash) ↔ Sent value := by
  rw [sentData, only_eq_ok_iff wellFormed, Sent]
  simp only [asText_eq_ok_iff]

theorem lookupData_shape (value : Json) (wellFormed : value.wellFormed = true) :
    (∃ transaction, lookupData value = .ok transaction) ↔ Known value :=
  only_eq_ok_iff wellFormed

section Reading

variable {body error : String} {data : Option Json}

theorem readSent_of_unfit (carries : Carries body error data) (unfit : ¬Fits Sent data)
    (status : Nat) :
    readSent (.answered status body) =
      .error (.decode "error decoding response body") := by
  obtain ⟨fits, -⟩ | ⟨-, failed⟩ := open?_of_carries carries sentData_shape status
  · exact absurd fits unfit
  · rw [readSent, failed]
    rfl

theorem readLookup_of_unfit (carries : Carries body error data)
    (unfit : ¬Fits Known data) (hash : String) (status : Nat) :
    readLookup hash (.answered status body) =
      .error (.decode "error decoding response body") := by
  obtain ⟨fits, -⟩ | ⟨-, failed⟩ := open?_of_carries carries lookupData_shape status
  · exact absurd fits unfit
  · rw [readLookup, failed]
    rfl

theorem readSent_of_fits (carries : Carries body error data) (fits : Fits Sent data)
    (isError : error ≠ "") (status : Nat) :
    readSent (.answered status body) = .error (.rejected error) := by
  obtain ⟨-, envelope, opened, rfl⟩ | ⟨unfit, -⟩ :=
    open?_of_carries carries sentData_shape status
  · rw [readSent, opened, Except.ok_bind]
    exact if_neg isError
  · exact absurd fits unfit

theorem readLookup_of_fits (carries : Carries body error data) (fits : Fits Known data)
    (hash : String) {status : Nat}
    (unknown : status = 404 ∨ "not found".toList <:+: error.toList) :
    readLookup hash (.answered status body) = .ok none := by
  obtain ⟨-, envelope, opened, rfl⟩ | ⟨unfit, -⟩ :=
    open?_of_carries carries lookupData_shape status
  · rw [readLookup, opened, Except.ok_bind]
    exact if_pos (unknown.imp_right Pieces.occurs_iff.2)
  · exact absurd fits unfit

/-- An error text decides what a reply means, unless the data hide it. -/
theorem errors_decide (carries : Carries body error data) (status : Nat) :
    ErrorDecides status body error data where
  rejected isError := by
    by_cases fits : Fits Sent data
    · exact iff_of_true (readSent_of_fits carries fits isError status) fits
    · rw [readSent_of_unfit carries fits]
      simp [fits]
  unknown hash decides := by
    by_cases fits : Fits Known data
    · exact iff_of_true (readLookup_of_fits carries fits hash decides) fits
    · rw [readLookup_of_unfit carries fits]
      simp [fits]
  sentHidden unfit := readSent_of_unfit carries unfit status
  knownHidden hash unfit := readLookup_of_unfit carries unfit hash status

end Reading

end Gateway

namespace Sample

/-- The body of a refusal, with other members beside the error. -/
def refusal : String :=
  "\x7b \"data\": null, \"warnings\": [1, 2.5], \"error\": \"transaction not found\" \x7d"

/-- Whether a value has the members of `refusal`. -/
def isRefusal : Json → Bool
  | .object [(some "data", .null), (some "warnings", _),
      (some "error", .string (some "transaction not found"))] => true
  | _ => false

theorem refusal_carries :
    Gateway.Carries refusal "transaction not found" (some .null) := by
  have read : (parse? refusal).any isRefusal = true := by decide +kernel
  obtain ⟨value, parsed, isValue⟩ := (Option.any_eq_true _ _).1 read
  unfold isRefusal at isValue
  split at isValue
  · exact ⟨[("data", .null), ("warnings", _), ("error", .text "transaction not found")],
      parsed, rfl, .inl rfl, rfl⟩
  · cases isValue

theorem refusal_decides :
    Gateway.Carries refusal "transaction not found" (some .null) ∧
      Gateway.readSent (.answered 400 refusal) =
        .error (.rejected "transaction not found") ∧
      Gateway.readLookup "aa" (.answered 200 refusal) = .ok none := by
  have decides (status : Nat) := Gateway.errors_decide refusal_carries status
  have fits (Shape : Json → Prop) : Gateway.Fits Shape (some .null) := by
    intro value member
    exact .inl (Option.some.inj member).symm
  have notFound : "not found".toList <:+: "transaction not found".toList :=
    Pieces.occurs_iff.1 (by decide +kernel)
  exact ⟨refusal_carries,
    ((decides 400).rejected (by decide)).2 (fits _),
    ((decides 200).unknown "aa" (.inr notFound)).2 (fits _)⟩

/-- The body of a refusal whose data are an empty object. -/
def hollow : String :=
  "\x7b \"data\": \x7b\x7d, \"error\": \"transaction not found\", \"code\": \"internal_issue\" \x7d"

/-- Whether a value has the members of `hollow`. -/
def isHollow : Json → Bool
  | .object [(some "data", .object []),
      (some "error", .string (some "transaction not found")),
      (some "code", .string (some "internal_issue"))] => true
  | _ => false

theorem hollow_carries :
    Gateway.Carries hollow "transaction not found" (some (.record [])) := by
  have read : (parse? hollow).any isHollow = true := by decide +kernel
  obtain ⟨value, parsed, isValue⟩ := (Option.any_eq_true _ _).1 read
  unfold isHollow at isValue
  split at isValue
  · exact ⟨[("data", .record []), ("error", .text "transaction not found"),
      ("code", .text "internal_issue")], parsed, rfl, .inr ⟨_, rfl⟩, rfl⟩
  · cases isValue

/-- The error of a body with hollow data is lost, on a submission and on a lookup. -/
theorem hollow_error_lost :
    Gateway.Carries hollow "transaction not found" (some (.record [])) ∧
      Gateway.readSent (.answered 400 hollow) ≠
        .error (.rejected "transaction not found") ∧
      Gateway.readLookup "aa" (.answered 404 hollow) ≠ .ok none := by
  have unfit {field : String} {Shape : Json → Prop} :
      ¬Gateway.Fits (Holds field Shape) (some (.record [])) := by
    intro fits
    obtain isNull | holds := fits _ rfl
    · cases isNull
    · exact not_holds_nil holds
  rw [Gateway.readSent_of_unfit hollow_carries unfit,
    Gateway.readLookup_of_unfit hollow_carries unfit]
  exact ⟨hollow_carries, by simp, by simp⟩

end Sample

end BatchRelay
