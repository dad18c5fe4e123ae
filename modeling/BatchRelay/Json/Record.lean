import BatchRelay.Json.Reader

/-!
# Records in JSON

A record is given as an object of named members or as an array of its fields
in their fixed order.  Members with unknown names are skipped, but must be
JSON; a field that is given twice is a fault.

A value is taken in the order of its text, so the first fault in the text is
the one that is reported.  There are two faults: the text is not JSON, or it is
JSON of another shape than the record has.
-/

namespace BatchRelay

/-- Why a text does not stand for a record. -/
inductive Defect where
  /-- The text stops being JSON. -/
  | malformed
  /-- The JSON does not have the shape of the record. -/
  | shape
  deriving DecidableEq

namespace Json

/-- The fault of a value that stands where another kind of value belongs. -/
def mismatch {α : Type} : Json → Except Defect α
  | .broken | .string none => .error .malformed
  | .number _ whole scale =>
      .error (if inRange whole scale then .shape else .malformed)
  | _ => .error .shape

/-- Skips a value that nobody asks for. -/
def skip (value : Json) : Except Defect Unit :=
  if value.wellFormed then .ok () else .error .malformed

/-- A string. -/
def asText : Json → Except Defect String
  | .string (some text) => .ok text
  | other => mismatch other

/-- A natural number below `2 ^ 64`. -/
def asWord64 : Json → Except Defect UInt64
  | .number false whole none =>
      if whole < UInt64.size then .ok (UInt64.ofNat whole)
      else mismatch (.number false whole none)
  | other => mismatch other

/-- A natural number below `2 ^ 32`. -/
def asWord32 : Json → Except Defect UInt32
  | .number false whole none =>
      if whole < UInt32.size then .ok (UInt32.ofNat whole)
      else mismatch (.number false whole none)
  | other => mismatch other

/-- `null`, or a value. -/
def asOptional {α : Type} (decode : Json → Except Defect α) :
    Json → Except Defect (Option α)
  | .null => .ok none
  | other => (decode other).map some

/-- An array of values of one kind. -/
def asList {α : Type} (decode : Json → Except Defect α) :
    Json → Except Defect (List α)
  | .array elements => elements.mapM decode
  | other => mismatch other

/-- One name out of a list of names: as a string, or as the only member of an
object, whose value is `null`. -/
def asName : Json → Except Defect String
  | .string (some name) => .ok name
  | .object [(some name, .null)] => .ok name
  | other => mismatch other

/-- Fills the slot of a field.  A slot is filled once. -/
def fill {α : Type} (slot : Option α) (value : Except Defect α) :
    Except Defect (Option α) :=
  match slot with
  | some _ => .error .shape
  | none => value.map some

/-- The value of a field that has to be given. -/
def need {α : Type} : Option α → Except Defect α
  | some value => .ok value
  | none => .error .shape

/-- Takes one member into a draft of a record. -/
def takeMember {δ : Type} (take : δ → String → Json → Except Defect δ) (draft : δ) :
    Option String × Json → Except Defect δ
  | (some name, value) => take draft name value
  | (none, _) => .error .malformed

/-- Takes all members of an object into a draft. -/
def takeMembers {δ : Type} (take : δ → String → Json → Except Defect δ)
    (draft : δ) (members : List (Option String × Json)) : Except Defect δ :=
  members.foldlM (takeMember take) draft

/-- Takes a record into a draft: the members of an object, or the elements of
an array under the names of the fields.  An array with more elements than there
are fields is not ended where it should be. -/
def takeRecord {δ : Type} (names : List String)
    (take : δ → String → Json → Except Defect δ) (draft : δ) :
    Json → Except Defect δ
  | .object members => takeMembers take draft members
  | .array elements => do
      let named := (names.zip elements).map fun (name, value) => (some name, value)
      let draft ← takeMembers take draft named
      if names.length < elements.length then .error .malformed else .ok draft
  | other => mismatch other

/-- The record that a whole text stands for. -/
def decodeText {α : Type} (decode : Json → Except Defect α) (source : String) :
    Except Defect α := do
  let (value, remainder) := readFront source.toList
  let record ← decode value
  if skipBlanks remainder = [] then .ok record else .error .malformed

/-- The record at the front of a text; what comes after it does not matter. -/
def decodeFront {α : Type} (decode : Json → Except Defect α) (source : String) :
    Except Defect α :=
  decode (readFront source.toList).1

/-- A member that may be absent, as the members to write for it. -/
def optionalMember {α : Type} (name : String) (encode : α → Json) :
    Option α → List (String × Json)
  | some value => [(name, encode value)]
  | none => []

end Json

end BatchRelay
