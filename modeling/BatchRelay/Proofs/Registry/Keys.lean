import BatchRelay.Registry.Checkpoints
import BatchRelay.Registry.Routes
import BatchRelay.Engine.Lease
import BatchRelay.Transaction.Encoding
import BatchRelay.Proofs.Bytes.SymbolTexts

/-!
# Keys and routes name what they are made of

The four kinds of keys start differently, so no two of them meet.  A record key
gives its address and its identifier back when the address holds no colon, and
a route gives them back when neither holds a semicolon.  Both hold of every
address that decodes to a public key.
-/

namespace BatchRelay

namespace Pieces

theorem leads_append (leading text : String) :
    leads leading (leading ++ text) = true := by
  simp [leads]

theorem append_cancel {leading left right : String}
    (same : leading ++ left = leading ++ right) : left = right := by
  have characters := congrArg String.toList same
  simpa [String.toList_inj] using characters

theorem field_inj {separator : Char} {left right : List Char}
    {leftRest rightRest : List Char} (leftFree : separator ∉ left)
    (rightFree : separator ∉ right)
    (same : left ++ separator :: leftRest = right ++ separator :: rightRest) :
    left = right ∧ leftRest = rightRest := by
  have cuts := congrArg (cut separator) same
  rw [cut_of_not_mem leftFree, cut_of_not_mem rightFree] at cuts
  simpa using cuts

end Pieces

/-- Whether a key is the key of a record. -/
def Records.isKey (key : String) : Bool :=
  Pieces.leads "batch:" key

/-- Whether a key is the key of a route. -/
def Routes.isKey (key : String) : Bool :=
  Pieces.leads leading key

@[simp] theorem Records.isKey_key (address id : String) :
    isKey (key address id) = true := by
  simp [isKey, key, Pieces.leads]

@[simp] theorem Records.isKey_routeKey (hash : String) :
    isKey (Routes.key hash) = false := by
  simp [isKey, Routes.key, Routes.leading, Pieces.leads, List.isPrefixOf]

@[simp] theorem Records.isKey_checkpointKey (shard : UInt32) :
    isKey (Checkpoints.key shard) = false := by
  simp [isKey, Checkpoints.key, Pieces.leads, List.isPrefixOf]

@[simp] theorem Records.isKey_leaseKey (lease : Lease) :
    isKey lease.key = false := by
  simp [isKey, Lease.key, Pieces.leads, List.isPrefixOf]

@[simp] theorem Routes.isKey_key (hash : String) : isKey (key hash) = true :=
  Pieces.leads_append _ _

@[simp] theorem Routes.isKey_recordKey (address id : String) :
    isKey (Records.key address id) = false := by
  simp [isKey, Records.key, leading, Pieces.leads, List.isPrefixOf]

@[simp] theorem Routes.isKey_checkpointKey (shard : UInt32) :
    isKey (Checkpoints.key shard) = false := by
  simp [isKey, Checkpoints.key, leading, Pieces.leads, List.isPrefixOf]

@[simp] theorem Routes.isKey_leaseKey (lease : Lease) :
    isKey lease.key = false := by
  simp [isKey, Lease.key, leading, Pieces.leads, List.isPrefixOf]

@[simp] theorem Records.key_ne_routeKey (address id hash : String) :
    key address id ≠ Routes.key hash := by
  intro same
  have kinds := congrArg isKey same
  simp at kinds

@[simp] theorem Routes.key_ne_recordKey (address id hash : String) :
    key hash ≠ Records.key address id :=
  (Records.key_ne_routeKey address id hash).symm

@[simp] theorem Checkpoints.key_ne_recordKey (shard : UInt32)
    (address id : String) : key shard ≠ Records.key address id := by
  intro same
  have isKey := Records.isKey_checkpointKey shard
  rw [same, Records.isKey_key] at isKey
  cases isKey

@[simp] theorem Checkpoints.key_ne_routeKey (shard : UInt32) (hash : String) :
    key shard ≠ Routes.key hash := by
  intro same
  have isKey := Routes.isKey_checkpointKey shard
  rw [same, Routes.isKey_key] at isKey
  cases isKey

@[simp] theorem Records.key_ne_checkpointKey (shard : UInt32)
    (address id : String) : key address id ≠ Checkpoints.key shard :=
  (Checkpoints.key_ne_recordKey shard address id).symm

@[simp] theorem Routes.key_ne_checkpointKey (shard : UInt32) (hash : String) :
    key hash ≠ Checkpoints.key shard :=
  (Checkpoints.key_ne_routeKey shard hash).symm

theorem Routes.key_inj {left right : String} (same : key left = key right) :
    left = right :=
  Pieces.append_cancel same

@[simp] theorem Routes.key_eq_iff {left right : String} :
    key left = key right ↔ left = right :=
  ⟨key_inj, congrArg key⟩

theorem Routes.hash?_key (hash : String) : hash? (key hash) = some hash := by
  simp [hash?, key, Pieces.leads_append]

/-- A route key is the key of the hash that it holds. -/
theorem Routes.key_of_hash? {text hash : String}
    (held : hash? text = some hash) : text = key hash := by
  unfold hash? at held
  split at held
  case isFalse => cases held
  case isTrue leads =>
    obtain ⟨rest, split⟩ := List.isPrefixOf_iff_prefix.1 leads
    cases held
    apply String.toList_inj.1
    simp [key, ← split]

/-- An address without the separators of keys and routes. -/
def Address.Clean (address : String) : Prop :=
  ':' ∉ address.toList ∧ ';' ∉ address.toList

theorem Records.key_inj {address address' id id' : String}
    (clean : Address.Clean address) (clean' : Address.Clean address')
    (same : key address id = key address' id') :
    address = address' ∧ id = id' := by
  have characters := congrArg String.toList same
  simp only [key, String.toList_append, List.append_assoc] at characters
  have fields := Pieces.field_inj clean.1 clean'.1
    (List.append_cancel_left characters)
  simpa [String.toList_inj] using fields

/-- A stored route is read back with the same place. -/
theorem Route.decode_encode {route : Route} (id : ';' ∉ route.batchId.toList)
    (address : ';' ∉ route.address.toList) :
    (decode route.encode).batchId = route.batchId ∧
      (decode route.encode).address = route.address := by
  simp [decode, encode, Pieces.cut_of_not_mem id, Pieces.cut_of_not_mem address]

namespace Bech32

theorem mapM_defined {α β : Type} {change : α → Option β} {values : List α}
    {results : List β} (mapped : values.mapM change = some results) {value : α}
    (member : value ∈ values) : ∃ result, change value = some result := by
  induction values generalizing results with
  | nil => cases member
  | cons head tail induction =>
      simp only [List.mapM_cons, Option.bind_eq_bind,
        Option.bind_eq_some_iff] at mapped
      obtain ⟨first, ofHead, rest, ofTail, -⟩ := mapped
      obtain rfl | inTail := List.mem_cons.1 member
      · exact ⟨first, ofHead⟩
      · exact induction ofTail inTail

/-- A text with a valid checksum consists of its readable part, the separator
and data symbols. -/
theorem mem_of_decode? {text readable : List Char} {bytes : List UInt8}
    (decoded : decode? text = some (readable, bytes)) {character : Char}
    (member : character ∈ text) :
    character ∈ readable ∨ character = '1' ∨
      ∃ value, symbolValue? character = some value := by
  obtain ⟨data, symbols, split, read, -⟩ := decode?_eq_some.1 decoded
  rw [(separate?_eq_some_iff.1 split).1] at member
  simp only [List.mem_append, List.mem_cons] at member
  obtain inFront | atSeparator | inData := member
  · exact .inl inFront
  · exact .inr (.inl atSeparator)
  · exact .inr (.inr (mapM_defined read inData))

end Bech32

theorem Address.decode_eq_ok_iff {address : String} {publicKey : List UInt8} :
    decode address = .ok publicKey ↔
      Bech32.decode? address.toList = some (readable, publicKey) ∧
        publicKey.length = keyLength := by
  unfold decode
  cases found : Bech32.decode? address.toList with
  | none => simp
  | some parts =>
      simp only [Option.some.injEq]
      split
      case isTrue fits =>
        rw [Except.ok.injEq, Prod.ext_iff]
        constructor
        · rintro rfl
          exact ⟨⟨fits.1, rfl⟩, fits.2⟩
        · exact fun same => same.1.2
      case isFalse unfit =>
        simp only [reduceCtorEq, false_iff]
        rintro ⟨rfl, length⟩
        exact unfit ⟨rfl, length⟩

theorem Address.not_mem_of_decode {address : String} {publicKey : List UInt8}
    (decoded : decode address = .ok publicKey) {character : Char}
    (unread : character ∉ readable) (noSeparator : character ≠ '1')
    (noSymbol : Bech32.symbolValue? character = none) :
    character ∉ address.toList := by
  intro member
  obtain inFront | atSeparator | ⟨value, isSymbol⟩ :=
    Bech32.mem_of_decode? (decode_eq_ok_iff.1 decoded).1 member
  · exact unread inFront
  · exact noSeparator atSeparator
  · rw [noSymbol] at isSymbol
    cases isSymbol

theorem Address.clean_of_decode {address : String} {publicKey : List UInt8}
    (decoded : decode address = .ok publicKey) : Clean address :=
  ⟨not_mem_of_decode decoded (by decide) (by decide) (by decide),
    not_mem_of_decode decoded (by decide) (by decide) (by decide)⟩

end BatchRelay
