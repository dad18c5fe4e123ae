import BatchRelay.Proofs.Engine.Checks
import BatchRelay.Proofs.Registry.Keys

/-!
# The spellings of an address

A public key does not fill the last symbol of its address, and there are two
remainders that a checksum may leave.  Any bits in the rest of that symbol and either
remainder are accepted, so a key has two times sixteen addresses and no more.  The
addresses are compared as texts: they are taken for the same only if key and spelling
are the same.
-/

namespace BatchRelay

namespace Address

/-- How a key is spelled: the remainder that the checksum leaves, and the bits after
the key in the last symbol. -/
@[ext]
structure Spelling where
  remainder : UInt32
  padding : List Bool
  accepted : remainder ∈ Bech32.accepted
  length : padding.length = 4
  deriving DecidableEq

namespace Spelling

/-- The spelling with the older checksum and no bits set after the key. -/
def canonical : Spelling :=
  ⟨1, List.replicate 4 false, by decide, rfl⟩

/-- The symbols of a key, five bits each. -/
def payload (spelling : Spelling) (key : List UInt8) : List Nat :=
  Bech32.numbersOf 5 (Bech32.bitsOfBytes key ++ spelling.padding)

/-- The address of a key. -/
def address (spelling : Spelling) (key : List UInt8) : String :=
  String.ofList (Bech32.text spelling.remainder readable (spelling.payload key))

/-- An address is a key in this spelling. -/
structure Spells (spelling : Spelling) (key : List UInt8) (address : String) : Prop where
  length : key.length = keyLength
  text : address = spelling.address key

/-- An address is compared by its key and its spelling, wherever it is compared. -/
structure Identifies (spelling : Spelling) (key : List UInt8) (address : String) :
    Prop where
  addresses : ∀ {spelling' : Spelling} {key' : List UInt8} {address' : String},
    spelling'.Spells key' address' →
      (address = address' ↔ spelling = spelling' ∧ key = key')
  batches : ∀ {spelling' : Spelling} {key' : List UInt8} {address' : String},
    spelling'.Spells key' address' → ∀ id id',
      (Records.key address id = Records.key address' id' ↔
        (spelling = spelling' ∧ key = key') ∧ id = id')
  senders : ∀ request : BatchRequest,
    request.checkSenders address = .ok () ↔
      ∀ transaction ∈ request.transactions.flatten, spelling.Spells key transaction.sender

variable {spelling spelling' : Spelling} {key key' : List UInt8} {address' : String}

/-- The symbols of a key are as many as its bits and the padding fill. -/
theorem payload_eq_iff (length : key.length = keyLength) {payload : List Nat} :
    spelling.payload key = payload ↔
      (∀ value ∈ payload, value < 32) ∧
        payload.flatMap Bech32.symbolBits =
          Bech32.bitsOfBytes key ++ spelling.padding := by
  have whole : 5 ∣ (Bech32.bitsOfBytes key ++ spelling.padding).length := by
    rw [List.length_append, Bech32.length_bitsOfBytes, length, spelling.length]
    decide
  rw [Spelling.payload, Bech32.numbersOf_eq_iff_of_dvd (by decide) whole,
    funext Bech32.symbolBits_eq_bitsOf]
  exact and_congr_right fun _ => eq_comm

theorem payload_spec (spelling : Spelling) (length : key.length = keyLength) :
    (∀ value ∈ spelling.payload key, value < 32) ∧
      (spelling.payload key).flatMap Bech32.symbolBits =
        Bech32.bitsOfBytes key ++ spelling.padding :=
  (payload_eq_iff length).1 rfl

theorem length_payload (length : key.length = keyLength) :
    (spelling.payload key).length = 52 := by
  rw [Spelling.payload, Bech32.numbersOf, List.length_map, List.length_range,
    List.length_append, Bech32.length_bitsOfBytes, length, spelling.length]
  rfl

theorem bytesOfBits_padded (spelling : Spelling) (key : List UInt8) :
    Bech32.bytesOfBits (Bech32.bitsOfBytes key ++ spelling.padding) = key := by
  refine Bech32.bytesOfBits_eq_iff.2 ⟨spelling.padding, ?_, rfl⟩
  rw [spelling.length]
  decide

theorem address_inj (length : key.length = keyLength) (length' : key'.length = keyLength)
    (same : spelling.address key = spelling'.address key') :
    spelling = spelling' ∧ key = key' := by
  obtain ⟨small, bits⟩ := payload_spec spelling length
  obtain ⟨small', bits'⟩ := payload_spec spelling' length'
  obtain ⟨remainders, payloads⟩ := Bech32.text_inj spelling.accepted spelling'.accepted
    small small' (String.ofList_injective same)
  rw [payloads, bits'] at bits
  have keys : key = key' := by
    rw [← bytesOfBits_padded spelling key, ← bits, bytesOfBits_padded]
  rw [keys] at bits
  exact ⟨Spelling.ext remainders (List.append_cancel_left bits).symm, keys⟩

end Spelling

theorem readable_spec :
    Bech32.readableOk readable = true ∧ readable.any Char.isLower = true ∧
      readable.any Char.isUpper = false := by
  decide

theorem decode_eq_ok_iff_spells {address : String} {key : List UInt8} :
    decode address = .ok key ↔ ∃ spelling : Spelling, spelling.Spells key address := by
  obtain ⟨isReadable, hasLower, noUpper⟩ := readable_spec
  rw [decode_eq_ok_iff, Bech32.decode?_eq_some_iff isReadable hasLower noUpper]
  constructor
  · intro decoded
    obtain ⟨⟨-, target, isAccepted, payload, small, isText, isKey⟩, length⟩ := decoded
    obtain ⟨padding, short, bits⟩ := Bech32.bytesOfBits_eq_iff.1 isKey
    have count : 5 * payload.length = 8 * key.length + padding.length := by
      rw [← Bech32.length_bitsOfBytes, ← List.length_append, ← bits,
        funext Bech32.symbolBits_eq_bitsOf, Bech32.length_flatMap_bitsOf]
    have four : padding.length = 4 := by
      rw [length, keyLength] at count
      omega
    refine ⟨⟨target, padding, isAccepted, four⟩, length, ?_⟩
    rw [← String.toList_inj, Spelling.address, String.toList_ofList,
      (Spelling.payload_eq_iff length).2 ⟨small, bits⟩, isText]
  · intro spelled
    obtain ⟨spelling, length, rfl⟩ := spelled
    obtain ⟨small, bits⟩ := Spelling.payload_spec spelling length
    refine ⟨⟨?_, spelling.remainder, spelling.accepted, spelling.payload key, small, ?_, ?_⟩,
      length⟩
    · rw [Spelling.address, String.toList_ofList, Bech32.length_text,
        Spelling.length_payload length]
      decide
    · rw [Spelling.address, String.toList_ofList]
    · rw [bits, Spelling.bytesOfBits_padded]

namespace Spelling

variable {spelling spelling' : Spelling} {key key' : List UInt8} {address address' : String}

theorem Spells.eq_iff (spells : spelling.Spells key address)
    (spells' : spelling'.Spells key' address') :
    address = address' ↔ spelling = spelling' ∧ key = key' := by
  constructor
  · intro same
    exact address_inj spells.length spells'.length
      (spells.text.symm.trans (same.trans spells'.text))
  · rintro ⟨rfl, rfl⟩
    exact spells.text.trans spells'.text.symm

theorem Spells.clean (spells : spelling.Spells key address) : Clean address :=
  clean_of_decode (decode_eq_ok_iff_spells.2 ⟨spelling, spells⟩)

theorem Spells.identifies (spells : spelling.Spells key address) :
    spelling.Identifies key address where
  addresses spells' := spells.eq_iff spells'
  batches spells' id id' := by
    rw [← spells.eq_iff spells']
    constructor
    · exact Records.key_inj spells.clean spells'.clean
    · rintro ⟨rfl, rfl⟩
      rfl
  senders request := by
    rw [BatchRequest.checkSenders_eq_ok_iff]
    refine forall₂_congr fun transaction _ => ?_
    constructor
    · intro same
      rwa [same]
    · intro spellsSender
      exact (spellsSender.eq_iff spells).2 ⟨rfl, rfl⟩

end Spelling

/-- How an address is read as a key, and what it is compared by. -/
structure ReadBySpelling (address : String) (key : List UInt8) : Prop where
  accepted : decode address = .ok key ↔ ∃ spelling : Spelling, spelling.Spells key address
  /-- To be read is to be the canonical address of the key, unless the address spells
  that key in another way. -/
  canonical : (decode address = .ok key ↔ Spelling.canonical.Spells key address) ↔
    ∀ spelling : Spelling, spelling.Spells key address → spelling = .canonical
  identified : ∀ spelling : Spelling, spelling.Spells key address →
    spelling.Identifies key address

/-- Exactly the spellings of keys are addresses, and addresses are compared by key and
spelling. -/
theorem spellings_decide (address : String) (key : List UInt8) :
    ReadBySpelling address key := by
  refine ⟨decode_eq_ok_iff_spells, ?_, fun spelling spells => spells.identifies⟩
  rw [decode_eq_ok_iff_spells]
  constructor
  · intro onlyCanonical spelling spells
    have spellsCanonical := onlyCanonical.1 ⟨spelling, spells⟩
    exact ((spells.eq_iff spellsCanonical).1 rfl).1
  · intro onlyCanonical
    constructor
    · intro decoded
      obtain ⟨spelling, spells⟩ := decoded
      rwa [onlyCanonical spelling spells] at spells
    · exact fun spells => ⟨_, spells⟩

end Address

namespace Sample

/-- The key of `alice`. -/
def aliceKey : List UInt8 :=
  [0x01, 0x39, 0x47, 0x2e, 0xff, 0x68, 0x86, 0x77, 0x1a, 0x98, 0x2f, 0x30, 0x83, 0xda,
    0x5d, 0x42, 0x1f, 0x24, 0xc2, 0x91, 0x81, 0xe6, 0x38, 0x88, 0x22, 0x8d, 0xc8, 0x1c,
    0xa6, 0x0d, 0x69, 0xe1]

/-- The key of `alice` with the newer checksum. -/
def aliceAgain : String :=
  "erd1qyu5wthldzr8wx5c9ucg8kjagg0jfs53s8nr3zpz3hypefsdd8ss3ynkw4"

/-- The key of `alice` with a bit set after it. -/
def alicePadded : String :=
  "erd1qyu5wthldzr8wx5c9ucg8kjagg0jfs53s8nr3zpz3hypefsdd8s3ewh0k9"

def newer : Address.Spelling :=
  ⟨0x2bc830a3, List.replicate 4 false, by decide, rfl⟩

def padded : Address.Spelling :=
  ⟨1, [false, false, false, true], by decide, rfl⟩

theorem alice_spelled : Address.Spelling.canonical.Spells aliceKey alice :=
  ⟨rfl, by decide +kernel⟩

theorem aliceAgain_spelled : newer.Spells aliceKey aliceAgain :=
  ⟨rfl, by decide +kernel⟩

theorem alicePadded_spelled : padded.Spells aliceKey alicePadded :=
  ⟨rfl, by decide +kernel⟩

theorem alice_kept_apart :
    newer.Spells aliceKey aliceAgain ∧
      Address.Spelling.canonical.Identifies aliceKey alice ∧
      Records.key alice "b" ≠ Records.key aliceAgain "b" := by
  have identifies := (Address.spellings_decide alice aliceKey).identified _ alice_spelled
  refine ⟨aliceAgain_spelled, identifies, fun same => ?_⟩
  have spellings := ((identifies.batches aliceAgain_spelled "b" "b").1 same).1.1
  exact absurd spellings (by decide)

/-- Addresses with another checksum or with bits set after the key are accepted for a
key that has a canonical address. -/
theorem alice_accepted_again :
    (∀ address ∈ [alice, aliceAgain, alicePadded], Address.decode address = .ok aliceKey) ∧
      alice = Address.Spelling.canonical.address aliceKey ∧
      aliceAgain ≠ alice ∧ alicePadded ≠ alice := by
  refine ⟨?_, alice_spelled.text, by decide, by decide⟩
  simp only [List.forall_mem_cons, Address.decode_eq_ok_iff_spells]
  exact ⟨⟨_, alice_spelled⟩, ⟨_, aliceAgain_spelled⟩, ⟨_, alicePadded_spelled⟩,
    List.forall_mem_nil _⟩

end Sample

end BatchRelay
