import BatchRelay.Bytes.Base64
import BatchRelay.Bytes.Bech32
import BatchRelay.Bytes.Blake2b
import BatchRelay.Bytes.Hex
import BatchRelay.Bytes.Wire
import BatchRelay.Failure
import BatchRelay.Text.Utf8
import BatchRelay.Transaction.Basic

/-!
# The hash of a transaction

The network names a transaction by the hash of its binary encoding.  The
encoding is a message of numbered fields; the texts of the payload are decoded
into the bytes that they stand for first, and a text that cannot be decoded
makes the whole transaction unencodable.
-/

namespace BatchRelay

namespace Address

/-- The readable part of every address. -/
def readable : List Char :=
  "erd".toList

/-- Number of bytes of a public key. -/
def keyLength : Nat :=
  32

/-- The public key behind an address. -/
def decode (address : String) : Except EncodingError (List UInt8) :=
  match Bech32.decode? address.toList with
  | some (part, key) =>
      if part = readable ∧ key.length = keyLength then
        .ok key
      else
        .error (.address address)
  | none => .error (.address address)

end Address

namespace Amount

/-- Number of bytes of an amount. -/
def size : Nat :=
  32

/-- An amount in unsigned binary. -/
abbrev Word : Type :=
  BitVec (8 * size)

/-- The number that a digit stands for. -/
def digit (character : Char) : Word :=
  BitVec.ofNat (8 * size) (character.toNat - '0'.toNat)

/-- An amount with one more digit, unless that takes too many bits. -/
def append? (amount : Word) (character : Char) : Option Word :=
  if BitVec.umulOverflow amount 10 then
    none
  else if BitVec.uaddOverflow (amount * 10) (digit character) then
    none
  else
    some (amount * 10 + digit character)

/-- The amount that a run of digits stands for. -/
def ofDigits? (digits : List Char) : Option Word :=
  digits.foldlM append? 0

/-- All bytes of an amount, the highest first. -/
def bytes (amount : Word) : List UInt8 :=
  (List.range size).map fun place =>
    UInt8.ofNat (amount >>> (8 * (size - 1 - place))).toNat

/-- A sign byte and the bytes of an amount without leading zeros; zero keeps
one. -/
def ofWord (amount : Word) : List UInt8 :=
  if amount = 0 then [0, 0] else 0 :: (bytes amount).dropWhile (· = 0)

/-- The bytes of the amount that a numeral stands for. -/
def encode (value : String) : Except EncodingError (List UInt8) :=
  if value = "" ∨ ¬value.toList.all Char.isDigit then
    .error (.value value)
  else
    match ofDigits? value.toList with
    | some amount => .ok (ofWord amount)
    | none => .error (.value value)

end Amount

namespace Transaction

/-- The bytes behind a hexadecimal field. -/
def hexField (name text : String) : Except EncodingError (List UInt8) :=
  match Hex.decode? text.toList with
  | some bytes => .ok bytes
  | none => .error (.field name "hex")

/-- The bytes behind the call data. -/
def dataField (text : String) : Except EncodingError (List UInt8) :=
  match Base64.decode? text.toList with
  | some bytes => .ok bytes
  | none => .error (.field "data" "base64")

/-- The bytes of a field that may be absent; an absent field has none. -/
def optional (decode : String → Except EncodingError (List UInt8)) :
    Option String → Except EncodingError (List UInt8)
  | some text => decode text
  | none => .ok []

/-- The numbered fields of the binary form. -/
def fields (transaction : Transaction) :
    Except EncodingError (List (Nat × Wire.Content)) := do
  let value ← Amount.encode transaction.value
  let receiver ← Address.decode transaction.receiver
  let sender ← Address.decode transaction.sender
  let data ← optional dataField transaction.data
  let signature ← hexField "signature" transaction.signature
  let guardian ← optional Address.decode transaction.guardian
  let guardianSignature ←
    optional (hexField "guardian signature") transaction.guardianSignature
  return [
    (1, .number transaction.nonce.toNat),
    (2, .bytes value),
    (3, .bytes receiver),
    (5, .bytes sender),
    (7, .number transaction.gasPrice.toNat),
    (8, .number transaction.gasLimit.toNat),
    (9, .bytes data),
    (10, .bytes (Utf8.encode transaction.chainId)),
    (11, .number transaction.version.toNat),
    (12, .bytes signature),
    (13, .number (transaction.options.getD 0).toNat),
    (14, .bytes guardian),
    (15, .bytes guardianSignature)]

/-- The binary form that is signed and hashed. -/
def encode (transaction : Transaction) : Except EncodingError (List UInt8) := do
  return Wire.message (← transaction.fields)

/-- The name that the network gives to a transaction. -/
def hash (transaction : Transaction) : Except EncodingError String := do
  let bytes ← transaction.encode
  return String.ofList (Hex.encode (Blake2b.hash bytes))

end Transaction

end BatchRelay
