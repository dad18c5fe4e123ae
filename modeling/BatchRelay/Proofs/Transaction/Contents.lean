import BatchRelay.Proofs.Bytes.Messages
import BatchRelay.Proofs.Engine.Accepting
import BatchRelay.Proofs.Transaction.Amounts

/-!
# What a transaction signs

The texts of a transaction stand for numbers and bytes, and several texts may stand
for the same.  `Transaction.Signs` relates a transaction to what its texts stand
for.  The binary form is made of nothing else, and gives all of it back.
-/

namespace BatchRelay

theorem Utf8.encode_inj {left right : String} (same : encode left = encode right) :
    left = right := by
  have decoded := decode?_eq_some_iff.2 same
  rw [decode?_eq_some_iff.2 rfl] at decoded
  exact Option.some.inj decoded

/-- What the texts of a transaction stand for. -/
structure SignedContent where
  nonce : UInt64
  value : Nat
  /-- The public key of the receiver. -/
  receiver : List UInt8
  /-- The public key of the sender. -/
  sender : List UInt8
  gasPrice : UInt64
  gasLimit : UInt64
  data : List UInt8
  chainId : String
  version : UInt32
  signature : List UInt8
  options : UInt32
  /-- The public key of the guardian, if there is one. -/
  guardian : List UInt8
  guardianSignature : List UInt8
  deriving DecidableEq

namespace SignedContent

/-- The numbered fields of the binary form. -/
def fields (content : SignedContent) : List (Nat × Wire.Content) :=
  [(1, .number content.nonce.toNat),
    (2, .bytes (Amount.ofNat content.value)),
    (3, .bytes content.receiver),
    (5, .bytes content.sender),
    (7, .number content.gasPrice.toNat),
    (8, .number content.gasLimit.toNat),
    (9, .bytes content.data),
    (10, .bytes (Utf8.encode content.chainId)),
    (11, .number content.version.toNat),
    (12, .bytes content.signature),
    (13, .number content.options.toNat),
    (14, .bytes content.guardian),
    (15, .bytes content.guardianSignature)]

theorem fields_inj {left right : SignedContent}
    (same : left.fields = right.fields) : left = right := by
  simp only [fields, List.cons.injEq, Prod.mk.injEq, true_and, and_true,
    Wire.Content.number.injEq, Wire.Content.bytes.injEq, UInt64.toNat_inj,
    UInt32.toNat_inj] at same
  obtain ⟨nonce, value, receiver, sender, gasPrice, gasLimit, data, chainId, version,
    signature, options, guardian, guardianSignature⟩ := same
  cases left
  cases right
  simp only [SignedContent.mk.injEq]
  exact ⟨nonce, Amount.ofNat_inj value, receiver, sender, gasPrice, gasLimit, data,
    Utf8.encode_inj chainId, version, signature, options, guardian,
    guardianSignature⟩

/-- The binary form of two contents is the same only if they are. -/
theorem message_fields_inj {left right : SignedContent}
    (same : Wire.message left.fields = Wire.message right.fields) :
    left = right := by
  apply fields_inj
  apply Wire.message_inj
  · rfl
  · simp [fields]
  · exact same

end SignedContent

namespace Transaction

/-- Whether the texts of a transaction stand for these numbers and bytes.  An absent
field stands for no bytes, and absent options for zero. -/
structure Signs (transaction : Transaction) (content : SignedContent) : Prop where
  nonce : content.nonce = transaction.nonce
  value : Decimal.read? transaction.value.toList = some content.value
  receiver : Address.decode transaction.receiver = .ok content.receiver
  sender : Address.decode transaction.sender = .ok content.sender
  gasPrice : content.gasPrice = transaction.gasPrice
  gasLimit : content.gasLimit = transaction.gasLimit
  data : transaction.data.elim (some []) (fun text => Base64.decode? text.toList) =
    some content.data
  chainId : content.chainId = transaction.chainId
  version : content.version = transaction.version
  signature : Hex.decode? transaction.signature.toList = some content.signature
  options : content.options = transaction.options.getD 0
  guardian : transaction.guardian.elim (.ok []) Address.decode =
    .ok content.guardian
  guardianSignature : transaction.guardianSignature.elim (some [])
    (fun text => Hex.decode? text.toList) = some content.guardianSignature

theorem Signs.unique {transaction : Transaction} {content other : SignedContent}
    (signs : transaction.Signs content) (again : transaction.Signs other) :
    content = other := by
  have value := Option.some.inj (signs.value.symm.trans again.value)
  have receiver := Except.ok.inj (signs.receiver.symm.trans again.receiver)
  have sender := Except.ok.inj (signs.sender.symm.trans again.sender)
  have data := Option.some.inj (signs.data.symm.trans again.data)
  have signature := Option.some.inj (signs.signature.symm.trans again.signature)
  have guardian := Except.ok.inj (signs.guardian.symm.trans again.guardian)
  have guardianSignature :=
    Option.some.inj (signs.guardianSignature.symm.trans again.guardianSignature)
  cases content
  cases other
  simp only [SignedContent.mk.injEq]
  exact ⟨signs.nonce.trans again.nonce.symm, value, receiver, sender,
    signs.gasPrice.trans again.gasPrice.symm, signs.gasLimit.trans again.gasLimit.symm,
    data, signs.chainId.trans again.chainId.symm,
    signs.version.trans again.version.symm, signature,
    signs.options.trans again.options.symm, guardian, guardianSignature⟩

theorem hexField_eq_ok_iff {name text : String} {bytes : List UInt8} :
    hexField name text = .ok bytes ↔ Hex.decode? text.toList = some bytes := by
  unfold hexField
  cases Hex.decode? text.toList <;> simp

theorem dataField_eq_ok_iff {text : String} {bytes : List UInt8} :
    dataField text = .ok bytes ↔ Base64.decode? text.toList = some bytes := by
  unfold dataField
  cases Base64.decode? text.toList <;> simp

theorem optional_hexField_eq_ok_iff {name : String} {text : Option String}
    {bytes : List UInt8} :
    optional (hexField name) text = .ok bytes ↔
      text.elim (some []) (fun text => Hex.decode? text.toList) = some bytes := by
  cases text with
  | none => simp [optional]
  | some text => exact hexField_eq_ok_iff

theorem optional_dataField_eq_ok_iff {text : Option String} {bytes : List UInt8} :
    optional dataField text = .ok bytes ↔
      text.elim (some []) (fun text => Base64.decode? text.toList) = some bytes := by
  cases text with
  | none => simp [optional]
  | some text => exact dataField_eq_ok_iff

theorem optional_eq_elim (decode : String → Except EncodingError (List UInt8))
    (text : Option String) : optional decode text = text.elim (.ok []) decode := by
  cases text <;> rfl

/-- A transaction is encoded when its texts stand for something and its amount is
not too large. -/
theorem encode_eq_ok_iff {transaction : Transaction} {bytes : List UInt8} :
    transaction.encode = .ok bytes ↔
      ∃ content, transaction.Signs content ∧ content.value < Amount.bound ∧
        bytes = Wire.message content.fields := by
  simp only [encode, fields, Except.bind_eq_ok_iff, Pure.pure, Except.pure,
    Except.ok.injEq, Amount.encode_eq_ok_iff, hexField_eq_ok_iff,
    optional_hexField_eq_ok_iff, optional_dataField_eq_ok_iff]
  constructor
  · intro encoded
    obtain ⟨_, ⟨_, ⟨value, readsValue, small, rfl⟩, receiver, toReceiver, sender,
      fromSender, data, readsData, signature, readsSignature, guardian, readsGuardian,
      guardianSignature, readsGuardianSignature, rfl⟩, rfl⟩ := encoded
    rw [optional_eq_elim] at readsGuardian
    let content : SignedContent :=
      { nonce := transaction.nonce, value, receiver, sender
        gasPrice := transaction.gasPrice, gasLimit := transaction.gasLimit, data
        chainId := transaction.chainId, version := transaction.version, signature
        options := transaction.options.getD 0, guardian, guardianSignature }
    have signs : transaction.Signs content :=
      ⟨rfl, readsValue, toReceiver, fromSender, rfl, rfl, readsData, rfl, rfl,
        readsSignature, rfl, readsGuardian, readsGuardianSignature⟩
    exact ⟨content, signs, small, rfl⟩
  · intro encoded
    obtain ⟨content, signs, small, rfl⟩ := encoded
    have readsGuardian := signs.guardian
    rw [← optional_eq_elim] at readsGuardian
    refine ⟨content.fields, ⟨_, ⟨content.value, signs.value, small, rfl⟩, _,
      signs.receiver, _, signs.sender, _, signs.data, _, signs.signature, _,
      readsGuardian, _, signs.guardianSignature, ?_⟩, rfl⟩
    rw [← signs.nonce, ← signs.gasPrice, ← signs.gasLimit, ← signs.chainId,
      ← signs.version, ← signs.options]
    rfl

end Transaction

end BatchRelay
