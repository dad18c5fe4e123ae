import BatchRelay.Proofs.Transaction.Contents
import BatchRelay.Proofs.Transaction.Validity

/-!
# The signed encoding is faithful

Two transactions have the same binary form exactly if their texts stand for the
same numbers and bytes, however these are spelled.
-/

namespace BatchRelay

namespace Transaction

variable {left right : Transaction} {first second : List UInt8}

/-- The binary forms of two transactions are equal exactly if both transactions
sign the same content. -/
theorem encodings_eq_iff (leftEncodes : left.encode = .ok first)
    (rightEncodes : right.encode = .ok second) :
    first = second ↔ ∃ content, left.Signs content ∧ right.Signs content := by
  obtain ⟨leftContent, leftSigns, -, rfl⟩ := encode_eq_ok_iff.1 leftEncodes
  obtain ⟨rightContent, rightSigns, -, rfl⟩ := encode_eq_ok_iff.1 rightEncodes
  constructor
  · intro same
    have contents := SignedContent.message_fields_inj same
    exact ⟨leftContent, leftSigns, contents ▸ rightSigns⟩
  · intro shared
    obtain ⟨content, leftShared, rightShared⟩ := shared
    rw [leftSigns.unique leftShared, rightSigns.unique rightShared]

end Transaction

namespace Sample

/-- The content of `early` in other words: empty call data, written-out options,
a longer zero and a signature in capitals. -/
def respelled : Transaction :=
  { early.payload with
    value := "00"
    data := some ""
    options := some 0
    signature := "AB" }

/-- A transfer like `early` of another version. -/
def revised : Transaction :=
  { early.payload with version := 2 }

end Sample

theorem Sample.respelled_encodes_alike :
    ∃ first second third,
      early.payload.encode = .ok first ∧ respelled.encode = .ok second ∧
        revised.encode = .ok third ∧ first = second ∧ first ≠ third := by
  have encoded : ∀ transaction : Transaction,
      transaction.encode.toOption.isSome = true →
        ∃ bytes, transaction.encode = .ok bytes := by
    intro transaction isSome
    cases result : transaction.encode with
    | ok bytes => exact ⟨bytes, rfl⟩
    | error error =>
        rw [result] at isSome
        cases isSome
  obtain ⟨first, earlyEncodes⟩ := encoded early.payload (by decide +kernel)
  obtain ⟨second, respelledEncodes⟩ := encoded respelled (by decide +kernel)
  obtain ⟨third, revisedEncodes⟩ := encoded revised (by decide +kernel)
  obtain ⟨content, signs, -⟩ := Transaction.encode_eq_ok_iff.1 earlyEncodes
  have zero : Decimal.read? early.payload.value.toList = some 0 := by
    decide +kernel
  have noData : content.data = [] := (Option.some.inj signs.data).symm
  have respelledSigns : respelled.Signs content :=
    { signs with
      value := by
        rw [← signs.value, zero]
        decide +kernel
      data := by
        rw [noData]
        decide +kernel
      signature := by
        rw [← signs.signature]
        decide +kernel
      options := signs.options }
  refine ⟨first, second, third, earlyEncodes, respelledEncodes, revisedEncodes, ?_, ?_⟩
  · exact (Transaction.encodings_eq_iff earlyEncodes respelledEncodes).2
      ⟨content, signs, respelledSigns⟩
  · intro same
    obtain ⟨shared, earlySigns, revisedSigns⟩ :=
      (Transaction.encodings_eq_iff earlyEncodes revisedEncodes).1 same
    have versions := earlySigns.version.symm.trans revisedSigns.version
    exact absurd versions (by decide +kernel)

end BatchRelay
