import BatchRelay.Text.Utf8

/-!
# The order of texts by their bytes

Texts are ordered by their characters, which gives the same order as comparing
their UTF-8 bytes.  Only the first characters that differ matter: the bytes of
the greater one are greater, whatever follows.
-/

namespace BatchRelay

namespace Utf8

variable {left right : Char} {front back : List UInt8}

theorem encode_eq_flatMap (text : String) :
    encode text = text.toList.flatMap String.utf8EncodeChar := by
  rw [encode, ← String.utf8Encode_toList, List.utf8Encode, List.data_toByteArray]

/-- The first digits that differ decide which number is smaller. -/
theorem digits_lt {less greater : Nat} (order : less < greater) :
    less / 64 < greater / 64 ∨
      less / 64 = greater / 64 ∧ less % 64 < greater % 64 := by
  omega

theorem encode_append (left right : String) :
    encode (left ++ right) = encode left ++ encode right := by
  simp [encode_eq_flatMap]

theorem lt_of_append_lt_append {common : List UInt8}
    (order : common ++ front < common ++ back) : front < back := by
  induction common with
  | nil => exact order
  | cons byte common induction =>
      obtain less | ⟨-, rest⟩ := List.cons_lt_cons_iff.1 order
      · exact absurd less (UInt8.lt_irrefl byte)
      · exact induction rest

/-- The bytes of the greater character are greater. -/
theorem encodeChar_append_lt (order : left < right) :
    String.utf8EncodeChar left ++ front < String.utf8EncodeChar right ++ back := by
  have last : right.val.toNat < 2097152 := by
    have bound := right.valid
    simp only [UInt32.isValidChar, Nat.isValidChar] at bound
    omega
  have lowest : left.val.toNat < right.val.toNat := order
  simp only [String.utf8EncodeChar]
  generalize left.val.toNat = less at lowest ⊢
  generalize right.val.toNat = greater at lowest last ⊢
  have second := digits_lt lowest
  have third (order : less / 64 < greater / 64) := digits_lt order
  have fourth (order : less / 64 / 64 < greater / 64 / 64) := digits_lt order
  simp only [Nat.div_div_eq_div_mul, Nat.reduceMul] at third fourth
  repeat' split
  all_goals
    simp (disch := omega) only [List.cons_append, List.nil_append,
      List.cons_lt_cons_iff, UInt8.lt_iff_toNat_lt, ← UInt8.toNat_inj,
      UInt8.toNat_ofNat', Nat.reducePow, Nat.mod_eq_of_lt]
    omega

theorem flatMap_encodeChar_lt {left right : List Char} (order : left < right) :
    left.flatMap String.utf8EncodeChar < right.flatMap String.utf8EncodeChar := by
  induction order with
  | @nil head tail =>
      obtain ⟨first, others, bytes⟩ :=
        List.exists_cons_of_ne_nil (String.utf8EncodeChar_ne_nil (c := head))
      rw [List.flatMap_cons, bytes]
      exact List.nil_lt_cons _ _
  | rel order => exact encodeChar_append_lt order
  | cons _ induction => exact List.append_left_lt induction

/-- The bytes of the greater text are greater. -/
theorem encode_lt_encode {left right : String} (order : left < right) :
    encode left < encode right := by
  rw [encode_eq_flatMap, encode_eq_flatMap]
  exact flatMap_encodeChar_lt order

end Utf8

end BatchRelay
