import BatchRelay.Proofs.Registry.Keys

/-!
# Checkpoints name their nonces

A stored nonce is read back as it was written, and no two shards have the same
key.
-/

namespace BatchRelay

namespace Checkpoints

theorem key_inj {left right : UInt32} (same : key left = key right) :
    left = right := by
  have numerals := Decimal.ofNat_inj
    (String.ofList_injective (Pieces.append_cancel same))
  exact UInt32.toNat_inj.1 numerals

@[simp] theorem key_eq_iff {left right : UInt32} :
    key left = key right ↔ left = right :=
  ⟨key_inj, congrArg key⟩

/-- The text that is stored for a nonce. -/
def encode (nonce : UInt64) : String :=
  String.ofList (Decimal.ofNat nonce.toNat)

theorem readDigits_eq_ok {digits : List Char} {number : Nat}
    (areDigits : ∀ character ∈ digits, character.isDigit = true)
    (small : Nat.ofDigitChars 10 digits number < UInt64.size) :
    readDigits number digits =
      .ok (UInt64.ofNat (Nat.ofDigitChars 10 digits number)) := by
  induction digits generalizing number with
  | nil => rfl
  | cons digit digits induction =>
      rcases List.forall_mem_cons.1 areDigits with ⟨isDigit, others⟩
      rw [Nat.ofDigitChars_cons, Nat.mul_comm] at small ⊢
      -- Further digits only make a number larger.
      have grows : number * 10 + (digit.toNat - '0'.toNat) < UInt64.size := by
        rw [Nat.ofDigitChars_eq_ofDigitChars_zero] at small
        have bound := Nat.le_mul_of_pos_left
          (number * 10 + (digit.toNat - '0'.toNat))
          (Nat.pow_pos (by decide) : 0 < 10 ^ digits.length)
        omega
      rw [readDigits, if_pos isDigit, if_pos grows]
      exact induction others small

theorem parse_ofNat {number : Nat} (small : number < UInt64.size) :
    parse (Decimal.ofNat number) = .ok (UInt64.ofNat number) := by
  have areDigits : ∀ character ∈ Decimal.ofNat number,
      character.isDigit = true := fun _ => Decimal.isDigit_of_mem_ofNat
  have value : Nat.ofDigitChars 10 (Decimal.ofNat number) 0 = number :=
    Decimal.value_ofNat number
  have read := readDigits_eq_ok areDigits (value.symm ▸ small)
  rw [value] at read
  unfold parse
  split
  case h_1 empty => exact absurd empty Nat.toDigits_ne_nil
  case h_2 plus =>
    rw [plus] at areDigits
    exact absurd (areDigits '+' List.mem_cons_self) (by decide)
  case h_3 plus =>
    rw [plus] at areDigits
    exact absurd (areDigits '+' List.mem_cons_self) (by decide)
  case h_4 => exact read

theorem decode_encode (nonce : UInt64) : decode (encode nonce) = .ok nonce := by
  have parsed := parse_ofNat nonce.toNat_lt_size
  rw [decode, encode, String.toList_ofList, parsed, UInt64.ofNat_toNat]

end Checkpoints

end BatchRelay
