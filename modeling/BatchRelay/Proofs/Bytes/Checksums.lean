import Mathlib.Algebra.Group.Nat.Defs
import BatchRelay.Bytes.Bech32

/-!
# Checksums of base 32 text

The remainder of the checksum polynomial has thirty bits, and six symbols have as
many.  What six last symbols add to the remainder is the number that they are the
digits of, so there is exactly one checksum for each text and each constant.
-/

namespace BatchRelay

namespace Bech32

/-- Adds the generators that the high bits of a remainder ask for. -/
def addTaps (high : UInt32) (taps : List (UInt32 × UInt32)) (start : UInt32) : UInt32 :=
  taps.foldl
    (fun sum tap => if (high >>> tap.1) &&& 1 = 1 then sum ^^^ tap.2 else sum) start

theorem addTaps_xor (high : UInt32) (taps : List (UInt32 × UInt32))
    (start other : UInt32) :
    addTaps high taps (start ^^^ other) = addTaps high taps start ^^^ other := by
  induction taps generalizing start with
  | nil => rfl
  | cons tap taps induction =>
      simp only [addTaps, List.foldl_cons] at induction ⊢
      split
      case isTrue =>
        rw [← induction, UInt32.xor_assoc, UInt32.xor_comm other, ← UInt32.xor_assoc]
      case isFalse => exact induction start

theorem addTaps_lt {high : UInt32} {taps : List (UInt32 × UInt32)} {start : UInt32}
    (small : start.toNat < 2 ^ 30) (tapsSmall : ∀ tap ∈ taps, tap.2.toNat < 2 ^ 30) :
    (addTaps high taps start).toNat < 2 ^ 30 := by
  induction taps generalizing start with
  | nil => exact small
  | cons tap taps induction =>
      obtain ⟨tapSmall, othersSmall⟩ := List.forall_mem_cons.1 tapsSmall
      have next (start : UInt32) (small : start.toNat < 2 ^ 30) :=
        @induction start small othersSmall
      simp only [addTaps, List.foldl_cons] at next ⊢
      split
      case isTrue =>
        apply next
        rw [UInt32.toNat_xor]
        exact Nat.xor_lt_two_pow small tapSmall
      case isFalse => exact next start small

/-- The generators of the checksum polynomial. -/
def taps : List (UInt32 × UInt32) :=
  [(0, 0x3b6a57b2), (1, 0x26508e6d), (2, 0x1ea119fa), (3, 0x3d4233dd),
    (4, 0x2a1462b3)]

theorem absorb_eq_addTaps (remainder : UInt32) (value : Nat) :
    absorb remainder value = addTaps (remainder >>> 25) taps
      (((remainder &&& 0x1ffffff) <<< 5) ^^^ UInt32.ofNat value) :=
  rfl

theorem absorb_eq_xor (remainder : UInt32) (value : Nat) :
    absorb remainder value = absorb remainder 0 ^^^ UInt32.ofNat value := by
  have zero : UInt32.ofNat 0 = 0 := rfl
  rw [absorb_eq_addTaps, absorb_eq_addTaps, addTaps_xor, zero, UInt32.xor_zero]

theorem toNat_shiftLeft_five (word : UInt32) :
    (word <<< 5).toNat = 32 * word.toNat % 2 ^ 32 := by
  have places : (5 : UInt32).toNat % 32 = 5 := rfl
  rw [UInt32.toNat_shiftLeft, places, Nat.shiftLeft_eq, Nat.mul_comm]

/-- Low bits move on by one symbol. -/
theorem absorb_xor (remainder : UInt32) {low : Nat} (small : low < 2 ^ 25) :
    absorb (remainder ^^^ UInt32.ofNat low) 0 =
      absorb remainder 0 ^^^ UInt32.ofNat (32 * low) := by
  have isLow : (UInt32.ofNat low).toNat = low := by
    rw [UInt32.toNat_ofNat']
    omega
  have noHigh : UInt32.ofNat low >>> 25 = 0 := by
    rw [← UInt32.toNat_inj, UInt32.toNat_shiftRight, Nat.shiftRight_eq_div_pow, isLow]
    exact Nat.div_eq_of_lt small
  have masked : (remainder ^^^ UInt32.ofNat low) &&& 0x1ffffff =
      (remainder &&& 0x1ffffff) ^^^ UInt32.ofNat low := by
    have allLow : low &&& (2 ^ 25 - 1) = low := Nat.and_two_pow_sub_one_of_lt_two_pow small
    rw [← UInt32.toNat_inj, UInt32.toNat_and, UInt32.toNat_xor, UInt32.toNat_xor,
      UInt32.toNat_and, Nat.and_xor_distrib_right, isLow]
    exact congrArg _ allLow
  have moved : UInt32.ofNat low <<< 5 = UInt32.ofNat (32 * low) := by
    rw [← UInt32.toNat_inj, toNat_shiftLeft_five, isLow, UInt32.toNat_ofNat']
  have zero : UInt32.ofNat 0 = 0 := rfl
  rw [absorb_eq_addTaps, absorb_eq_addTaps, UInt32.shiftRight_xor, noHigh, masked, zero,
    UInt32.xor_zero, UInt32.xor_zero, UInt32.xor_zero, UInt32.shiftLeft_xor, addTaps_xor,
    moved]

theorem absorb_lt (remainder : UInt32) {value : Nat} (small : value < 32) :
    (absorb remainder value).toNat < 2 ^ 30 := by
  rw [absorb_eq_addTaps]
  apply addTaps_lt
  · rw [UInt32.toNat_xor]
    apply Nat.xor_lt_two_pow
    · have low : remainder.toNat &&& (0x1ffffff : UInt32).toNat < 2 ^ 25 :=
        Nat.and_lt_two_pow _ (by decide)
      rw [toNat_shiftLeft_five, UInt32.toNat_and]
      omega
    · rw [UInt32.toNat_ofNat']
      omega
  · have all : taps.all (fun tap => tap.2.toNat < 2 ^ 30) = true := by decide
    exact fun tap member => of_decide_eq_true (List.all_eq_true.1 all tap member)

/-! ## The symbols of a checksum -/

/-- The number with these digits to the base 32 after the digits of another one. -/
def appendDigits (number : Nat) (digits : List Nat) : Nat :=
  digits.foldl (fun number digit => 32 * number + digit) number

theorem ofNat_mul_xor {low symbol : Nat} (small : symbol < 32) :
    UInt32.ofNat (32 * low) ^^^ UInt32.ofNat symbol = UInt32.ofNat (32 * low + symbol) := by
  have quotient : (32 * low ^^^ symbol) / 2 ^ 5 = low := by
    rw [Nat.xor_div_two_pow, Nat.div_eq_of_lt small, Nat.xor_zero]
    exact Nat.mul_div_right low (by decide)
  have rest : (32 * low ^^^ symbol) % 2 ^ 5 = symbol := by
    rw [Nat.xor_mod_two_pow, Nat.mod_eq_of_lt small]
    exact (congrArg (· ^^^ symbol) (Nat.mul_mod_right 32 low)).trans (Nat.zero_xor symbol)
  have apart : 32 * low ^^^ symbol = 32 * low + symbol := by omega
  rw [← apart, UInt32.ofNat_xor]

theorem room_of_cons {low digit count bound : Nat} (small : digit < 32)
    (room : (low + 1) * 32 ^ (count + 1) ≤ bound) :
    (32 * low + digit + 1) * 32 ^ count ≤ bound := by
  refine Nat.le_trans (Nat.mul_le_mul_right _ (?_ : _ ≤ (low + 1) * 32)) ?_
  · omega
  · rwa [Nat.mul_assoc, Nat.mul_comm 32, ← Nat.pow_succ]

theorem appendDigits_lt {digits : List Nat} (small : ∀ digit ∈ digits, digit < 32)
    {low bound : Nat} (room : (low + 1) * 32 ^ digits.length ≤ bound) :
    appendDigits low digits < bound := by
  induction digits generalizing low with
  | nil => rwa [List.length_nil, Nat.pow_zero, Nat.mul_one] at room
  | cons digit digits induction =>
      obtain ⟨digitSmall, othersSmall⟩ := List.forall_mem_cons.1 small
      exact induction othersSmall (room_of_cons digitSmall room)

/-- Symbols that come in while there is room for them only move a remainder on and
add the number that they are the digits of. -/
theorem foldl_absorb {symbols : List Nat} (small : ∀ symbol ∈ symbols, symbol < 32)
    (remainder : UInt32) {low : Nat} (room : (low + 1) * 32 ^ symbols.length ≤ 2 ^ 30) :
    symbols.foldl absorb (remainder ^^^ UInt32.ofNat low) =
      (List.replicate symbols.length 0).foldl absorb remainder ^^^
        UInt32.ofNat (appendDigits low symbols) := by
  induction symbols generalizing remainder low with
  | nil => rfl
  | cons symbol symbols induction =>
      obtain ⟨symbolSmall, othersSmall⟩ := List.forall_mem_cons.1 small
      have others := room_of_cons symbolSmall room
      -- As there is room for a symbol, the low bits do not reach the high ones yet.
      have lowSmall : low < 2 ^ 25 := by
        have least := Nat.le_mul_of_pos_right (32 * low + symbol + 1)
          (Nat.pow_pos (by decide) : 0 < 32 ^ symbols.length)
        omega
      have step : absorb (remainder ^^^ UInt32.ofNat low) symbol =
          absorb remainder 0 ^^^ UInt32.ofNat (32 * low + symbol) := by
        rw [absorb_eq_xor, absorb_xor remainder lowSmall, UInt32.xor_assoc,
          ofNat_mul_xor symbolSmall]
      rw [List.foldl_cons, step, induction othersSmall _ others]
      rfl

/-- The six digits of a number to the base 32. -/
def sixDigits (number : Nat) : List Nat :=
  [33554432, 1048576, 32768, 1024, 32, 1].map fun weight => number / weight % 32

theorem appendDigits_eq_iff {digits : List Nat} (six : digits.length = 6)
    (small : ∀ digit ∈ digits, digit < 32) {number : Nat} (fits : number < 2 ^ 30) :
    appendDigits 0 digits = number ↔ digits = sixDigits number := by
  match digits, six with
  | [first, second, third, fourth, fifth, sixth], _ =>
      simp only [List.forall_mem_cons] at small
      simp only [appendDigits, sixDigits, List.foldl_cons, List.foldl_nil, List.map_cons,
        List.map_nil, List.cons.injEq, and_true]
      omega

/-- The checksum that makes a text leave a remainder. -/
def checksum (target : UInt32) (readable : List Char) (payload : List Nat) : List Nat :=
  sixDigits (remainder readable (payload ++ List.replicate 6 0) ^^^ target).toNat

theorem length_checksum (target : UInt32) (readable : List Char) (payload : List Nat) :
    (checksum target readable payload).length = 6 := by
  rw [checksum, sixDigits, List.length_map]
  rfl

theorem checksum_small (target : UInt32) (readable : List Char) (payload : List Nat) :
    ∀ symbol ∈ checksum target readable payload, symbol < 32 := by
  rw [checksum, sixDigits, List.forall_mem_map]
  exact fun weight _ => Nat.mod_lt _ (by decide)

theorem remainder_append (readable : List Char) (front back : List Nat) :
    remainder readable (front ++ back) = back.foldl absorb (remainder readable front) := by
  rw [remainder, ← List.append_assoc, List.foldl_append, ← remainder]

/-- There is one checksum for each remainder. -/
theorem remainder_append_eq_iff {target : UInt32} (fits : target.toNat < 2 ^ 30)
    {readable : List Char} {payload sums : List Nat} (six : sums.length = 6)
    (small : ∀ symbol ∈ sums, symbol < 32) :
    remainder readable (payload ++ sums) = target ↔
      sums = checksum target readable payload := by
  have moved : (remainder readable (payload ++ List.replicate 6 0)).toNat < 2 ^ 30 := by
    rw [List.replicate_succ', ← List.append_assoc, remainder_append]
    exact absorb_lt _ (by decide)
  have sum : (remainder readable (payload ++ List.replicate 6 0) ^^^ target).toNat <
      2 ^ 30 := by
    rw [UInt32.toNat_xor]
    exact Nat.xor_lt_two_pow moved fits
  have room : (0 + 1) * 32 ^ sums.length ≤ 2 ^ 30 := by
    rw [six]
    decide
  have split : remainder readable (payload ++ sums) =
      remainder readable (payload ++ List.replicate 6 0) ^^^
        UInt32.ofNat (appendDigits 0 sums) := by
    have digits := foldl_absorb small (remainder readable payload) room
    have zero : UInt32.ofNat 0 = 0 := rfl
    rw [zero, UInt32.xor_zero, six] at digits
    rw [remainder_append, remainder_append, digits]
  have digitsSmall := appendDigits_lt small room
  rw [checksum, ← appendDigits_eq_iff six small sum, split]
  constructor
  · rintro rfl
    rw [← UInt32.xor_assoc, UInt32.xor_self, UInt32.zero_xor, UInt32.toNat_ofNat']
    omega
  · intro isSum
    rw [isSum, UInt32.ofNat_toNat, ← UInt32.xor_assoc, UInt32.xor_self, UInt32.zero_xor]

end Bech32

end BatchRelay
