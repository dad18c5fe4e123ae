import Mathlib.Algebra.Group.Nat.Defs
import BatchRelay.Bytes.Bech32

/-!
# Runs of bits

A run of bits is cut into numbers of one width, and fewer bits than that are left
over.  The numbers and the rest make the run again.
-/

namespace BatchRelay

namespace Bech32

/-- The lowest bits of a number, the highest of them first. -/
def bitsOf : Nat → Nat → List Bool
  | 0, _ => []
  | width + 1, number => bitsOf width (number / 2) ++ [decide (number % 2 = 1)]

/-- Numbers of one width from the front of a run of bits. -/
def numbersOf (width : Nat) (bits : List Bool) : List Nat :=
  (List.range (bits.length / width)).map fun index =>
    ofBits ((bits.drop (width * index)).take width)

theorem symbolBits_eq_bitsOf (value : Nat) : symbolBits value = bitsOf 5 value := by
  simp [symbolBits, bitsOf, Nat.div_div_eq_div_mul]

theorem bytesOfBits_eq_numbersOf (bits : List Bool) :
    bytesOfBits bits = (numbersOf 8 bits).map UInt8.ofNat := by
  simp [bytesOfBits, numbersOf]

@[simp] theorem length_bitsOf (width number : Nat) :
    (bitsOf width number).length = width := by
  induction width generalizing number with
  | zero => rfl
  | succ width induction => rw [bitsOf, List.length_append, induction, List.length_singleton]

theorem ofBits_concat (bits : List Bool) (bit : Bool) :
    ofBits (bits ++ [bit]) = 2 * ofBits bits + bit.toNat := by
  rw [ofBits, List.foldl_append, List.foldl_cons, List.foldl_nil, ofBits]

theorem ofBits_bitsOf {width number : Nat} (small : number < 2 ^ width) :
    ofBits (bitsOf width number) = number := by
  induction width generalizing number with
  | zero =>
      have zero : number = 0 := by omega
      rw [zero]
      rfl
  | succ width induction =>
      rw [bitsOf, ofBits_concat, induction (by omega)]
      obtain even | odd := Nat.mod_two_eq_zero_or_one number
      · simp only [even, Nat.zero_ne_one, decide_false, Bool.toNat_false]
        omega
      · simp only [odd, decide_true, Bool.toNat_true]
        omega

theorem ofBits_lt_and_bitsOf_ofBits {width : Nat} {bits : List Bool}
    (length : bits.length = width) :
    ofBits bits < 2 ^ width ∧ bitsOf width (ofBits bits) = bits := by
  induction width generalizing bits with
  | zero =>
      rw [List.length_eq_zero_iff.1 length]
      exact ⟨Nat.one_pos, rfl⟩
  | succ width induction =>
      obtain rfl | ⟨front, bit, rfl⟩ := bits.eq_nil_or_concat
      · cases length
      · rw [List.concat_eq_append] at length ⊢
        rw [List.length_append, List.length_singleton, Nat.succ_inj] at length
        obtain ⟨small, again⟩ := induction length
        have bitSmall := bit.toNat_lt
        have half : (2 * ofBits front + bit.toNat) / 2 = ofBits front := by omega
        have parity : (2 * ofBits front + bit.toNat) % 2 = bit.toNat := by omega
        rw [ofBits_concat, bitsOf, half, again, parity]
        refine ⟨by omega, ?_⟩
        cases bit <;> rfl

theorem numbersOf_append {width : Nat} (positive : 0 < width) {first : List Bool}
    (length : first.length = width) (others : List Bool) :
    numbersOf width (first ++ others) = ofBits first :: numbersOf width others := by
  have count : (first ++ others).length / width = others.length / width + 1 := by
    rw [List.length_append, length, Nat.add_div_left _ positive]
  rw [numbersOf, count, List.range_succ_eq_map, List.map_cons, List.map_map, Nat.mul_zero,
    List.drop_zero, ← length, List.take_left]
  refine congrArg _ (List.map_congr_left fun index _ => ?_)
  rw [Function.comp_apply, Nat.mul_succ, Nat.add_comm, ← List.drop_drop, List.drop_left]

/-- A run of bits is cut into the numbers that make it. -/
theorem numbersOf_eq_iff {width : Nat} (positive : 0 < width) {bits : List Bool}
    {numbers : List Nat} :
    numbersOf width bits = numbers ↔
      (∀ number ∈ numbers, number < 2 ^ width) ∧
        ∃ padding, padding.length < width ∧
          bits = numbers.flatMap (bitsOf width) ++ padding := by
  induction numbers generalizing bits with
  | nil =>
      rw [numbersOf, List.map_eq_nil_iff, List.range_eq_nil, Nat.div_eq_zero_iff]
      simp [Nat.ne_of_gt positive]
  | cons number numbers induction =>
      constructor
      · intro cut
        have enough : width ≤ bits.length := by
          refine Nat.le_of_not_lt fun short => ?_
          rw [numbersOf, Nat.div_eq_of_lt short] at cut
          cases cut
        have length : (bits.take width).length = width := List.length_take_of_le enough
        rw [← List.take_append_drop width bits, numbersOf_append positive length,
          List.cons.injEq] at cut
        obtain ⟨rfl, others⟩ := cut
        obtain ⟨small, again⟩ := ofBits_lt_and_bitsOf_ofBits length
        obtain ⟨othersSmall, padding, short, isRest⟩ := induction.1 others
        refine ⟨List.forall_mem_cons.2 ⟨small, othersSmall⟩, padding, short, ?_⟩
        rw [List.flatMap_cons, again, List.append_assoc, ← isRest, List.take_append_drop]
      · intro made
        obtain ⟨allSmall, padding, short, rfl⟩ := made
        obtain ⟨small, othersSmall⟩ := List.forall_mem_cons.1 allSmall
        rw [List.flatMap_cons, List.append_assoc,
          numbersOf_append positive (length_bitsOf width number), ofBits_bitsOf small,
          induction.2 ⟨othersSmall, padding, short, rfl⟩]

theorem length_flatMap_bitsOf (width : Nat) (numbers : List Nat) :
    (numbers.flatMap (bitsOf width)).length = width * numbers.length := by
  induction numbers with
  | nil => rfl
  | cons number numbers induction =>
      rw [List.flatMap_cons, List.length_append, induction, length_bitsOf, List.length_cons,
        Nat.mul_succ, Nat.add_comm]

/-- Nothing is left over from a run that is made of whole numbers. -/
theorem numbersOf_eq_iff_of_dvd {width : Nat} (positive : 0 < width) {bits : List Bool}
    (whole : width ∣ bits.length) {numbers : List Nat} :
    numbersOf width bits = numbers ↔
      (∀ number ∈ numbers, number < 2 ^ width) ∧ bits = numbers.flatMap (bitsOf width) := by
  rw [numbersOf_eq_iff positive]
  refine and_congr_right fun _ => ?_
  constructor
  · intro made
    obtain ⟨padding, short, rfl⟩ := made
    rw [List.length_append, length_flatMap_bitsOf,
      Nat.dvd_add_right (Nat.dvd_mul_right width numbers.length)] at whole
    have none := Nat.eq_zero_of_dvd_of_lt whole short
    rw [List.length_eq_zero_iff.1 none, List.append_nil]
  · rintro rfl
    exact ⟨[], positive, (List.append_nil _).symm⟩

/-- The bits of bytes, the highest of each first. -/
def bitsOfBytes (bytes : List UInt8) : List Bool :=
  (bytes.map UInt8.toNat).flatMap (bitsOf 8)

theorem bytesOfBits_eq_iff {bits : List Bool} {bytes : List UInt8} :
    bytesOfBits bits = bytes ↔
      ∃ padding, padding.length < 8 ∧ bits = bitsOfBytes bytes ++ padding := by
  have small : ∀ number ∈ bytes.map UInt8.toNat, number < 2 ^ 8 := by
    rw [List.forall_mem_map]
    exact fun byte _ => byte.toNat_lt
  have numbers : bytesOfBits bits = bytes ↔ numbersOf 8 bits = bytes.map UInt8.toNat := by
    rw [bytesOfBits_eq_numbersOf]
    constructor
    · rintro rfl
      have own := ((numbersOf_eq_iff (by decide : 0 < 8)).1 (rfl : numbersOf 8 bits = _)).1
      rw [List.map_map]
      refine (List.map_id' _).symm.trans (List.map_congr_left fun number member => ?_)
      rw [Function.comp_apply, UInt8.toNat_ofNat', Nat.mod_eq_of_lt (own number member)]
    · intro same
      rw [same, List.map_map]
      refine (List.map_congr_left fun byte _ => ?_).trans (List.map_id' _)
      exact UInt8.ofNat_toNat
  rw [numbers, numbersOf_eq_iff (by decide), bitsOfBytes]
  exact and_iff_right small

@[simp] theorem length_bitsOfBytes (bytes : List UInt8) :
    (bitsOfBytes bytes).length = 8 * bytes.length := by
  rw [bitsOfBytes, length_flatMap_bitsOf, List.length_map]

end Bech32

end BatchRelay
