/-!
# Decimal numerals

Natural numbers as runs of the digits `0` to `9`.  Writing uses no leading
zeros.  Reading accepts them, since each format that asks for one spelling per
number says so itself.
-/

namespace BatchRelay

namespace Decimal

/-- The numeral of a number, without leading zeros. -/
def ofNat (number : Nat) : List Char :=
  Nat.toDigits 10 number

/-- The numeral of a number, filled with zeros on the left to a width. -/
def padded (width number : Nat) : List Char :=
  List.replicate (width - (ofNat number).length) '0' ++ ofNat number

/-- The number that a run of digits stands for. -/
def value (digits : List Char) : Nat :=
  Nat.ofDigitChars 10 digits 0

/-- Reads a text that consists of digits only, at least one of them. -/
def read? (text : List Char) : Option Nat :=
  if text ≠ [] ∧ text.all Char.isDigit then some (value text) else none

/-- Reads exactly `width` digits at the front of a text. -/
def take? (width : Nat) (text : List Char) : Option (Nat × List Char) :=
  let digits := text.take width
  if digits.length = width ∧ digits.all Char.isDigit then
    some (value digits, text.drop width)
  else
    none

@[simp] theorem value_ofNat (number : Nat) : value (ofNat number) = number :=
  Nat.ofDigitChars_ten_toDigits

theorem ofNat_inj {left right : Nat} (same : ofNat left = ofNat right) :
    left = right := by
  rw [← value_ofNat left, same, value_ofNat]

theorem isDigit_of_mem_ofNat {number : Nat} {character : Char}
    (member : character ∈ ofNat number) : character.isDigit = true :=
  Nat.isDigit_of_mem_toDigits (by decide) (by decide) member

end Decimal

end BatchRelay
