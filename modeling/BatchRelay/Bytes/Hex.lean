/-!
# Hexadecimal text

Two digits per byte, the high half first.  Output is in lower case; input may
use either case and has to have an even number of digits.
-/

namespace BatchRelay

namespace Hex

/-- The lower-case digit of a number below sixteen. -/
def digit (number : Nat) : Char :=
  Nat.digitChar number

/-- The number that a digit of either case stands for. -/
def digitValue? (character : Char) : Option Nat :=
  if '0' ≤ character ∧ character ≤ '9' then
    some (character.toNat - '0'.toNat)
  else if 'a' ≤ character ∧ character ≤ 'f' then
    some (character.toNat - 'a'.toNat + 10)
  else if 'A' ≤ character ∧ character ≤ 'F' then
    some (character.toNat - 'A'.toNat + 10)
  else
    none

/-- The two digits of a byte. -/
def ofByte (byte : UInt8) : List Char :=
  [digit (byte.toNat / 16), digit (byte.toNat % 16)]

/-- The digits of a byte sequence. -/
def encode (bytes : List UInt8) : List Char :=
  bytes.flatMap ofByte

/-- The bytes of a text made of pairs of digits. -/
def decode? : List Char → Option (List UInt8)
  | [] => some []
  | [_] => none
  | high :: low :: remainder => do
      let upper ← digitValue? high
      let lower ← digitValue? low
      let bytes ← decode? remainder
      return UInt8.ofNat (upper * 16 + lower) :: bytes

end Hex

end BatchRelay
