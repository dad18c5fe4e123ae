/-!
# Base 64 text

Three bytes are written as four characters of a 64 letter alphabet.  A last
group of one or two bytes is filled with `=`.  Only canonical text is read:
the padding has to be there, and the bits that the last letter carries beyond
the last byte have to be zero.
-/

namespace BatchRelay

namespace Base64

/-- The letters in the order of their values. -/
def alphabet : List Char :=
  "ABCDEFGHIJKLMNOPQRSTUVWXYZabcdefghijklmnopqrstuvwxyz0123456789+/".toList

/-- The letter of a value below sixty-four. -/
def letter (value : Nat) : Char :=
  alphabet.getD value 'A'

/-- The value of a letter. -/
def letterValue? (character : Char) : Option Nat :=
  alphabet.idxOf? character

/-- The three bytes that four letters stand for. -/
def threeBytes (first second third fourth : Nat) : List UInt8 :=
  [UInt8.ofNat (first * 4 + second / 16),
    UInt8.ofNat (second % 16 * 16 + third / 4),
    UInt8.ofNat (third % 4 * 64 + fourth)]

/-- The canonical text of a byte sequence. -/
def encode : List UInt8 → List Char
  | [] => []
  | [first] =>
      [letter (first.toNat / 4), letter (first.toNat % 4 * 16), '=', '=']
  | [first, second] =>
      [letter (first.toNat / 4),
        letter (first.toNat % 4 * 16 + second.toNat / 16),
        letter (second.toNat % 16 * 4), '=']
  | first :: second :: third :: remainder =>
      letter (first.toNat / 4) ::
        letter (first.toNat % 4 * 16 + second.toNat / 16) ::
        letter (second.toNat % 16 * 4 + third.toNat / 64) ::
        letter (third.toNat % 64) :: encode remainder

/-- The bytes of a canonical text. -/
def decode? : List Char → Option (List UInt8)
  | [] => some []
  | [first, second, '=', '='] => do
      let high ← letterValue? first
      let low ← letterValue? second
      if low % 16 = 0 then
        return (threeBytes high low 0 0).take 1
      else
        none
  | [first, second, third, '='] => do
      let high ← letterValue? first
      let middle ← letterValue? second
      let low ← letterValue? third
      if low % 4 = 0 then
        return (threeBytes high middle low 0).take 2
      else
        none
  | first :: second :: third :: fourth :: remainder => do
      let bytes := threeBytes (← letterValue? first) (← letterValue? second)
        (← letterValue? third) (← letterValue? fourth)
      return bytes ++ (← decode? remainder)
  | _ => none

end Base64

end BatchRelay
