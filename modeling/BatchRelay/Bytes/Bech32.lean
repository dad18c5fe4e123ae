/-!
# Checksummed base 32 text

A text of this format is a readable part, the separator `1`, data symbols of
five bits each and six checksum symbols.  Two checksum constants are in use,
and either one is accepted.  Letters may be all lower case or all upper case,
never both.

The data symbols are read as one run of bits and cut into bytes from the
front; up to seven bits that are left over at the end are dropped unseen.
-/

namespace BatchRelay

namespace Bech32

/-- The data symbols in the order of their values. -/
def alphabet : List Char :=
  "qpzry9x8gf2tvdw0s3jn54khce6mua7l".toList

/-- The value of a data symbol of either case. -/
def symbolValue? (character : Char) : Option Nat :=
  alphabet.idxOf? character.toLower

/-- The remainder of the checksum polynomial after one more symbol. -/
def absorb (remainder : UInt32) (value : Nat) : UInt32 :=
  let high := remainder >>> 25
  let shifted := ((remainder &&& 0x1ffffff) <<< 5) ^^^ UInt32.ofNat value
  [(0, 0x3b6a57b2), (1, 0x26508e6d), (2, 0x1ea119fa), (3, 0x3d4233dd),
    (4, 0x2a1462b3)].foldl
    (fun (sum : UInt32) (tap : UInt32 × UInt32) =>
      if (high >>> tap.1) &&& 1 = 1 then sum ^^^ tap.2 else sum)
    shifted

/-- The symbols that stand for the readable part in the checksum. -/
def expand (readable : List Char) : List Nat :=
  let codes := readable.map fun character => character.toLower.toNat
  codes.map (· / 32) ++ 0 :: codes.map (· % 32)

/-- The remainder of a readable part and all symbols after it. -/
def remainder (readable : List Char) (symbols : List Nat) : UInt32 :=
  (expand readable ++ symbols).foldl absorb 1

/-- The remainders that a checksum may leave. -/
def accepted : List UInt32 :=
  [1, 0x2bc830a3]

/-- The bits of a symbol, the highest first. -/
def symbolBits (value : Nat) : List Bool :=
  [16, 8, 4, 2, 1].map fun weight => value / weight % 2 = 1

/-- The number with these bits, the highest first. -/
def ofBits (bits : List Bool) : Nat :=
  bits.foldl (fun number bit => 2 * number + bit.toNat) 0

/-- Whole bytes from the front of a run of bits. -/
def bytesOfBits (bits : List Bool) : List UInt8 :=
  (List.range (bits.length / 8)).map fun index =>
    UInt8.ofNat (ofBits ((bits.drop (8 * index)).take 8))

/-- The text before the last separator, and the text after it. -/
def separate? (text : List Char) : Option (List Char × List Char) :=
  let data := (text.reverse.takeWhile (· ≠ '1')).reverse
  if data.length < text.length then
    some (text.take (text.length - data.length - 1), data)
  else
    none

/-- A readable part has 1 to 83 visible characters. -/
def readableOk (readable : List Char) : Bool :=
  readable ≠ [] && readable.length ≤ 83 &&
    readable.all fun character => 33 ≤ character.toNat && character.toNat ≤ 126

/-- Whether upper and lower case letters occur together. -/
def mixedCase (text : List Char) : Bool :=
  text.any Char.isUpper && text.any Char.isLower

/-- The longest text that the checksum covers. -/
def longest : Nat :=
  1023

/-- The readable part and the bytes of a text with a valid checksum. -/
def decode? (text : List Char) : Option (List Char × List UInt8) := do
  let (readable, data) ← separate? text
  let symbols ← data.mapM symbolValue?
  if mixedCase text || !readableOk readable || longest < text.length ||
      symbols.length < 6 || !accepted.contains (remainder readable symbols) then
    none
  else
    let payload := symbols.take (symbols.length - 6)
    return (readable, bytesOfBits (payload.flatMap symbolBits))

end Bech32

end BatchRelay
