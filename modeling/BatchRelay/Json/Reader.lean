import BatchRelay.Bytes.Hex
import BatchRelay.Json.Basic

/-!
# Reading JSON

`Json.readFront` reads one value at the front of a text and returns what comes
after it.  It never fails: where the text stops being JSON it puts `broken`
and reads no further.  `Json.parse?` reads a whole text.
-/

namespace BatchRelay

namespace Json

/-- The characters that may stand between the parts of a text. -/
def isBlank (character : Char) : Bool :=
  character = ' ' || character = '\t' || character = '\n' || character = '\r'

/-- What comes after the blanks at the front of a text. -/
def skipBlanks (text : List Char) : List Char :=
  text.dropWhile isBlank

/-- One written character of a string: itself, or a 16 bit unit that an escape
names. -/
inductive Mark where
  | plain (character : Char)
  | unit (value : Nat)

/-- The unit that the four digits of an escape name. -/
def unit? (first second third fourth : Char) : Option Nat := do
  let high := (← Hex.digitValue? first) * 16 + (← Hex.digitValue? second)
  let low := (← Hex.digitValue? third) * 16 + (← Hex.digitValue? fourth)
  return high * 256 + low

/-- The character that a short escape stands for. -/
def shortEscape? : Char → Option Char
  | '"' => some '"'
  | '\\' => some '\\'
  | '/' => some '/'
  | 'b' => some '\x08'
  | 'f' => some '\x0c'
  | 'n' => some '\n'
  | 'r' => some '\r'
  | 't' => some '\t'
  | _ => none

/-- The marks of a string up to its closing quotation mark, and the text after
that. -/
def readMarks? : List Char → Option (List Mark × List Char)
  | [] => none
  | '"' :: remainder => some ([], remainder)
  | '\\' :: 'u' :: first :: second :: third :: fourth :: remainder => do
      let value ← unit? first second third fourth
      let (marks, remainder) ← readMarks? remainder
      return (.unit value :: marks, remainder)
  | '\\' :: escape :: remainder => do
      let character ← shortEscape? escape
      let (marks, remainder) ← readMarks? remainder
      return (.plain character :: marks, remainder)
  | character :: remainder =>
      if character.toNat < 32 ∨ character = '\\' then
        none
      else do
        let (marks, remainder) ← readMarks? remainder
        return (.plain character :: marks, remainder)

/-- The text of a run of marks; `none` when a unit is half of a surrogate
pair and its other half does not follow. -/
def assemble : List Mark → Option (List Char)
  | [] => some []
  | .plain character :: remainder => do
      return character :: (← assemble remainder)
  | .unit high :: .unit low :: remainder =>
      if 0xd800 ≤ high ∧ high ≤ 0xdbff then
        if 0xdc00 ≤ low ∧ low ≤ 0xdfff then do
          let code := 0x10000 + (high - 0xd800) * 0x400 + (low - 0xdc00)
          return Char.ofNat code :: (← assemble remainder)
        else
          none
      else if 0xdc00 ≤ high ∧ high ≤ 0xdfff then
        none
      else do
        return Char.ofNat high :: (← assemble (.unit low :: remainder))
  | .unit value :: remainder =>
      if 0xd800 ≤ value ∧ value ≤ 0xdfff then
        none
      else do
        return Char.ofNat value :: (← assemble remainder)

/-- The text of a string, if it has one, and what comes after the string.  The
opening quotation mark is gone already. -/
def readText? (source : List Char) :
    Option (Option String × List Char) := do
  let (marks, remainder) ← readMarks? source
  return ((assemble marks).map String.ofList, remainder)

/-- The sign and the digits of an exponent. -/
def readExponent? (source : List Char) : Option (Int × List Char) :=
  let (negative, source) :=
    match source with
    | '-' :: remainder => (true, remainder)
    | '+' :: remainder => (false, remainder)
    | remainder => (false, remainder)
  let digits := source.takeWhile Char.isDigit
  let size : Int := Decimal.value digits
  if digits = [] then
    none
  else
    some (if negative then -size else size, source.dropWhile Char.isDigit)

/-- The digits of a fraction, as a number and their count. -/
def readFraction? (source : List Char) : Option ((Nat × Nat) × List Char) :=
  let digits := source.takeWhile Char.isDigit
  if digits = [] then
    none
  else
    some ((Decimal.value digits, digits.length), source.dropWhile Char.isDigit)

/-- What follows the whole part of a number. -/
def readScale? (source : List Char) : Option (Option Scale × List Char) :=
  match source with
  | '.' :: source => do
      let ((fraction, places), source) ← readFraction? source
      match source with
      | 'e' :: source | 'E' :: source =>
          let (exponent, source) ← readExponent? source
          return (some ⟨fraction, places, exponent⟩, source)
      | source => return (some ⟨fraction, places, 0⟩, source)
  | 'e' :: source | 'E' :: source => do
      let (exponent, source) ← readExponent? source
      return (some ⟨0, 0, exponent⟩, source)
  | source => some (none, source)

/-- A number without its sign. -/
def readNumber (negative : Bool) (source : List Char) : Json × List Char :=
  let digits := source.takeWhile Char.isDigit
  if digits = [] ∨ (digits.head? = some '0' ∧ digits ≠ ['0']) then
    (.broken, [])
  else
    match readScale? (source.dropWhile Char.isDigit) with
    | some (scale, source) =>
        (.number negative (Decimal.value digits) scale, source)
    | none => (.broken, [])

/-- A word that stands for a value, when its first letter is gone already. -/
def readWord (letters : List Char) (value : Json) (source : List Char) :
    Json × List Char :=
  if letters.isPrefixOf source then
    (value, source.drop letters.length)
  else
    (.broken, [])

mutual

/-- The value at the front of a text, and what comes after it.  `fuel` bounds
the number of values and parts that are read. -/
def readValue : Nat → List Char → Json × List Char
  | 0, _ => (.broken, [])
  | fuel + 1, source =>
      match skipBlanks source with
      | 'n' :: source => readWord ['u', 'l', 'l'] .null source
      | 't' :: source => readWord ['r', 'u', 'e'] (.bool true) source
      | 'f' :: source => readWord ['a', 'l', 's', 'e'] (.bool false) source
      | '"' :: source =>
          match readText? source with
          | some (text, source) => (.string text, source)
          | none => (.broken, [])
      | '-' :: source => readNumber true source
      | '[' :: source =>
          match skipBlanks source with
          | ']' :: source => (.array [], source)
          | source =>
              let (elements, source) := readElements fuel source
              (.array elements, source)
      | '{' :: source =>
          match skipBlanks source with
          | '}' :: source => (.object [], source)
          | source =>
              let (members, source) := readMembers fuel source
              (.object members, source)
      | source => readNumber false source

/-- The elements of an array up to its end; there is at least one. -/
def readElements : Nat → List Char → List Json × List Char
  | 0, _ => ([.broken], [])
  | fuel + 1, source =>
      let (element, source) := readValue fuel source
      match skipBlanks source with
      | ',' :: source =>
          let (elements, source) := readElements fuel source
          (element :: elements, source)
      | ']' :: source => ([element], source)
      | _ => ([element, .broken], [])

/-- The members of an object up to its end; there is at least one. -/
def readMembers : Nat → List Char → List (Option String × Json) × List Char
  | 0, _ => ([(none, .broken)], [])
  | fuel + 1, source =>
      match skipBlanks source with
      | '"' :: source =>
          match readText? source with
          | some (name, source) =>
              match skipBlanks source with
              | ':' :: source =>
                  let (value, source) := readValue fuel source
                  match skipBlanks source with
                  | ',' :: source =>
                      let (members, source) := readMembers fuel source
                      ((name, value) :: members, source)
                  | '}' :: source => ([(name, value)], source)
                  | _ => ([(name, value), (none, .broken)], [])
              | _ => ([(name, .broken)], [])
          | none => ([(none, .broken)], [])
      | _ => ([(none, .broken)], [])

end

/-- The value at the front of a text, and what comes after it. -/
def readFront (source : List Char) : Json × List Char :=
  readValue (source.length + 1) source

/-- The value that a whole text stands for. -/
def parse? (source : String) : Option Json :=
  let (value, remainder) := readFront source.toList
  if value.wellFormed ∧ skipBlanks remainder = [] then some value else none

end Json

end BatchRelay
