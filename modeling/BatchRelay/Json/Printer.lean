import BatchRelay.Bytes.Hex
import BatchRelay.Json.Basic

/-!
# Writing JSON

The compact form: no blanks, members in their order.  In strings only the
quotation mark, the backslash and the control characters below the blank are
escaped, with the short escape where there is one.
-/

namespace BatchRelay

namespace Json

/-- The written form of one character of a string. -/
def printCharacter (character : Char) : List Char :=
  match character with
  | '"' => ['\\', '"']
  | '\\' => ['\\', '\\']
  | '\x08' => ['\\', 'b']
  | '\x0c' => ['\\', 'f']
  | '\n' => ['\\', 'n']
  | '\r' => ['\\', 'r']
  | '\t' => ['\\', 't']
  | _ =>
      if character.toNat < 32 then
        ['\\', 'u', '0', '0', Hex.digit (character.toNat / 16),
          Hex.digit (character.toNat % 16)]
      else
        [character]

/-- The written form of a string. -/
def printText (text : String) : List Char :=
  '"' :: text.toList.flatMap printCharacter ++ ['"']

/-- The written form of the part of a number after its whole part. -/
def printScale (scale : Scale) : List Char :=
  let fraction :=
    if scale.places = 0 then []
    else '.' :: Decimal.padded scale.places scale.fraction
  let sign := if scale.exponent < 0 then ['-'] else []
  fraction ++ 'e' :: sign ++ Decimal.ofNat scale.exponent.natAbs

mutual

/-- The written form of a value. -/
def print : Json → List Char
  | .null => "null".toList
  | .bool true => "true".toList
  | .bool false => "false".toList
  | .number negative whole scale =>
      (if negative then ['-'] else []) ++ Decimal.ofNat whole ++
        (match scale with
          | some scale => printScale scale
          | none => [])
  | .string text => printText (text.getD "")
  | .array [] => ['[', ']']
  | .array (element :: remainder) =>
      '[' :: print element ++ printElements remainder
  | .object [] => ['{', '}']
  | .object ((name, value) :: remainder) =>
      '{' :: printText (name.getD "") ++ ':' :: print value ++
        printMembers remainder
  | .broken => []

/-- The written form of the elements after the first, and the closing mark. -/
def printElements : List Json → List Char
  | [] => [']']
  | element :: remainder => ',' :: print element ++ printElements remainder

/-- The written form of the members after the first, and the closing mark. -/
def printMembers : List (Option String × Json) → List Char
  | [] => ['}']
  | (name, value) :: remainder =>
      ',' :: printText (name.getD "") ++ ':' :: print value ++
        printMembers remainder

end

/-- The compact text of a value. -/
def render (value : Json) : String :=
  String.ofList value.print

end Json

end BatchRelay
