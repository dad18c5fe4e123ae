import BatchRelay.Bytes.Hex

/-!
# Strings of TOML

A string stands between quotation marks, where a backslash starts an escape,
or between apostrophes, where every character is itself.  Either mark written
three times makes a string that may run over several lines.  A line break right
after the opening marks is left out, and the others become line feeds.

All readers start behind the opening marks and return the text with what comes
after the closing marks.
-/

namespace BatchRelay

namespace Toml

/-- Spaces and tabs. -/
def isBlank (character : Char) : Bool :=
  character = ' ' || character = '\t'

/-- The characters that may stand in strings and comments. -/
def isPlain (character : Char) : Bool :=
  character = '\t' || (32 ≤ character.toNat && character.toNat ≠ 127)

/-- The character that a short escape stands for. -/
def shortEscape? : Char → Option Char
  | 'b' => some '\x08'
  | 't' => some '\t'
  | 'n' => some '\n'
  | 'f' => some '\x0c'
  | 'r' => some '\r'
  | '"' => some '"'
  | '\\' => some '\\'
  | _ => none

/-- The character whose code some hexadecimal digits give. -/
def namedCharacter? (digits : List Char) : Option Char := do
  let values ← digits.mapM Hex.digitValue?
  let code := values.foldl (fun code value => code * 16 + value) 0
  if code < 0xd800 ∨ (0xdfff < code ∧ code < 0x110000) then
    return Char.ofNat code
  else
    none

/-- A string between quotation marks. -/
def readQuoted? : List Char → Option (List Char × List Char)
  | [] => none
  | '"' :: remainder => some ([], remainder)
  | '\\' :: 'u' :: a :: b :: c :: d :: remainder => do
      let character ← namedCharacter? [a, b, c, d]
      let (text, remainder) ← readQuoted? remainder
      return (character :: text, remainder)
  | '\\' :: 'U' :: a :: b :: c :: d :: e :: f :: g :: h :: remainder => do
      let character ← namedCharacter? [a, b, c, d, e, f, g, h]
      let (text, remainder) ← readQuoted? remainder
      return (character :: text, remainder)
  | '\\' :: escape :: remainder => do
      let character ← shortEscape? escape
      let (text, remainder) ← readQuoted? remainder
      return (character :: text, remainder)
  | character :: remainder =>
      if isPlain character ∧ character ≠ '\\' then do
        let (text, remainder) ← readQuoted? remainder
        return (character :: text, remainder)
      else
        none

/-- What a backslash at the end of a line leaves out. -/
inductive Gap where
  /-- Nothing. -/
  | absent
  /-- The blanks up to the end of the line, which has to come. -/
  | opened
  /-- Blanks and line breaks, as many as there are. -/
  | passed
  deriving DecidableEq

/-- A string between triple quotation marks. -/
def readLongQuoted? : Gap → List Char → Option (List Char × List Char)
  | _, [] => none
  | .opened, ' ' :: remainder | .opened, '\t' :: remainder =>
      readLongQuoted? .opened remainder
  | .opened, '\n' :: remainder | .opened, '\r' :: '\n' :: remainder =>
      readLongQuoted? .passed remainder
  | .opened, _ => none
  | .passed, ' ' :: remainder | .passed, '\t' :: remainder
  | .passed, '\n' :: remainder | .passed, '\r' :: '\n' :: remainder =>
      readLongQuoted? .passed remainder
  | _, '"' :: '"' :: '"' :: '"' :: '"' :: remainder =>
      some (['"', '"'], remainder)
  | _, '"' :: '"' :: '"' :: '"' :: remainder => some (['"'], remainder)
  | _, '"' :: '"' :: '"' :: remainder => some ([], remainder)
  | _, '\r' :: '\n' :: remainder => do
      let (text, remainder) ← readLongQuoted? .absent remainder
      return ('\n' :: text, remainder)
  | _, '\\' :: ' ' :: remainder | _, '\\' :: '\t' :: remainder =>
      readLongQuoted? .opened remainder
  | _, '\\' :: '\n' :: remainder | _, '\\' :: '\r' :: '\n' :: remainder =>
      readLongQuoted? .passed remainder
  | _, '\\' :: 'u' :: a :: b :: c :: d :: remainder => do
      let character ← namedCharacter? [a, b, c, d]
      let (text, remainder) ← readLongQuoted? .absent remainder
      return (character :: text, remainder)
  | _, '\\' :: 'U' :: a :: b :: c :: d :: e :: f :: g :: h :: remainder => do
      let character ← namedCharacter? [a, b, c, d, e, f, g, h]
      let (text, remainder) ← readLongQuoted? .absent remainder
      return (character :: text, remainder)
  | _, '\\' :: escape :: remainder => do
      let character ← shortEscape? escape
      let (text, remainder) ← readLongQuoted? .absent remainder
      return (character :: text, remainder)
  | _, character :: remainder =>
      if (isPlain character ∨ character = '\n') ∧ character ≠ '\\' then do
        let (text, remainder) ← readLongQuoted? .absent remainder
        return (character :: text, remainder)
      else
        none

/-- A string between apostrophes. -/
def readLiteral? : List Char → Option (List Char × List Char)
  | [] => none
  | '\'' :: remainder => some ([], remainder)
  | character :: remainder =>
      if isPlain character then do
        let (text, remainder) ← readLiteral? remainder
        return (character :: text, remainder)
      else
        none

/-- A string between triple apostrophes. -/
def readLongLiteral? : List Char → Option (List Char × List Char)
  | [] => none
  | '\'' :: '\'' :: '\'' :: '\'' :: '\'' :: remainder =>
      some (['\'', '\''], remainder)
  | '\'' :: '\'' :: '\'' :: '\'' :: remainder => some (['\''], remainder)
  | '\'' :: '\'' :: '\'' :: remainder => some ([], remainder)
  | '\r' :: '\n' :: remainder => do
      let (text, remainder) ← readLongLiteral? remainder
      return ('\n' :: text, remainder)
  | character :: remainder =>
      if isPlain character ∨ character = '\n' then do
        let (text, remainder) ← readLongLiteral? remainder
        return (character :: text, remainder)
      else
        none

/-- What comes after a line break, if there is one at the front. -/
def dropBreak : List Char → List Char
  | '\n' :: remainder | '\r' :: '\n' :: remainder => remainder
  | remainder => remainder

/-- A string of any of the four kinds, with its opening marks. -/
def readString? (source : List Char) : Option (String × List Char) := do
  let (text, remainder) ←
    match source with
    | '"' :: '"' :: '"' :: source => readLongQuoted? .absent (dropBreak source)
    | '\'' :: '\'' :: '\'' :: source => readLongLiteral? (dropBreak source)
    | '"' :: source => readQuoted? source
    | '\'' :: source => readLiteral? source
    | _ => none
  return (String.ofList text, remainder)

end Toml

end BatchRelay
