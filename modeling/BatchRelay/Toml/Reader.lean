import BatchRelay.Toml.Numeral
import BatchRelay.Toml.Tables
import BatchRelay.Toml.Text

/-!
# Reading TOML

A document is a sequence of lines: headers, keys with values, and blank lines.
`Toml.parse?` gives its outermost table, or `none` when the text is not TOML or
gives one place twice.
-/

namespace BatchRelay

namespace Toml

/-- What comes after the blanks at the front of a text. -/
def skipBlanks (source : List Char) : List Char :=
  source.dropWhile isBlank

/-- What comes after blanks, line breaks and comments. -/
def skipGaps (inComment : Bool) : List Char → List Char
  | [] => []
  | '\n' :: source | '\r' :: '\n' :: source => skipGaps false source
  | character :: source =>
      if inComment then
        if isPlain character then skipGaps true source else character :: source
      else if isBlank character then
        skipGaps false source
      else if character = '#' then
        skipGaps true source
      else
        character :: source

/-- The characters of a key that needs no quotation marks. -/
def isBare (character : Char) : Bool :=
  character.isAlphanum || character = '_' || character = '-'

/-- One part of a dotted key. -/
def readPart? (source : List Char) : Option (String × List Char) :=
  match source with
  | '"' :: source => do
      let (part, source) ← readQuoted? source
      return (String.ofList part, source)
  | '\'' :: source => do
      let (part, source) ← readLiteral? source
      return (String.ofList part, source)
  | source =>
      let part := source.takeWhile isBare
      if part.isEmpty then none
      else some (String.ofList part, source.dropWhile isBare)

/-- The greatest number of parts of a key, and of arrays and tables inside each
other. -/
def deepest : Nat :=
  79

/-- A dotted key of at most so many parts, with the blanks after it: the path
and the name at its end. -/
def readKey? : Nat → List Char → Option ((List String × String) × List Char)
  | 0, _ => none
  | count + 1, source => do
      let (part, source) ← readPart? (skipBlanks source)
      match skipBlanks source with
      | '.' :: source =>
          let ((path, name), source) ← readKey? count source
          return ((part :: path, name), source)
      | source => return (([], part), source)

/-- A number or a moment. -/
def readNumeral? (source : List Char) : Option (Toml × List Char) :=
  match skipMoment? source, skipFloat? source with
  | some source, _ => some (.moment, source)
  | none, some source => some (.float, source)
  | none, none => (readInteger? source).map fun (value, source) =>
      (.integer value, source)

mutual

/-- The value at the front of a text.  `depth` bounds how deep it may nest, and
`fuel` the number of parts that are read. -/
def readValue? : Nat → Nat → List Char → Option (Toml × List Char)
  | 0, _, _ => none
  | fuel + 1, depth, source =>
      match source with
      | '"' :: _ | '\'' :: _ =>
          (readString? source).map fun (value, source) => (.string value, source)
      | '[' :: source =>
          match depth with
          | 0 => none
          | depth + 1 => do
              let (elements, source) ← readElements? fuel depth source
              return (.array false elements, source)
      | '{' :: source =>
          match depth with
          | 0 => none
          | depth + 1 => do
              let (members, source) ←
                match skipBlanks source with
                | '}' :: source => some ([], source)
                | source => readMembers? fuel depth [] source
              return (.table .closed members, source)
      | 't' :: 'r' :: 'u' :: 'e' :: source => some (.bool true, source)
      | 'f' :: 'a' :: 'l' :: 's' :: 'e' :: source => some (.bool false, source)
      | source => readNumeral? source

/-- The elements of an array up to its end. -/
def readElements? : Nat → Nat → List Char → Option (List Toml × List Char)
  | 0, _, _ => none
  | fuel + 1, depth, source =>
      match skipGaps false source with
      | ']' :: source => some ([], source)
      | source => do
          let (element, source) ← readValue? fuel depth source
          match skipGaps false source with
          | ',' :: source =>
              let (elements, source) ← readElements? fuel depth source
              return (element :: elements, source)
          | ']' :: source => return ([element], source)
          | _ => none

/-- The members of a table between braces, after those that are read already;
there is at least one more. -/
def readMembers? :
    Nat → Nat → Members → List Char → Option (Members × List Char)
  | 0, _, _, _ => none
  | fuel + 1, depth, members, source => do
      let ((path, name), source) ← readKey? deepest source
      match source with
      | '=' :: source =>
          let (value, source) ← readValue? fuel depth (skipBlanks source)
          let members ← assign? path name value members
          match skipBlanks source with
          | ',' :: source => readMembers? fuel depth members source
          | '}' :: source => return (members, source)
          | _ => none
      | _ => none

end

/-- What comes after the end of a line that may hold a comment yet. -/
def endLine? (source : List Char) : Option (List Char) :=
  let source := skipBlanks source
  let source :=
    match source with
    | '#' :: comment => comment.dropWhile isPlain
    | source => source
  match source with
  | [] => some []
  | '\n' :: source | '\r' :: '\n' :: source => some source
  | _ => none

/-- One line, without its end: the header that later keys belong to, and the
outermost table with what the line adds. -/
def readLine? (header : List String) (members : Members) (source : List Char) :
    Option ((List String × Members) × List Char) :=
  match source with
  | [] | '\n' :: _ | '\r' :: _ | '#' :: _ => some ((header, members), source)
  | '[' :: '[' :: source => do
      let ((path, name), source) ← readKey? deepest source
      match source with
      | ']' :: ']' :: source =>
          return ((path ++ [name], ← extend? path name members), source)
      | _ => none
  | '[' :: source => do
      let ((path, name), source) ← readKey? deepest source
      match source with
      | ']' :: source =>
          return ((path ++ [name], ← open? path name members), source)
      | _ => none
  | source => do
      let ((path, name), source) ← readKey? deepest source
      match source with
      | '=' :: source =>
          let source := skipBlanks source
          let (value, source) ← readValue? (source.length + 1) deepest source
          return ((header, ← assignUnder? header path name value members), source)
      | _ => none

/-- The lines of a document.  `fuel` bounds their number. -/
def readLines? : Nat → List String → Members → List Char → Option Members
  | _, _, members, [] => some members
  | 0, _, _, _ => none
  | fuel + 1, header, members, source => do
      let ((header, members), source) ←
        readLine? header members (skipBlanks source)
      readLines? fuel header members (← endLine? source)

/-- The outermost table of a document.  A byte order mark may come first. -/
def parse? (source : String) : Option Members :=
  let source :=
    match source.toList with
    | '\ufeff' :: source => source
    | source => source
  readLines? (source.length + 1) [] [] source

end Toml

end BatchRelay
