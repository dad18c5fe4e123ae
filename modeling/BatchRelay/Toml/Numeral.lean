import BatchRelay.Bytes.Hex
import BatchRelay.Text.Scale
import BatchRelay.Time.Timestamp

/-!
# Numbers and moments of TOML

Integers are written in base ten with an optional sign, or in base sixteen,
eight or two behind `0x`, `0o` or `0b`; they fit into 64 bits with a sign.  An
underscore may stand between two digits.  A number with a fraction or an
exponent is a floating point number and must not be too large.  Dates and times
have fixed widths and must exist.
-/

namespace BatchRelay

namespace Toml

/-- Digits of a base at the front of a text, as their values; an underscore
may stand between two of them.  `none` when there is no digit, or an underscore
that no digit follows. -/
def readDigits? (base : Nat) : List Char → Option (List Nat × List Char)
  | [] => none
  | first :: remainder => do
      let value ← Hex.digitValue? first
      if base ≤ value then
        none
      else
        match remainder with
        | [] => return ([value], [])
        | '_' :: remainder =>
            let (values, remainder) ← readDigits? base remainder
            return (value :: values, remainder)
        | second :: others =>
            if (Hex.digitValue? second).any (· < base) then
              let (values, remainder) ← readDigits? base (second :: others)
              return (value :: values, remainder)
            else
              return ([value], second :: others)

/-- The number that digits of a base make. -/
def digitsValue (base : Nat) (digits : List Nat) : Nat :=
  digits.foldl (fun value digit => value * base + digit) 0

/-- The least number that is too large for an integer. -/
def limit : Nat :=
  9223372036854775808

/-- An integer in one of the bases with a leading mark. -/
def readMarked? (base : Nat) (source : List Char) : Option (Int × List Char) := do
  let (digits, source) ← readDigits? base source
  let value := digitsValue base digits
  if value < limit then return (value, source) else none

/-- A sign, if there is one, and what comes after it. -/
def readSign : List Char → Bool × List Char
  | '-' :: source => (true, source)
  | '+' :: source => (false, source)
  | source => (false, source)

/-- The whole digits of a number in base ten: no zero comes before other
digits. -/
def readWhole? (source : List Char) : Option (Nat × List Char) :=
  match source with
  | '0' :: source => some (0, source)
  | source => do
      let (digits, source) ← readDigits? 10 source
      return (digitsValue 10 digits, source)

/-- An integer. -/
def readInteger? (source : List Char) : Option (Int × List Char) :=
  match source with
  | '0' :: 'x' :: source => readMarked? 16 source
  | '0' :: 'o' :: source => readMarked? 8 source
  | '0' :: 'b' :: source => readMarked? 2 source
  | source => do
      let (negative, source) := readSign source
      let (whole, source) ← readWhole? source
      let value : Int := if negative then -whole else whole
      if -limit ≤ value ∧ value < limit then
        return (value, source)
      else
        none

/-- What comes after an exponent, with the exponent. -/
def readPower? (source : List Char) : Option (Int × List Char) := do
  let (negative, source) := readSign source
  let (digits, source) ← readDigits? 10 source
  let size : Int := digitsValue 10 digits
  return (if negative then -size else size, source)

/-- The fraction and the exponent of a floating point number; there is at
least one of them. -/
def readScale? (source : List Char) : Option (Scale × List Char) :=
  match source with
  | '.' :: source => do
      let (digits, source) ← readDigits? 10 source
      let fraction := digitsValue 10 digits
      match source with
      | 'e' :: source | 'E' :: source =>
          let (exponent, source) ← readPower? source
          return (⟨fraction, digits.length, exponent⟩, source)
      | source => return (⟨fraction, digits.length, 0⟩, source)
  | 'e' :: source | 'E' :: source => do
      let (exponent, source) ← readPower? source
      return (⟨0, 0, exponent⟩, source)
  | _ => none

/-- What comes after a floating point number.  Positive infinity has a word of
its own, so a numeral may not stand for it; a negative one may be of any
size. -/
def skipFloat? (source : List Char) : Option (List Char) := do
  let (negative, source) := readSign source
  match source with
  | 'i' :: 'n' :: 'f' :: source | 'n' :: 'a' :: 'n' :: source => return source
  | source =>
      let (whole, source) ← readWhole? source
      let (scale, source) ← readScale? source
      if negative ∨ scale.finite whole then return source else none

/-- What comes after a time of day. -/
def skipTime? (source : List Char) : Option (List Char) :=
  (Timestamp.readTime? source).map Prod.snd

/-- What comes after a distance from universal time, or the text itself when
there is none at its front. -/
def skipOffset? (source : List Char) : Option (List Char) :=
  match source with
  | 'Z' :: _ | 'z' :: _ | '+' :: _ | '-' :: _ =>
      (Timestamp.readOffset? source).map Prod.snd
  | source => some source

/-- What comes after a date. -/
def skipDate? (source : List Char) : Option (List Char) :=
  (Timestamp.readDate? source).map Prod.snd

/-- What comes after a date, a time, or a date with a time. -/
def skipMoment? (source : List Char) : Option (List Char) :=
  match skipDate? source with
  | none => skipTime? source
  | some source =>
      match source with
      | 'T' :: time | 't' :: time => do skipOffset? (← skipTime? time)
      | ' ' :: time =>
          match skipTime? time with
          | some source => skipOffset? source
          | none => some source
      | source => some source

end Toml

end BatchRelay
