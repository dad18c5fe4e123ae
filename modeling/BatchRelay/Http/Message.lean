import BatchRelay.Bytes.Hex
import BatchRelay.Json.Record
import BatchRelay.Text.Utf8

/-!
# HTTP messages

As much of requests and responses as the service looks at: method, path, header
fields and body of a request, and status and JSON body of a response.
-/

namespace BatchRelay

structure HttpRequest where
  method : String
  uri : String
  headers : List (String × String)
  body : String

structure HttpResponse where
  status : Nat
  body : Option Json

namespace HttpRequest

/-- The lower-case form of a header name. -/
def lowerCase (name : String) : List Char :=
  name.toList.map Char.toLower

/-- The value of the first header field of a name. -/
def header? (request : HttpRequest) (name : String) : Option String :=
  (request.headers.find? fun (other, _) => lowerCase other = lowerCase name).map
    Prod.snd

/-- Whether a header value is text: visible ASCII characters, blanks and
tabs. -/
def isVisible (value : String) : Bool :=
  value.toList.all fun character =>
    character = '\t' || (32 ≤ character.toNat && character.toNat < 127)

/-- The value of the first header field of a name, if it is text. -/
def text? (request : HttpRequest) (name : String) : Option String :=
  (request.header? name).filter isVisible

/-- Where the path begins: after the scheme and the host, if they are given.
The host ends where a path, a query or a fragment starts. -/
def afterHost : List Char → List Char
  | [] => []
  | ':' :: '/' :: '/' :: remainder =>
      remainder.dropWhile fun character =>
        character ≠ '/' && character ≠ '?' && character ≠ '#'
  | _ :: remainder => afterHost remainder

/-- The path of a request, as it is written. -/
def path (request : HttpRequest) : List Char :=
  let target := request.uri.toList
  let target := if target.head? = some '/' then target else afterHost target
  target.takeWhile fun character => character ≠ '?' && character ≠ '#'

end HttpRequest

/-- The bytes of a part of a path.  A percent sign without two digits after it
stands for itself. -/
def percentDecode : List UInt8 → List UInt8
  | [] => []
  | 37 :: high :: low :: remainder =>
      match Hex.digitValue? (Char.ofNat high.toNat),
          Hex.digitValue? (Char.ofNat low.toNat) with
      | some upper, some lower =>
          UInt8.ofNat (upper * 16 + lower) :: percentDecode remainder
      | _, _ => 37 :: percentDecode (high :: low :: remainder)
  | byte :: remainder => byte :: percentDecode remainder

/-- The text behind a part of a path, if it is one. -/
def percentText? (part : List Char) : Option String :=
  Utf8.decode? (percentDecode (Utf8.encode (String.ofList part)))

namespace MediaType

/-- The characters of names in a media type. -/
def isToken (character : Char) : Bool :=
  character.isAlphanum || "!#$%&'*+-.^_|~".toList.contains character ||
    character = '\x60'

/-- The characters of quoted values. -/
def isQuotable (character : Char) : Bool :=
  32 ≤ character.toNat && character.toNat ≠ 127

/-- What comes after a quoted value and the blanks behind it.  The value is not
empty: a mark right after the opening one belongs to it.  Any later mark ends
the value, also behind a backslash. -/
def afterQuote? (started : Bool) : List Char → Option (List Char)
  | [] => none
  | '"' :: remainder =>
      if started then some (remainder.dropWhile (· = ' '))
      else afterQuote? true remainder
  | character :: remainder =>
      if isQuotable character then afterQuote? true remainder else none

/-- What comes after the value of a parameter.  Only at the end of the text may
the value be missing. -/
def afterValue? : List Char → Option (List Char)
  | '"' :: remainder => afterQuote? false remainder
  | ';' :: _ => none
  | remainder => some (remainder.dropWhile isToken)

/-- Whether a text is a run of parameters, each with a semicolon before it.
`fuel` bounds their number. -/
def parametersOk : Nat → List Char → Bool
  | _, [] => true
  | 0, _ => false
  | fuel + 1, ';' :: remainder =>
      match remainder.dropWhile (· = ' ') with
      | [] => true
      | parameter =>
          match (parameter.takeWhile isToken), parameter.dropWhile isToken with
          | _ :: _, '=' :: value =>
              match afterValue? value with
              | some remainder => parametersOk fuel remainder
              | none => false
          | _, _ => false
  | _, _ => false

/-- The parts of a subtype before and after its last plus sign, where the part
before must not be empty. -/
def splitSubtype (subtype : List Char) : List Char × Option (List Char) :=
  let suffix := (subtype.reverse.takeWhile (· ≠ '+')).reverse
  match (subtype.reverse.dropWhile (· ≠ '+')).reverse.dropLast with
  | [] => (subtype, none)
  | base => (base, some suffix)

/-- Whether a subtype is JSON or is built on it. -/
def isJsonSubtype (subtype : List Char) : Bool :=
  let (base, suffix) := splitSubtype subtype
  base = "json".toList || suffix = some "json".toList

/-- Whether a content type announces JSON. -/
def isJson (value : String) : Bool :=
  let letters := value.toList.map Char.toLower
  let kind := letters.takeWhile isToken
  match letters.dropWhile isToken with
  | '/' :: remainder =>
      kind = "application".toList && isJsonSubtype (remainder.takeWhile isToken) &&
        parametersOk value.length (remainder.dropWhile isToken)
  | _ => false

end MediaType

end BatchRelay
