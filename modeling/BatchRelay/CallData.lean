import BatchRelay.Bytes.Base64
import BatchRelay.Bytes.Hex
import BatchRelay.Observation
import BatchRelay.Text.Utf8

/-!
# Call data

The data of a transaction may name a function and its arguments, separated by
`@`, as text in base 64.  For four functions the first argument is the
hexadecimal form of a text worth noting: the collection or the token that the
call is about.
-/

namespace BatchRelay

/-- A function call in the data of a transaction. -/
structure Call where
  function : String
  arguments : List String
  deriving DecidableEq

/-- The call in the data of a transaction, if there is one. -/
def Call.parse? (data : String) : Option Call := do
  let bytes ← Base64.decode? data.toList
  let text ← Utf8.decode? bytes
  match text.toList.splitOn '@' with
  | function :: arguments =>
      if function = [] then
        none
      else
        return ⟨String.ofList function, arguments.map String.ofList⟩
  | [] => none

/-- What a call is about. -/
inductive Subject where
  | nftCreate (collection : String)
  | sftChange (collection : String)
  | transferOwnership (identifier : String)
  | controlChanges (identifier : String)
  deriving DecidableEq

namespace Subject

/-- The text behind a hexadecimal argument, if it is not empty. -/
def named? (argument : String) : Option String := do
  let text ← Utf8.decode? (← Hex.decode? argument.toList)
  if text = "" then none else return text

/-- The text behind the first argument, if there are enough arguments. -/
def firstOf? (least : Nat) (arguments : List String) : Option String := do
  if arguments.length < least then none
  named? (← arguments.head?)

/-- What a call of a transaction is about.  Creation counts only as a call of
the sender to itself. -/
def ofCall? (transaction : ObservedTransaction) (call : Call) : Option Subject :=
  match call.function with
  | "ESDTNFTCreate" =>
      if transaction.sender = transaction.receiver then
        (firstOf? 6 call.arguments).map nftCreate
      else
        none
  | "changeSFTToMetaESDT" => (firstOf? 1 call.arguments).map sftChange
  | "transferOwnership" => (firstOf? 2 call.arguments).map transferOwnership
  | "controlChanges" => (firstOf? 1 call.arguments).map controlChanges
  | _ => none

/-- What the call in a transaction is about. -/
def of? (transaction : ObservedTransaction) : Option Subject := do
  ofCall? transaction (← Call.parse? (← transaction.data))

end Subject

end BatchRelay
