import BatchRelay.Registry.Records
import BatchRelay.Text.Decimal

/-!
# Checkpoints

The nonce of the last block of a shard that has been dealt with, as a decimal
numeral.  Reading accepts a plus sign and leading zeros.
-/

namespace BatchRelay

namespace Checkpoints

/-- The key of the checkpoint of a shard. -/
def key (shard : UInt32) : String :=
  "shardnonce:" ++ String.ofList (Decimal.ofNat shard.toNat)

/-- What is wrong with a text that is no nonce. -/
inductive Fault where
  | empty
  | invalidDigit
  | tooLarge
  deriving DecidableEq

def Fault.message : Fault → String
  | .empty => "cannot parse integer from empty string"
  | .invalidDigit => "invalid digit found in string"
  | .tooLarge => "number too large to fit in target type"

/-- Reads digits on top of a number; the first thing wrong is reported. -/
def readDigits (number : Nat) : List Char → Except Fault UInt64
  | [] => .ok (UInt64.ofNat number)
  | character :: remainder =>
      if character.isDigit then
        let next := number * 10 + (character.toNat - '0'.toNat)
        if next < UInt64.size then readDigits next remainder else .error .tooLarge
      else
        .error .invalidDigit

/-- The nonce that a text stands for. -/
def parse : List Char → Except Fault UInt64
  | [] => .error .empty
  | ['+'] => .error .invalidDigit
  | '+' :: digits => readDigits 0 digits
  | digits => readDigits 0 digits

/-- The nonce in a stored text. -/
def decode (value : String) : Except CacheError UInt64 :=
  match parse value.toList with
  | .ok nonce => .ok nonce
  | .error fault =>
      let reason := fault.message
      .error (.serialization s!"shard nonce '{value}': {reason}")

def get (shard : UInt32) : Activity (Except CacheError (Option UInt64)) := do
  match ← Activity.request (.read (key shard)) with
  | .error error => return .error error
  | .ok none => return .ok none
  | .ok (some value) => return (decode value).map some

def set (lifetimes : Lifetimes) (shard : UInt32) (nonce : UInt64) :
    Activity (Except CacheError Unit) :=
  Activity.request (.write (key shard)
    (String.ofList (Decimal.ofNat nonce.toNat)) lifetimes.checkpoint)

end Checkpoints

end BatchRelay
