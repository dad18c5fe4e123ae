import BatchRelay.Transaction.Encoding

/-!
# Batches

A batch is a list of groups, and a group is a list of items.  The groups run
one after the other; the items of a group run together.  Each item pairs a
transaction with the hash under which the network knows it and with what has
become of it.
-/

namespace BatchRelay

/-- What has become of an item. -/
inductive ItemStatus where
  | pending
  | success
  | invalid
  | dropped
  deriving DecidableEq

/-- A status that the engine never leaves again. -/
def ItemStatus.isTerminal (status : ItemStatus) : Bool :=
  status ≠ .pending

/-- What has become of a batch. -/
inductive BatchStatus where
  | pending
  | invalid
  | dropped
  | success
  deriving DecidableEq

/-- A transaction and the hash under which its outcome will be reported. -/
structure HashedTransaction where
  payload : Transaction
  hash : String
  deriving DecidableEq

structure Item where
  transaction : HashedTransaction
  status : ItemStatus
  /-- The network's reason, when it refused the transaction. -/
  error : Option String
  deriving DecidableEq

namespace Item

def hash (item : Item) : String :=
  item.transaction.hash

def payload (item : Item) : Transaction :=
  item.transaction.payload

/-- A fresh item under the hash that the network will compute. -/
def fresh (payload : Transaction) : Except EncodingError Item := do
  return ⟨⟨payload, ← payload.hash⟩, .pending, none⟩

/-- The item under the hash that the network gave it. -/
def adopt (item : Item) (hash : String) : Item :=
  { item with transaction := { item.transaction with hash := hash } }

/-- The item after the network did not take it. -/
def refuse (item : Item) (error : Option String) : Item :=
  { item with status := .invalid, error := error }

end Item

structure Group where
  items : List Item
  deriving DecidableEq

namespace Group

/-- Whether every item of the group has succeeded. -/
def isSuccessful (group : Group) : Bool :=
  group.items.all fun item => item.status = .success

/-- The hashes of the invalid items. -/
def invalidHashes (group : Group) : List String :=
  (group.items.filter fun item => item.status = .invalid).map Item.hash

end Group

structure Batch where
  id : String
  groups : List Group
  status : BatchStatus
  sourceIp : Option String
  deriving DecidableEq

/-- The place of an item in a batch. -/
structure Position where
  group : Nat
  item : Nat
  deriving DecidableEq

namespace Batch

/-- The sender of the first item, which is the sender of all of them in a
batch that was checked. -/
def address? (batch : Batch) : Option String := do
  let group ← batch.groups.head?
  let item ← group.items.head?
  return item.payload.sender

/-- The first place of an item with this hash, where the groups are numbered
from `start`. -/
def locateFrom (hash : String) : Nat → List Group → Option Position
  | _, [] => none
  | start, group :: groups =>
      match group.items.findIdx? fun item => item.hash = hash with
      | some index => some ⟨start, index⟩
      | none => locateFrom hash (start + 1) groups

/-- The first place of an item with this hash. -/
def locate (batch : Batch) (hash : String) : Option Position :=
  locateFrom hash 0 batch.groups

/-- The item at a place. -/
def item? (batch : Batch) (position : Position) : Option Item := do
  let group ← batch.groups[position.group]?
  group.items[position.item]?

/-- The batch with one group changed. -/
def modifyGroup (batch : Batch) (index : Nat) (change : Group → Group) : Batch :=
  { batch with groups := batch.groups.modify index change }

/-- The batch with the status of one item changed. -/
def setItemStatus (batch : Batch) (position : Position) (status : ItemStatus) :
    Batch :=
  batch.modifyGroup position.group fun group =>
    ⟨group.items.modify position.item fun item => { item with status := status }⟩

end Batch

end BatchRelay
