import BatchRelay.Cache.Entries
import BatchRelay.Failure

/-!
# The cache in a table

Rows of one table, which outlives the process and may be shared.  Rows that no
longer count stay until a write removes them: `set` removes all of them,
`setIfAbsent` only the one under its own key.  `deleteIfEquals` compares values
alone, so it also takes a row that no longer counts.  Many keys are asked for in
several queries, whose rows are put together before the keys are looked up.

Moments are 64 bit integers with a sign.  A time to live is cut down to them and
may become negative; a write for which the sum of the clock and that number does
not fit ends in an overflow.  `set?` and `setIfAbsent?` are `set` and
`setIfAbsent` with this check.
-/

namespace BatchRelay

structure TableCache where
  rows : Entries
  deriving DecidableEq

namespace TableCache

def empty : TableCache :=
  ⟨[]⟩

/-- The moment from which a row written now no longer counts. -/
def deadline (now : Int) (ttl : Nat) : Int :=
  (Int64.ofInt now + Int64.ofNat ttl).toInt

/-- Whether the sum that makes the deadline fits. -/
def fits (now : Int) (ttl : Nat) : Bool :=
  let sum := (Int64.ofInt now).toInt + (Int64.ofNat ttl).toInt
  Int64.minValue.toInt ≤ sum && sum ≤ Int64.maxValue.toInt

def get (cache : TableCache) (now : Int) (key : String) : Option String :=
  (cache.rows.findLive? now key).map Entry.value

/-- The most keys that one query asks for. -/
def keysPerQuery : Nat :=
  500

/-- The keys that each query asks for. -/
def queries (keys : List String) : List (List String) :=
  (List.range ((keys.length + keysPerQuery - 1) / keysPerQuery)).map
    fun index => (keys.drop (index * keysPerQuery)).take keysPerQuery

/-- What one query finds: the rows of its keys that count. -/
def select (cache : TableCache) (now : Int) (keys : List String) : Entries :=
  keys.filterMap fun key =>
    (cache.rows.findLive? now key).map fun row => (key, row)

/-- What all queries find, the later ones over the earlier ones. -/
def collect (cache : TableCache) (now : Int) (keys : List String) : Entries :=
  (queries keys).foldl (fun found query => found.putAll (cache.select now query)) []

def getMany (cache : TableCache) (now : Int) (keys : List String) :
    List (Option String) :=
  let found := cache.collect now keys
  keys.map fun key => (found.find? key).map Entry.value

def set (cache : TableCache) (now : Int) (key value : String)
    (ttl : Option Nat) : TableCache :=
  ⟨(cache.rows.live now).put key ⟨value, ttl.map (deadline now)⟩⟩

def set? (cache : TableCache) (now : Int) (key value : String)
    (ttl : Option Nat) : Except Overflow TableCache :=
  if ttl.all (fits now) then .ok (cache.set now key value ttl)
  else .error .deadline

/-- The rows without the row under a key, if that no longer counts. -/
def reclaim (rows : Entries) (now : Int) (key : String) : Entries :=
  rows.filter fun (other, entry) => other ≠ key || entry.isLive now

/-- Writes a row unless there is one that counts. -/
def setIfAbsent (cache : TableCache) (now : Int) (key value : String)
    (ttl : Nat) : Bool × TableCache :=
  let rows := reclaim cache.rows now key
  if (rows.find? key).isSome then
    (false, ⟨rows⟩)
  else
    (true, ⟨rows.put key ⟨value, some (deadline now ttl)⟩⟩)

/-- The deadline is computed before it is known whether there is a row. -/
def setIfAbsent? (cache : TableCache) (now : Int) (key value : String)
    (ttl : Nat) : Except Overflow (Bool × TableCache) :=
  if fits now ttl then .ok (cache.setIfAbsent now key value ttl)
  else .error .deadline

def delete (cache : TableCache) (key : String) : TableCache :=
  ⟨cache.rows.erase key⟩

/-- Deletes a row that has this value. -/
def deleteIfEquals (cache : TableCache) (key value : String) :
    Bool × TableCache :=
  if (cache.rows.find? key).map Entry.value = some value then
    (true, cache.delete key)
  else
    (false, cache)

/-- Whether a key starts with a text.  The length of a text is counted up to
its first NUL character, so no key starts with a text that holds one. -/
def matchesLeading (leading key : String) : Bool :=
  !leading.toList.contains '\x00' && Pieces.leads leading key

def keys (cache : TableCache) (now : Int) (leading : String) : List String :=
  Entries.sortedKeys <| (cache.rows.live now).filter fun (key, _) =>
    matchesLeading leading key

end TableCache

end BatchRelay
