import BatchRelay.Cache.Memory
import BatchRelay.Cache.Table

/-!
# The shared cache

Texts under keys, with an optional time to live in milliseconds.  There are two
kinds of cache with the same operations, and every operation is told the
current moment in milliseconds.  A write may overflow: `set?` and `setIfAbsent?`
tell whether it does, and `set` and `setIfAbsent` are for when it does not.
-/

namespace BatchRelay

inductive Cache where
  | memory (cache : MemoryCache)
  | table (cache : TableCache)
  deriving DecidableEq

namespace Cache

/-- The value under a key. -/
def get : Cache → Int → String → Option String
  | .memory cache => cache.get
  | .table cache => cache.get

/-- The values under many keys, in the order of the keys. -/
def getMany : Cache → Int → List String → List (Option String)
  | .memory cache => cache.getMany
  | .table cache => cache.getMany

/-- The cache with a value put under a key. -/
def set (cache : Cache) (now : Int) (key value : String) (ttl : Option Nat) :
    Cache :=
  match cache with
  | .memory cache => .memory (cache.set now key value ttl)
  | .table cache => .table (cache.set now key value ttl)

/-- The cache with a value put under a key, unless its deadline overflows. -/
def set? (cache : Cache) (now : Int) (key value : String) (ttl : Option Nat) :
    Except Overflow Cache :=
  match cache with
  | .memory cache => (cache.set? now key value ttl).map .memory
  | .table cache => (cache.set? now key value ttl).map .table

/-- Puts a value under a key that has none, and tells whether it did. -/
def setIfAbsent (cache : Cache) (now : Int) (key value : String) (ttl : Nat) :
    Bool × Cache :=
  match cache with
  | .memory cache =>
      let (stored, cache) := cache.setIfAbsent now key value ttl
      (stored, .memory cache)
  | .table cache =>
      let (stored, cache) := cache.setIfAbsent now key value ttl
      (stored, .table cache)

/-- Puts a value under a key that has none, unless its deadline overflows. -/
def setIfAbsent? (cache : Cache) (now : Int) (key value : String) (ttl : Nat) :
    Except Overflow (Bool × Cache) :=
  match cache with
  | .memory cache =>
      (cache.setIfAbsent? now key value ttl).map fun (stored, cache) =>
        (stored, .memory cache)
  | .table cache =>
      (cache.setIfAbsent? now key value ttl).map fun (stored, cache) =>
        (stored, .table cache)

/-- The cache without a key. -/
def delete (cache : Cache) (key : String) : Cache :=
  match cache with
  | .memory cache => .memory (cache.delete key)
  | .table cache => .table (cache.delete key)

/-- Deletes the value under a key if it is this one, and tells whether it
did. -/
def deleteIfEquals (cache : Cache) (now : Int) (key value : String) :
    Bool × Cache :=
  match cache with
  | .memory cache =>
      let (deleted, cache) := cache.deleteIfEquals now key value
      (deleted, .memory cache)
  | .table cache =>
      let (deleted, cache) := cache.deleteIfEquals key value
      (deleted, .table cache)

/-- The keys that start with a text, in order. -/
def keys : Cache → Int → String → List String
  | .memory cache => cache.keys
  | .table cache => cache.keys

/-- All keys and values, in the order of the keys. -/
def contents (cache : Cache) (now : Int) : List (String × String) :=
  (cache.keys now "").filterMap fun key =>
    (cache.get now key).map fun value => (key, value)

end Cache

end BatchRelay
