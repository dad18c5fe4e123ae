import BatchRelay.Cache.Entries
import BatchRelay.Failure

/-!
# The cache in memory

Entries of one process.  An entry that no longer counts is treated as absent
everywhere; `set` removes all of them.

The clock counts seconds in 64 bits with a sign.  A write whose deadline is beyond
them ends in an overflow: `set?` and `setIfAbsent?` are `set` and `setIfAbsent`
with this check.
-/

namespace BatchRelay

structure MemoryCache where
  entries : Entries
  deriving DecidableEq

namespace MemoryCache

def empty : MemoryCache :=
  ⟨[]⟩

/-- The moment from which an entry written now no longer counts. -/
def deadline (now : Int) (ttl : Nat) : Int :=
  now + ttl

/-- Whether the clock gets to the deadline. -/
def fits (now : Int) (ttl : Nat) : Bool :=
  deadline now ttl / 1000 ≤ Int64.maxValue.toInt

def get (cache : MemoryCache) (now : Int) (key : String) : Option String :=
  (cache.entries.findLive? now key).map Entry.value

def getMany (cache : MemoryCache) (now : Int) (keys : List String) :
    List (Option String) :=
  keys.map (cache.get now)

def set (cache : MemoryCache) (now : Int) (key value : String)
    (ttl : Option Nat) : MemoryCache :=
  ⟨(cache.entries.live now).put key ⟨value, ttl.map (deadline now)⟩⟩

def set? (cache : MemoryCache) (now : Int) (key value : String)
    (ttl : Option Nat) : Except Overflow MemoryCache :=
  if ttl.all (fits now) then .ok (cache.set now key value ttl)
  else .error .deadline

/-- Writes an entry unless there is one that counts. -/
def setIfAbsent (cache : MemoryCache) (now : Int) (key value : String)
    (ttl : Nat) : Bool × MemoryCache :=
  if (cache.entries.findLive? now key).isSome then
    (false, cache)
  else
    (true, ⟨cache.entries.put key ⟨value, some (deadline now ttl)⟩⟩)

/-- The deadline is only computed when there is no entry that counts. -/
def setIfAbsent? (cache : MemoryCache) (now : Int) (key value : String)
    (ttl : Nat) : Except Overflow (Bool × MemoryCache) :=
  if (cache.entries.findLive? now key).isSome || fits now ttl then
    .ok (cache.setIfAbsent now key value ttl)
  else
    .error .deadline

def delete (cache : MemoryCache) (key : String) : MemoryCache :=
  ⟨cache.entries.erase key⟩

/-- Deletes an entry that counts and has this value. -/
def deleteIfEquals (cache : MemoryCache) (now : Int) (key value : String) :
    Bool × MemoryCache :=
  if cache.get now key = some value then
    (true, cache.delete key)
  else
    (false, cache)

def keys (cache : MemoryCache) (now : Int) (leading : String) : List String :=
  Entries.sortedKeys <| (cache.entries.live now).filter fun (key, _) =>
    Pieces.leads leading key

end MemoryCache

end BatchRelay
