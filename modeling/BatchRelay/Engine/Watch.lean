import BatchRelay.Engine.Pass
import BatchRelay.Registry.Checkpoints

/-!
# Watching shards

A tick visits every shard once.  It reads the blocks after the checkpoint up to
the latest one, but none that lies further back than allowed; without a
checkpoint it reads the latest block only.  The checkpoint moves on after each
block.  Whatever fails ends the visit of its shard, and the next tick takes up
the shard from its checkpoint.

Only one tick runs at a time; another one that begins meanwhile does nothing.

There is no nonce after the last one of all.  A shard whose checkpoint is there
ends the whole tick, and what this has changed is not announced.
-/

namespace BatchRelay

structure WatchSettings where
  shards : List UInt32
  /-- How far behind the latest block a tick starts at most. -/
  lookBehind : UInt64
  deriving DecidableEq

namespace Watch

/-- The difference of two nonces, or zero when it would be negative. -/
def behind (latest distance : UInt64) : UInt64 :=
  if latest < distance then 0 else latest - distance

/-- The nonce after another one. -/
def successor (nonce : UInt64) : Except Overflow UInt64 :=
  if nonce.toNat + 1 < UInt64.size then .ok (nonce + 1) else .error .nonce

/-- The block after the checkpoint, or the earliest one that is not too far back;
without a checkpoint the latest one. -/
def nextUnread (checkpoint : Option UInt64) (latest lookBehind : UInt64) :
    Except Overflow UInt64 :=
  match checkpoint with
  | none => return latest
  | some last => return max (← successor last) (behind latest lookBehind)

/-- The first block to read; `none` when the shard is up to date. -/
def startNonce (checkpoint : Option UInt64) (latest lookBehind : UInt64) :
    Except Overflow (Option UInt64) := do
  let start ← nextUnread checkpoint latest lookBehind
  return if start ≤ latest then some start else none

/-- Applies the final outcomes among the transactions of a block. -/
def applyObserved (lifetimes : Lifetimes) (routes : List (String × Route)) :
    List ObservedTransaction → Activity (List Attempt)
  | [] => return []
  | transaction :: transactions =>
      match routes.lookup transaction.hash, transaction.status.outcome? with
      | some route, some outcome => do
          let attempt ← Attempt.make lifetimes transaction.hash route outcome
          let attempts ← applyObserved lifetimes routes transactions
          return attempt :: attempts
      | _, _ => applyObserved lifetimes routes transactions

/-- Deals with the transactions of one block. -/
def processBlock (lifetimes : Lifetimes)
    (transactions : List ObservedTransaction) :
    Activity (Except CacheError (List Attempt)) := do
  if transactions = [] then
    return .ok []
  else
    match ← Routes.getMany (transactions.map ObservedTransaction.hash) with
    | .error error => return .error error
    | .ok routes => return .ok (← applyObserved lifetimes routes transactions)

/-- Reads so many blocks of a shard, as long as nothing fails. -/
def readBlocks (lifetimes : Lifetimes) (shard : UInt32) :
    Nat → UInt64 → Activity (List Attempt)
  | 0, _ => return []
  | count + 1, nonce => do
      match ← Activity.request (.block shard nonce) with
      | .error _ => return []
      | .ok transactions =>
          match ← processBlock lifetimes transactions with
          | .error _ => return []
          | .ok attempts =>
              match ← Checkpoints.set lifetimes shard nonce with
              | .error _ => return attempts
              | .ok () =>
                  let later ← readBlocks lifetimes shard count (nonce + 1)
                  return attempts ++ later

/-- Visits one shard. -/
def visit (lifetimes : Lifetimes) (lookBehind : UInt64) (shard : UInt32) :
    Activity (Except Overflow (List Attempt)) := do
  match ← Activity.request (.latestNonce shard) with
  | .error _ => return .ok []
  | .ok latest =>
      match ← Checkpoints.get shard with
      | .error _ => return .ok []
      | .ok checkpoint =>
          match startNonce checkpoint latest lookBehind with
          | .error overflow => return .error overflow
          | .ok none => return .ok []
          | .ok (some start) =>
              let count := latest.toNat - start.toNat + 1
              return .ok (← readBlocks lifetimes shard count start)

/-- Visits shards one after the other. -/
def visitAll (lifetimes : Lifetimes) (lookBehind : UInt64) :
    List UInt32 → Activity (Except Overflow (List Attempt))
  | [] => return .ok []
  | shard :: shards => do
      match ← visit lifetimes lookBehind shard with
      | .error overflow => return .error overflow
      | .ok attempts =>
          let others ← visitAll lifetimes lookBehind shards
          return others.map (attempts ++ ·)

/-- One pass over all shards, with its announcements. -/
def pass (lifetimes : Lifetimes) (settings : WatchSettings) :
    Activity (Except Overflow (List Attempt)) := do
  match ← visitAll lifetimes settings.lookBehind settings.shards with
  | .error overflow => return .error overflow
  | .ok attempts =>
      publishAll (announcements attempts)
      return .ok attempts

/-- Begins a tick, unless one is running. -/
def tryBegin : Activity Bool :=
  Activity.request .beginTick

/-- Ends the running tick. -/
def finish : Activity Unit :=
  Activity.request .endTick

/-- One tick.  It tells whether it did anything, and it is over even if it ends
with an overflow. -/
def tick (lifetimes : Lifetimes) (settings : WatchSettings) :
    Activity (Except Overflow Bool) := do
  if ← tryBegin then
    let attempts ← pass lifetimes settings
    finish
    return attempts.map fun _ => true
  else
    return .ok false

end Watch

end BatchRelay
