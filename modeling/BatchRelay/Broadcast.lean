import BatchRelay.Observation

/-!
# Broadcasting events

Events go to everyone who has subscribed before.  Only the newest events are
kept, as many as the capacity says; whoever falls behind learns how many events
have been missed and goes on with the oldest one that is kept.
-/

namespace BatchRelay

/-- What a subscriber receives. -/
inductive Received where
  | event (event : BatchUpdated)
  /-- There is no event that the subscriber has not seen. -/
  | nothing
  /-- So many events were missed. -/
  | lagged (missed : Nat)
  deriving DecidableEq

structure Broadcast where
  /-- How many events are kept. -/
  capacity : Nat
  /-- How many events there have been. -/
  total : Nat
  /-- The events that are kept, the newest first. -/
  kept : List BatchUpdated
  /-- For each subscriber, how many of all events it has dealt with; `none` when
  it has left. -/
  subscribers : List (Option Nat)
  deriving DecidableEq

namespace Broadcast

/-- The least power of two that is not below a number. -/
def roundUp (number : Nat) : Nat :=
  if number ≤ 1 then 1 else Nat.pow 2 ((number - 1).log2 + 1)

/-- The capacity when none is asked for. -/
def usualCapacity : Nat :=
  1024

/-- A channel without events or subscribers.  The capacity is rounded up to a
power of two. -/
def create (capacity : Nat) : Broadcast :=
  ⟨roundUp capacity, 0, [], []⟩

/-- Adds a subscriber, and returns its number. -/
def subscribe (channel : Broadcast) : Nat × Broadcast :=
  (channel.subscribers.length,
    { channel with subscribers := channel.subscribers ++ [some channel.total] })

/-- Lets a subscriber leave. -/
def leave (channel : Broadcast) (subscriber : Nat) : Broadcast :=
  { channel with subscribers := channel.subscribers.set subscriber none }

/-- Sends an event.  Without any subscriber it is lost. -/
def publish (channel : Broadcast) (event : BatchUpdated) : Broadcast :=
  if channel.subscribers.any Option.isSome then
    { channel with
      total := channel.total + 1
      kept := (event :: channel.kept).take channel.capacity }
  else
    channel

/-- The number of events that are no longer kept. -/
def lost (channel : Broadcast) : Nat :=
  channel.total - channel.kept.length

/-- The channel after a subscriber has dealt with so many events. -/
def advance (channel : Broadcast) (subscriber seen : Nat) : Broadcast :=
  { channel with subscribers := channel.subscribers.set subscriber (some seen) }

/-- What a subscriber receives next. -/
def receive (channel : Broadcast) (subscriber : Nat) : Received × Broadcast :=
  match (channel.subscribers[subscriber]?).join with
  | none => (.nothing, channel)
  | some seen =>
      if seen < channel.lost then
        (.lagged (channel.lost - seen), channel.advance subscriber channel.lost)
      else
        match channel.kept.reverse[seen - channel.lost]? with
        | some event => (.event event, channel.advance subscriber (seen + 1))
        | none => (.nothing, channel)

end Broadcast

end BatchRelay
