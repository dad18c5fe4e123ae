import BatchRelay.Engine.World

/-!
# Periodic activities

A loop starts an activity at fixed intervals.  An activity that asks for the
latest nonce of a shard waits for the answer while time passes, and the answer
is that of the moment of its arrival.

Everything that is to go on later has a timer.  Time passes in whole
milliseconds, and since the moments at which timers are set lie between two of
them, a timer for `n` milliseconds goes off after `n + 1`.  The starts of a loop
keep their distance from its first one.  At one moment timers go off in the
order in which they were set.
-/

namespace BatchRelay

/-- What is left of an activity that has asked for the latest nonce of a
shard. -/
structure Pending where
  shard : UInt32
  next : Except GatewayError UInt64 → Activity Unit

/-- What goes on when a timer goes off. -/
inductive Alarm where
  /-- The answer to a question arrives. -/
  | arrival (pending : Pending)
  /-- The loop starts its activity. -/
  | start

structure Timer where
  /-- The millisecond in which it goes off. -/
  due : Nat
  alarm : Alarm

/-- Whether a timer belongs to the loop. -/
def Timer.isStart (timer : Timer) : Bool :=
  match timer.alarm with
  | .start => true
  | .arrival _ => false

/-- A world in time. -/
structure Timeline where
  world : World
  /-- Milliseconds that have passed. -/
  elapsed : Nat
  /-- The timers that have not gone off, the oldest first. -/
  timers : List Timer

/-- What a loop does. -/
structure Loop where
  activity : Activity Unit
  interval : Nat
  /-- Whether the activity runs apart from the loop.  Then it begins after
  everything else that goes on at the same moment. -/
  detached : Bool

/-- Runs an activity to its end, or until it has asked for a latest nonce. -/
def Surroundings.runToWait (surroundings : Surroundings) :
    Activity Unit → World → Option Pending × World
  | .done (), world => (none, world)
  | .ask (.latestNonce shard) next, world =>
      (some ⟨shard, next⟩, world.note (.askedLatest shard))
  | .ask request next, world =>
      let (reply, world) := surroundings.answer world request
      runToWait surroundings (next reply) world

namespace Timeline

/-- A timeline at its beginning. -/
def start (world : World) : Timeline :=
  ⟨world, 0, []⟩

/-- Sets a timer that goes off after so many milliseconds. -/
def setTimer (after : Nat) (alarm : Alarm) (timeline : Timeline) : Timeline :=
  { timeline with timers := timeline.timers ++ [⟨timeline.elapsed + after, alarm⟩] }

variable (surroundings : Surroundings) (delay : Nat)

/-- Runs an activity.  The answers that take time arrive after `delay`; without
a delay nothing waits. -/
def begin (activity : Activity Unit) (timeline : Timeline) : Timeline :=
  if delay = 0 then
    { timeline with world := (surroundings.run activity timeline.world).2 }
  else
    match surroundings.runToWait activity timeline.world with
    | (none, world) => { timeline with world }
    | (some pending, world) =>
        { timeline with world }.setTimer (delay + 1) (.arrival pending)

/-- Goes on with an activity whose answer arrives. -/
def arrive (pending : Pending) (timeline : Timeline) : Timeline :=
  let answer := surroundings.latestNonce timeline.world.moment pending.shard
  begin surroundings delay (pending.next answer)
    { timeline with world := timeline.world.pass }

/-- Lets a timer go off.  The loop sets its next one after its activity, or at
once if that is detached. -/
def goOff (loop : Loop) (timeline : Timeline) (timer : Timer) : Timeline :=
  match timer.alarm with
  | .arrival pending => arrive surroundings delay pending timeline
  | .start =>
      let timeline :=
        if loop.detached then timeline
        else begin surroundings delay loop.activity timeline
      timeline.setTimer loop.interval .start

/-- Lets all timers go off that are due. -/
def turn (loop : Loop) (timeline : Timeline) : Timeline :=
  let (due, timers) :=
    timeline.timers.partition fun timer => timer.due ≤ timeline.elapsed
  let timeline := due.foldl (goOff surroundings delay loop) { timeline with timers }
  if loop.detached && due.any Timer.isStart then
    begin surroundings delay loop.activity timeline
  else
    timeline

/-- The moment at which the next timer goes off, or `latest` if that comes
first. -/
def nextMoment (timeline : Timeline) (latest : Nat) : Nat :=
  timeline.timers.foldl (fun moment timer => min moment timer.due) latest

/-- Goes from moment to moment up to `stop`, where nothing goes on any more.
`fuel` bounds the number of moments. -/
def advance (loop : Loop) (stop : Nat) : Nat → Timeline → Timeline
  | 0, timeline => { timeline with elapsed := stop }
  | fuel + 1, timeline =>
      let moment := timeline.nextMoment stop
      if stop ≤ moment then
        { timeline with elapsed := stop }
      else
        advance loop stop fuel
          (turn surroundings delay loop { timeline with elapsed := moment })

/-- Runs a loop for so many milliseconds.  Its first start is in the next
millisecond; an interval of zero starts nothing.  Activities that are still
waiting at the end go on in a later loop. -/
def runLoop (loop : Loop) (duration : Nat) (timeline : Timeline) : Timeline :=
  let stop := timeline.elapsed + duration + 1
  let begun := if loop.interval = 0 then timeline else timeline.setTimer 1 .start
  let timeline := advance surroundings delay loop stop (duration + 2) begun
  { timeline with timers := timeline.timers.filter fun timer => !timer.isStart }

end Timeline

end BatchRelay
