import BatchRelay.Engine.Schedule
import BatchRelay.Proofs.Engine.Runs
import Mathlib.Logic.Function.Iterate

/-!
# Loops

While every answer comes at once, a loop is its activity over and over, once for
each interval that begins within its time.  So a loop of a command is a run, and
whatever holds of runs holds of loops.
-/

namespace BatchRelay

variable {surroundings : Surroundings} {loop : Loop} {timeline : Timeline}

/-- The number of intervals that begin within so many milliseconds. -/
def Loop.starts (loop : Loop) (duration : Nat) : Nat :=
  if loop.interval = 0 then 0
  else (duration + loop.interval - 1) / loop.interval

namespace Timeline

/-- Only the loop is waiting, for a moment to come. -/
def AwaitsStart (timeline : Timeline) (due : Nat) : Prop :=
  timeline.timers = [⟨due, .start⟩]

/-- The world after an activity has been run so many times. -/
def worldAfter (surroundings : Surroundings) (activity : Activity Unit) (times : Nat)
    (world : World) : World :=
  (fun world => (surroundings.run activity world).2)^[times] world

theorem AwaitsStart.nextMoment {due : Nat} (awaits : timeline.AwaitsStart due)
    (latest : Nat) : timeline.nextMoment latest = min latest due := by
  rw [Timeline.nextMoment, awaits]
  rfl

variable (surroundings loop) in
/-- The timeline after a start. -/
def started (timeline : Timeline) : Timeline :=
  ⟨(surroundings.run loop.activity timeline.world).2, timeline.elapsed,
    [⟨timeline.elapsed + loop.interval, .start⟩]⟩

/-- The activity runs, and the loop waits for its next start. -/
theorem AwaitsStart.turn (awaits : timeline.AwaitsStart timeline.elapsed) :
    Timeline.turn surroundings 0 loop timeline =
      timeline.started surroundings loop := by
  have split : timeline.timers.partition (fun timer => timer.due ≤ timeline.elapsed) =
      ([⟨timeline.elapsed, .start⟩], []) := by
    rw [awaits]
    simp [List.partition_eq_filter_filter]
  simp only [Timeline.turn, split, List.foldl_cons, List.foldl_nil, goOff]
  cases detached : loop.detached <;>
    simp [begin, setTimer, Timer.isStart, started]

/-- The loop starts while there is time, and then waits. -/
theorem AwaitsStart.advance {stop due times fuel : Nat}
    (awaits : timeline.AwaitsStart due) (enough : times ≤ fuel)
    (before : ∀ start < times, due + start * loop.interval < stop)
    (reached : stop ≤ due + times * loop.interval) :
    Timeline.advance surroundings 0 loop stop fuel timeline =
      ⟨worldAfter surroundings loop.activity times timeline.world, stop,
        [⟨due + times * loop.interval, .start⟩]⟩ := by
  -- The starts keep their distance, so the next one is the first of the others.
  induction times generalizing fuel timeline due with
  | zero =>
      rw [Nat.zero_mul, Nat.add_zero] at reached ⊢
      cases fuel with
      | zero =>
          rw [Timeline.advance, awaits]
          rfl
      | succ fuel =>
          rw [Timeline.advance, awaits.nextMoment, Nat.min_eq_left reached,
            if_pos (Nat.le_refl stop), awaits]
          rfl
  | succ times induction =>
      obtain ⟨fuel, rfl⟩ : ∃ fuel', fuel = fuel' + 1 := ⟨fuel - 1, by omega⟩
      have early : due < stop := by simpa using before 0 times.succ_pos
      have next (start : Nat) : due + (start + 1) * loop.interval =
          due + loop.interval + start * loop.interval := by
        rw [Nat.succ_mul]
        omega
      rw [next] at reached ⊢
      let now : Timeline := { timeline with elapsed := due }
      have turned : Timeline.turn surroundings 0 loop now = now.started surroundings loop :=
        AwaitsStart.turn awaits
      have awaits' : (now.started surroundings loop).AwaitsStart (due + loop.interval) :=
        rfl
      rw [Timeline.advance, awaits.nextMoment, Nat.min_eq_right (Nat.le_of_lt early),
        if_neg (Nat.not_le.mpr early), turned]
      refine induction awaits' (Nat.le_of_succ_le_succ enough) (fun start small => ?_)
        reached
      rw [← next]
      exact before _ (Nat.succ_lt_succ small)

/-- A start for each interval that has begun. -/
theorem starts_spec (positive : loop.interval ≠ 0) (duration : Nat) :
    duration ≤ loop.starts duration * loop.interval ∧
      ∀ start < loop.starts duration, start * loop.interval < duration := by
  have pos := Nat.pos_of_ne_zero positive
  rw [Loop.starts, if_neg positive]
  constructor
  · have := Nat.lt_div_mul_add (a := duration + loop.interval - 1) pos
    omega
  · intro start small
    have := (Nat.le_div_iff_mul_le pos).1 small
    rw [Nat.succ_mul] at this
    omega

theorem starts_le (duration : Nat) : loop.starts duration ≤ duration := by
  by_cases never : loop.interval = 0
  · simp [Loop.starts, never]
  · by_contra many
    have early := (starts_spec never duration).2 duration (Nat.lt_of_not_le many)
    have := Nat.le_mul_of_pos_right duration (Nat.pos_of_ne_zero never)
    omega

/-- What a loop does while every answer comes at once. -/
theorem runLoop_eq (idle : timeline.timers = []) (duration : Nat) :
    runLoop surroundings 0 loop duration timeline =
      ⟨worldAfter surroundings loop.activity (loop.starts duration) timeline.world,
        timeline.elapsed + duration + 1, []⟩ := by
  by_cases never : loop.interval = 0
  · simp [runLoop, Timeline.advance, Timeline.nextMoment, never, idle, Loop.starts,
      worldAfter]
  · obtain ⟨reached, before⟩ := starts_spec never duration
    have awaits : (timeline.setTimer 1 .start).AwaitsStart (timeline.elapsed + 1) := by
      rw [AwaitsStart, setTimer, idle]
      rfl
    have few : loop.starts duration ≤ duration := starts_le duration
    have advanced :
        Timeline.advance surroundings 0 loop (timeline.elapsed + duration + 1)
            (duration + 2) (timeline.setTimer 1 .start) =
          ⟨worldAfter surroundings loop.activity (loop.starts duration) timeline.world,
            timeline.elapsed + duration + 1,
            [⟨timeline.elapsed + 1 + loop.starts duration * loop.interval,
              .start⟩]⟩ := by
      refine awaits.advance (by omega) (fun start small => ?_) (by omega)
      have := before start small
      omega
    simp only [runLoop, if_neg never, advanced]
    rfl

theorem worldAfter_command {lifetimes : Lifetimes} (command : Command) (times : Nat)
    (world : World) :
    worldAfter surroundings (command.perform lifetimes) times world =
      (surroundings.run (performAll lifetimes (List.replicate times command)) world).2 := by
  induction times generalizing world with
  | zero => rfl
  | succ times induction =>
      rw [List.replicate_succ, Surroundings.run_performAll_cons]
      exact induction _

/-- A loop of a command is a run of that command, as often as it starts. -/
theorem runLoop_command {lifetimes : Lifetimes} {command : Command}
    (carries : loop.activity = command.perform lifetimes)
    (idle : timeline.timers = []) (duration : Nat) :
    (runLoop surroundings 0 loop duration timeline).world =
      (surroundings.run (performAll lifetimes
        (List.replicate (loop.starts duration) command)) timeline.world).2 := by
  rw [runLoop_eq idle, carries, worldAfter_command]

end Timeline

end BatchRelay
