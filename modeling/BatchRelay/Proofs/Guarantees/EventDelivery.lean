import BatchRelay.Broadcast

/-!
# What a subscriber receives

While it stays, a subscriber deals with every event that is sent, in their order
and with each of them once: it receives the event, or the event is one of so
many that it learns to have missed.  Events are missed only by a subscriber for
whom more of them wait than the channel keeps.
-/

namespace BatchRelay

/-- The event that has been received. -/
def Received.event? : Received → Option BatchUpdated
  | .event update => some update
  | .nothing => none
  | .lagged _ => none

namespace Broadcast

/-! ## The use of a channel -/

inductive Use where
  | subscribe
  | leave (subscriber : Nat)
  | publish (event : BatchUpdated)
  | receive (subscriber : Nat)

/-- The channel after it has been used. -/
def use (channel : Broadcast) : Use → Broadcast
  | .subscribe => channel.subscribe.2
  | .leave subscriber => channel.leave subscriber
  | .publish event => channel.publish event
  | .receive subscriber => (channel.receive subscriber).2

def after (channel : Broadcast) (uses : List Use) : Broadcast :=
  uses.foldl use channel

/-- The events that are sent, the oldest first. -/
def published : List Use → List BatchUpdated
  | [] => []
  | .publish event :: uses => event :: published uses
  | _ :: uses => published uses

/-- What a subscriber receives, the oldest first. -/
def received (subscriber : Nat) : Broadcast → List Use → List Received
  | _, [] => []
  | channel, .receive other :: uses =>
      let rest := received subscriber (channel.receive other).2 uses
      if other = subscriber then (channel.receive subscriber).1 :: rest else rest
  | channel, step :: uses => received subscriber (channel.use step) uses

variable {channel : Broadcast} {subscriber : Nat} {capacity : Nat}
  {earlier waiting : List BatchUpdated}

/-! ## The events that wait -/

/-- The channel keeps the newest of the events in `history`. -/
structure Keeps (channel : Broadcast) (history : List BatchUpdated) : Prop where
  total : channel.total = history.length
  kept : channel.kept = history.reverse.take channel.capacity

/-- A subscriber has dealt with the events of `earlier`, and those of `waiting`
wait for it. -/
structure Awaits (channel : Broadcast) (subscriber : Nat)
    (earlier waiting : List BatchUpdated) : Prop extends
    channel.Keeps (earlier ++ waiting) where
  seen : channel.subscribers[subscriber]? = some (some earlier.length)

/-- As many events are lost as do not fit. -/
theorem Keeps.lost {history : List BatchUpdated} (keeps : channel.Keeps history) :
    channel.lost = history.length - channel.capacity := by
  simp only [Broadcast.lost, keeps.total, keeps.kept, List.length_take,
    List.length_reverse]
  omega

theorem Keeps.oldest {history : List BatchUpdated} (keeps : channel.Keeps history) :
    channel.kept.reverse = history.drop channel.lost := by
  rw [keeps.lost, keeps.kept, List.reverse_take, List.reverse_reverse,
    List.length_reverse]

theorem Keeps.publish {history : List BatchUpdated} (keeps : channel.Keeps history)
    (event : BatchUpdated) (heard : channel.subscribers.any Option.isSome = true) :
    (channel.publish event).Keeps (history ++ [event]) := by
  constructor
  · simp [Broadcast.publish, heard, keeps.total]
  · simp only [Broadcast.publish, heard, if_true, keeps.kept]
    cases channel.capacity <;> simp [List.take_take]

/-! ## What is received -/

/-- The ways in which a subscriber receives something, with the events that wait
for it before and afterwards. -/
inductive Serves (capacity : Nat) :
    List BatchUpdated → Received → List BatchUpdated → Prop where
  | nothing : Serves capacity [] .nothing []
  | event {event : BatchUpdated} {rest : List BatchUpdated}
      (fits : (event :: rest).length ≤ capacity) :
      Serves capacity (event :: rest) (.event event) rest
  | lagged {missed kept : List BatchUpdated} (late : missed ≠ [])
      (full : kept.length = capacity) :
      Serves capacity (missed ++ kept) (.lagged missed.length) kept

@[simp]
theorem advance_subscribers (seen : Nat) :
    (channel.advance subscriber seen).subscribers =
      channel.subscribers.set subscriber (some seen) :=
  rfl

theorem Awaits.advance (dealt : List BatchUpdated)
    (awaits : channel.Awaits subscriber earlier (dealt ++ waiting)) :
    (channel.advance subscriber (earlier.length + dealt.length)).Awaits subscriber
      (earlier ++ dealt) waiting where
  total := by simp [Broadcast.advance, awaits.total]
  kept := by simp [Broadcast.advance, awaits.kept]
  seen := by
    have inside := (List.getElem?_eq_some_iff.mp awaits.seen).1
    simp [inside]

/-- Those who are too late go on with the oldest event that is kept. -/
theorem Awaits.receive_lagged {missed kept : List BatchUpdated}
    (awaits : channel.Awaits subscriber earlier (missed ++ kept)) (late : missed ≠ [])
    (full : kept.length = channel.capacity) :
    channel.receive subscriber =
      (.lagged missed.length,
        channel.advance subscriber (earlier.length + missed.length)) := by
  have lost : channel.lost = earlier.length + missed.length := by
    rw [awaits.toKeeps.lost, ← full]
    simp only [List.length_append]
    omega
  have behind : earlier.length < channel.lost := by
    have := List.length_pos_iff.mpr late
    omega
  simp [Broadcast.receive, awaits.seen, lost, late]

theorem Awaits.receive_event {event : BatchUpdated} {rest : List BatchUpdated}
    (awaits : channel.Awaits subscriber earlier (event :: rest))
    (fits : (event :: rest).length ≤ channel.capacity) :
    channel.receive subscriber =
      (.event event, channel.advance subscriber (earlier.length + 1)) := by
  have lost : channel.lost ≤ earlier.length := by
    rw [awaits.toKeeps.lost, List.length_append]
    omega
  have oldest : channel.kept.reverse[earlier.length - channel.lost]? = some event := by
    rw [awaits.toKeeps.oldest, List.getElem?_drop, Nat.add_sub_cancel' lost]
    simp
  simp [Broadcast.receive, awaits.seen, Nat.not_lt.mpr lost, oldest]

theorem Awaits.receive_nothing (awaits : channel.Awaits subscriber earlier []) :
    channel.receive subscriber = (.nothing, channel) := by
  have lost : channel.lost ≤ earlier.length := by
    rw [awaits.toKeeps.lost, List.append_nil]
    omega
  have oldest : channel.kept.reverse[earlier.length - channel.lost]? = none := by
    rw [awaits.toKeeps.oldest, List.getElem?_drop, Nat.add_sub_cancel' lost]
    simp
  simp [Broadcast.receive, awaits.seen, Nat.not_lt.mpr lost, oldest]

theorem Awaits.receive (awaits : channel.Awaits subscriber earlier waiting) :
    ∃ earlier' waiting',
      Serves channel.capacity waiting (channel.receive subscriber).1 waiting' ∧
      (channel.receive subscriber).2.Awaits subscriber earlier' waiting' := by
  by_cases late : channel.capacity < waiting.length
  · obtain ⟨missed, kept, rfl, full⟩ : ∃ missed kept, waiting = missed ++ kept ∧
        kept.length = channel.capacity :=
      ⟨waiting.take (waiting.length - channel.capacity),
        waiting.drop (waiting.length - channel.capacity),
        (List.take_append_drop _ _).symm, by rw [List.length_drop]; omega⟩
    have behind : missed ≠ [] := by
      rintro rfl
      simp [full] at late
    rw [awaits.receive_lagged behind full]
    exact ⟨_, _, .lagged behind full, awaits.advance missed⟩
  · have fits := Nat.not_lt.mp late
    cases waiting with
    | nil =>
        rw [awaits.receive_nothing]
        exact ⟨_, _, .nothing, awaits⟩
    | cons event rest =>
        rw [awaits.receive_event fits]
        exact ⟨_, _, .event fits, awaits.advance [event]⟩

/-! ## What is sent and received over time -/

theorem Awaits.publish (awaits : channel.Awaits subscriber earlier waiting)
    (event : BatchUpdated) :
    (channel.publish event).Awaits subscriber earlier (waiting ++ [event]) := by
  have heard : channel.subscribers.any Option.isSome = true :=
    List.any_eq_true.mpr
      ⟨_, List.mem_of_getElem? awaits.seen, rfl⟩
  have keeps := awaits.toKeeps.publish event heard
  rw [List.append_assoc] at keeps
  refine ⟨keeps, ?_⟩
  simp [Broadcast.publish, heard, awaits.seen]

/-- The other subscribers do not matter. -/
theorem Awaits.of_others {other : Broadcast}
    (awaits : channel.Awaits subscriber earlier waiting)
    (total : other.total = channel.total) (kept : other.kept = channel.kept)
    (capacity : other.capacity = channel.capacity)
    (seen : other.subscribers[subscriber]? = channel.subscribers[subscriber]?) :
    other.Awaits subscriber earlier waiting where
  total := total.trans awaits.total
  kept := by rw [kept, capacity, awaits.kept]
  seen := seen.trans awaits.seen

theorem receive_cases (channel : Broadcast) (other : Nat) :
    (channel.receive other).2 = channel ∨
      ∃ seen, (channel.receive other).2 = channel.advance other seen := by
  unfold Broadcast.receive
  split
  · exact .inl rfl
  · split
    · exact .inr ⟨_, rfl⟩
    · split
      · exact .inr ⟨_, rfl⟩
      · exact .inl rfl

theorem Awaits.receive_other {other : Nat} (different : other ≠ subscriber)
    (awaits : channel.Awaits subscriber earlier waiting) :
    (channel.receive other).2.Awaits subscriber earlier waiting := by
  rcases receive_cases channel other with same | ⟨seen, moved⟩
  · rw [same]
    exact awaits
  · rw [moved]
    exact awaits.of_others rfl rfl rfl (by simp [List.getElem?_set_ne different])

@[simp]
theorem use_capacity (step : Use) : (channel.use step).capacity = channel.capacity := by
  cases step with
  | subscribe => rfl
  | leave subscriber => rfl
  | publish event =>
      simp only [Broadcast.use, Broadcast.publish]
      split <;> rfl
  | receive subscriber =>
      rcases receive_cases channel subscriber with same | ⟨seen, moved⟩
      · rw [Broadcast.use, same]
      · rw [Broadcast.use, moved]
        rfl

/-- How the events are dealt with by what a subscriber receives, up to those
that still wait for it. -/
inductive Deals (capacity : Nat) :
    List BatchUpdated → List Received → List BatchUpdated → Prop where
  | rest (waiting : List BatchUpdated) : Deals capacity waiting [] waiting
  | next {waiting waiting' later rest : List BatchUpdated} {first : Received}
      {received : List Received}
      (serves : Serves capacity waiting first waiting')
      (deals : Deals capacity (waiting' ++ later) received rest) :
      Deals capacity (waiting ++ later) (first :: received) rest

/-- Nothing is missed while no more events wait than the channel keeps. -/
theorem Deals.all_received {events rest : List BatchUpdated} {received : List Received}
    (deals : Deals capacity events received rest) (few : events.length ≤ capacity) :
    events = received.filterMap Received.event? ++ rest := by
  induction deals with
  | rest => rfl
  | next serves _ induction =>
      cases serves with
      | nothing => exact induction few
      | event fits =>
          simp only [List.cons_append, List.length_cons] at few
          simpa [Received.event?] using induction (by omega)
      | lagged late full =>
          have := List.length_pos_iff.mpr late
          simp only [List.length_append] at few
          omega

theorem Awaits.received (uses : List Use)
    (awaits : channel.Awaits subscriber earlier waiting)
    (stays : .leave subscriber ∉ uses) :
    ∃ earlier' rest,
      Deals channel.capacity (waiting ++ published uses)
        (received subscriber channel uses) rest ∧
      (channel.after uses).Awaits subscriber earlier' rest := by
  -- Only an event and one's own receiving change what waits.
  induction uses generalizing channel earlier waiting with
  | nil => exact ⟨_, waiting, by simpa [published] using .rest waiting, awaits⟩
  | cons step uses induction =>
      have staying : .leave subscriber ∉ uses := fun left => stays (.tail _ left)
      rw [Broadcast.after, List.foldl_cons, ← use_capacity step]
      cases step with
      | subscribe =>
          have inside := (List.getElem?_eq_some_iff.mp awaits.seen).1
          exact induction
            (awaits.of_others rfl rfl rfl (List.getElem?_append_left inside)) staying
      | leave other =>
          have different : other ≠ subscriber := by
            rintro rfl
            exact stays (.head _)
          exact induction
            (awaits.of_others rfl rfl rfl (List.getElem?_set_ne different)) staying
      | publish event =>
          have later := induction (awaits.publish event) staying
          rw [List.append_assoc] at later
          exact later
      | receive other =>
          by_cases own : other = subscriber
          · subst own
            obtain ⟨_, _, serves, awaits⟩ := awaits.receive
            obtain ⟨earlier', rest, deals, awaits⟩ := induction awaits staying
            refine ⟨earlier', rest, ?_, awaits⟩
            simp only [Broadcast.received, if_true]
            rw [← use_capacity (.receive other)] at serves
            exact .next serves deals
          · simp only [Broadcast.received, if_neg own]
            exact induction (awaits.receive_other own) staying

/-! ## From the beginning -/

theorem le_roundUp (capacity : Nat) : capacity ≤ roundUp capacity := by
  unfold roundUp
  split
  · assumption
  · have := Nat.lt_log2_self (n := capacity - 1)
    change capacity ≤ 2 ^ ((capacity - 1).log2 + 1)
    omega

theorem Keeps.use {history : List BatchUpdated} (keeps : channel.Keeps history)
    (step : Use) : ∃ history', (channel.use step).Keeps history' := by
  cases step with
  | subscribe => exact ⟨history, keeps.total, keeps.kept⟩
  | leave subscriber => exact ⟨history, keeps.total, keeps.kept⟩
  | publish event =>
      by_cases heard : channel.subscribers.any Option.isSome = true
      · exact ⟨_, keeps.publish event heard⟩
      · rw [Broadcast.use, Broadcast.publish, if_neg heard]
        exact ⟨history, keeps⟩
  | receive subscriber =>
      rcases receive_cases channel subscriber with same | ⟨seen, moved⟩
      · rw [Broadcast.use, same]
        exact ⟨history, keeps⟩
      · rw [Broadcast.use, moved]
        exact ⟨history, keeps.total, keeps.kept⟩

theorem Keeps.after {history : List BatchUpdated} (keeps : channel.Keeps history)
    (uses : List Use) : ∃ history', (channel.after uses).Keeps history' := by
  induction uses generalizing channel history with
  | nil => exact ⟨history, keeps⟩
  | cons step uses induction =>
      obtain ⟨_, keeps⟩ := keeps.use step
      exact induction keeps

@[simp]
theorem after_capacity (uses : List Use) :
    (channel.after uses).capacity = channel.capacity := by
  induction uses generalizing channel with
  | nil => rfl
  | cons step uses induction => exact induction.trans (use_capacity step)

/-- Nothing waits for a new subscriber. -/
theorem Keeps.subscribe {history : List BatchUpdated} (keeps : channel.Keeps history) :
    channel.subscribe.2.Awaits channel.subscribe.1 history [] where
  total := by
    rw [List.append_nil]
    exact keeps.total
  kept := by
    rw [List.append_nil]
    exact keeps.kept
  seen := by simp [Broadcast.subscribe, keeps.total]

variable (before uses : List Use)

/-- What a subscriber receives deals with all events that are sent while it
stays. -/
theorem events_delivered (opened : channel = (create capacity).after before)
    (stays : .leave channel.subscribe.1 ∉ uses) :
    ∃ earlier rest,
      Deals (roundUp capacity) (published uses)
        (received channel.subscribe.1 channel.subscribe.2 uses) rest ∧
      (channel.subscribe.2.after uses).Awaits channel.subscribe.1 earlier rest := by
  have created : (create capacity).Keeps [] := ⟨rfl, by simp [create]⟩
  obtain ⟨_, keeps⟩ := created.after before
  have rounded : channel.subscribe.2.capacity = roundUp capacity := by
    rw [opened]
    exact after_capacity before
  rw [← opened] at keeps
  simpa [rounded] using keeps.subscribe.received uses stays

/-- A subscriber receives every event, in their order, of a stretch with no more
of them than the capacity that was asked for. -/
theorem events_received (opened : channel = (create capacity).after before)
    (stays : .leave channel.subscribe.1 ∉ uses)
    (few : (published uses).length ≤ capacity) :
    ∃ earlier rest,
      published uses = (received channel.subscribe.1 channel.subscribe.2 uses).filterMap
        Received.event? ++ rest ∧
      (channel.subscribe.2.after uses).Awaits channel.subscribe.1 earlier rest := by
  obtain ⟨earlier, rest, deals, awaits⟩ := events_delivered before uses opened stays
  have fits := Nat.le_trans few (le_roundUp capacity)
  exact ⟨earlier, rest, deals.all_received fits, awaits⟩

end Broadcast

end BatchRelay
