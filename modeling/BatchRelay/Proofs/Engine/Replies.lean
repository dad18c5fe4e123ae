import BatchRelay.Proofs.Engine.Calm
import BatchRelay.Proofs.Engine.Effects

/-!
# What the network replies to a group

The network replies to the items of a group one after the other, up to the first that it
does not take.  The items afterwards and the journal can be read off the replies alone:
whether the routes could be written makes no difference to them.
-/

namespace BatchRelay

/-- The item once the network has replied to it, if it was sent at all. -/
def Item.receive (item : Item) : Option (Except GatewayError String) → Item
  | none => item
  | some (.ok hash) => item.adopt hash
  | some (.error error) => item.refuse error.rejection?

/-- The items once the network has replied to the first of them. -/
def Item.receiveAll (items : List Item) (replies : List (Except GatewayError String)) :
    List Item :=
  items.mapIdx fun place item => item.receive replies[place]?

/-- What is noted of items that were sent, the latest first. -/
def Happening.sendings (address batchId : String) (position : Position)
    (items : List Item) (replies : List (Except GatewayError String)) :
    List Happening :=
  ((items.zip replies).mapIdx fun place (item, reply) =>
    .sent ⟨address, batchId, ⟨position.group, position.item + place⟩⟩ item.payload
      reply).reverse

/-- Sending an item takes two moments, because the route is written before the next one
is sent. -/
def Surroundings.replies (surroundings : Surroundings) :
    Nat → List Item → List (Except GatewayError String)
  | _, [] => []
  | moment, item :: items =>
      match surroundings.send moment item.payload with
      | .ok hash => .ok hash :: surroundings.replies (moment + 2) items
      | .error error => [.error error]

theorem Item.receiveAll_nil (items : List Item) : Item.receiveAll items [] = items := by
  apply List.ext_getElem?
  intro place
  simp [receiveAll, receive]

theorem Item.receiveAll_cons (item : Item) (items : List Item)
    (reply : Except GatewayError String) (replies : List (Except GatewayError String)) :
    Item.receiveAll (item :: items) (reply :: replies) =
      item.receive (some reply) :: Item.receiveAll items replies := by
  simp [receiveAll, List.mapIdx_cons]

theorem Item.getElem?_receiveAll (items : List Item)
    (replies : List (Except GatewayError String)) (place : Nat) :
    (Item.receiveAll items replies)[place]? =
      items[place]?.map fun item => item.receive replies[place]? :=
  List.getElem?_mapIdx

namespace Surroundings

variable {surroundings : Surroundings} {lifetimes : Lifetimes} {route : Route}
  {position : Position} {items items' : List Item} {world last : World}
  {step : Step} {steps : List Step} {moment : Nat} {item : Item} {hash : String}
  {error : GatewayError}

theorem replies_taken (answer : surroundings.send moment item.payload = .ok hash) :
    surroundings.replies moment (item :: items) =
      .ok hash :: surroundings.replies (moment + 2) items := by
  simp only [replies, answer]

theorem replies_refused
    (answer : surroundings.send moment item.payload = .error error) :
    surroundings.replies moment (item :: items) = [.error error] := by
  simp only [replies, answer]

theorem replies_congr {other : Surroundings} (same : other.send = surroundings.send)
    (moment : Nat) (items : List Item) :
    other.replies moment items = surroundings.replies moment items := by
  induction items generalizing moment with
  | nil => rfl
  | cons item items induction =>
      simp only [replies, same, induction]

/-- A network that minds nothing but the transaction replies the same at any time. -/
theorem replies_eq_of_timeless
    (timeless : ∀ earlier later payload,
      surroundings.send earlier payload = surroundings.send later payload)
    (earlier later : Nat) (items : List Item) :
    surroundings.replies earlier items = surroundings.replies later items := by
  induction items generalizing earlier later with
  | nil => rfl
  | cons item items induction =>
      simp only [replies, timeless earlier later, induction (earlier + 2) (later + 2)]

/-- Whether these are the replies to items that are sent from a moment on, up to the
first one that is an error. -/
structure Replies (surroundings : Surroundings) (moment : Nat) (items : List Item)
    (replies : List (Except GatewayError String)) : Prop where
  each : ∀ place reply, replies[place]? = some reply → ∃ item,
    items[place]? = some item ∧
      surroundings.send (moment + 2 * place) item.payload = reply
  stops : ∀ place error, replies[place]? = some (.error error) →
    replies.length = place + 1
  complete : (∀ (place : Nat) error, replies[place]? ≠ some (.error error)) →
    replies.length = items.length

theorem replies_spec (surroundings : Surroundings) (moment : Nat) (items : List Item) :
    surroundings.Replies moment items (surroundings.replies moment items) := by
  induction items generalizing moment with
  | nil =>
      constructor
      case each | stops => exact fun place _ found => by cases found
      case complete => exact fun _ => rfl
  | cons item items induction =>
      cases answer : surroundings.send moment item.payload with
      | error error =>
          rw [replies_refused answer]
          constructor
          case each =>
            intro place reply found
            obtain ⟨rfl, rfl⟩ : place = 0 ∧ .error error = reply := by
              simpa [List.getElem?_singleton] using found
            exact ⟨item, rfl, answer⟩
          case stops =>
            intro place other found
            obtain ⟨rfl, -⟩ : place = 0 ∧ error = other := by
              simpa [List.getElem?_singleton] using found
            rfl
          case complete => exact fun clean => absurd rfl (clean 0 error)
      | ok hash =>
          rw [replies_taken answer]
          have rest := induction (moment + 2)
          constructor
          case each =>
            rintro (- | place) reply found
            · cases found
              exact ⟨item, rfl, answer⟩
            · obtain ⟨other, present, replied⟩ := rest.each place reply found
              refine ⟨other, present, ?_⟩
              rwa [show moment + 2 * (place + 1) = moment + 2 + 2 * place by omega]
          case stops =>
            rintro (- | place) error found
            · cases found
            · exact congrArg (· + 1) (rest.stops place error found)
          case complete =>
            intro clean
            exact congrArg (· + 1) (rest.complete fun place => clean (place + 1))

/-- There is only one way for the network to reply. -/
theorem Replies.eq {replies : List (Except GatewayError String)}
    (replied : surroundings.Replies moment items replies) :
    replies = surroundings.replies moment items := by
  induction items generalizing moment replies with
  | nil =>
      cases replies with
      | nil => rfl
      | cons reply rest =>
          obtain ⟨item, present, -⟩ := replied.each 0 reply rfl
          cases present
  | cons item items induction =>
      cases replies with
      | nil => cases replied.complete fun place error found => by cases found
      | cons reply rest =>
          have head : surroundings.send moment item.payload = reply := by
            obtain ⟨_, present, answer⟩ := replied.each 0 reply rfl
            cases present
            exact answer
          cases reply with
          | error error =>
              obtain rfl : rest = [] :=
                List.length_eq_zero_iff.1 (Nat.succ.inj (replied.stops 0 error rfl))
              rw [replies_refused head]
          | ok hash =>
              rw [replies_taken head, ← induction]
              constructor
              case each =>
                intro place reply found
                obtain ⟨other, present, answer⟩ := replied.each (place + 1) reply found
                refine ⟨other, present, ?_⟩
                rwa [show moment + 2 + 2 * place = moment + 2 * (place + 1) by omega]
              case stops =>
                intro place error found
                exact Nat.succ.inj (replied.stops (place + 1) error found)
              case complete =>
                intro clean
                refine Nat.succ.inj (replied.complete ?_)
                rintro (- | place) error found
                · cases found
                · exact clean place error found

namespace Sent

variable (sent : surroundings.Sent lifetimes route position items world items' steps last)

include sent

theorem items_eq :
    items' = Item.receiveAll items (surroundings.replies world.moment items) := by
  induction sent with
  | none => rfl
  | taken answer _ induction =>
      simp only [moment_after, Step.writeRoute, Step.send] at induction
      rw [replies_taken answer, Item.receiveAll_cons, induction]
      rfl
  | refused answer =>
      rw [replies_refused answer, Item.receiveAll_cons, Item.receiveAll_nil]
      rfl

theorem journal_eq :
    last.journal = Happening.sendings route.address route.batchId position items
      (surroundings.replies world.moment items) ++ world.journal := by
  induction sent with
  | none => rfl
  | taken answer _ induction =>
      simp only [moment_after, Step.writeRoute, Step.send] at induction
      rw [replies_taken answer, induction]
      simp [Happening.sendings, journal_after, happened, answer, List.mapIdx_cons,
        Position.next, Nat.add_assoc, Nat.add_comm 1]
  | refused answer =>
      rw [replies_refused answer]
      simp [Happening.sendings, journal_after, happened, answer, Step.send]

theorem write_of_touched {key : String} (member : step ∈ steps)
    (touched : step.request.touched? = some key) :
    ∃ place hash, key = Routes.key hash ∧
      (surroundings.replies world.moment items)[place]? = some (.ok hash) ∧
      step.request = .write key route.encode lifetimes.route ∧
      step.world.moment = world.moment + 2 * place + 1 := by
  induction sent with
  | none => cases member
  | taken answer _ induction =>
      simp only [moment_after, Step.writeRoute, Step.send] at induction
      rw [replies_taken answer]
      simp only [List.mem_cons] at member
      obtain rfl | rfl | inRest := member
      · cases touched
      · cases touched
        refine ⟨0, _, rfl, rfl, rfl, ?_⟩
        simp only [Step.writeRoute, Step.send, moment_after]
      · obtain ⟨place, hash, isKey, replied, writes, moment⟩ := induction inRest
        exact ⟨place + 1, hash, isKey, replied, writes, by omega⟩
  | refused =>
      obtain rfl := List.mem_singleton.1 member
      cases touched

/-- The route of everything that was taken is written, or cannot be. -/
theorem write_of_reply {place : Nat}
    (replied : (surroundings.replies world.moment items)[place]? = some (.ok hash)) :
    ∃ earlier, .writeRoute lifetimes earlier hash route ∈ steps ∧
      earlier.moment = world.moment + 2 * place + 1 := by
  induction sent generalizing place with
  | none => simp [replies] at replied
  | taken answer _ induction =>
      simp only [moment_after, Step.writeRoute, Step.send] at induction
      rw [replies_taken answer] at replied
      cases place with
      | zero =>
          cases replied
          refine ⟨_, List.mem_cons_of_mem _ List.mem_cons_self, ?_⟩
          simp only [Step.send, moment_after]
      | succ place =>
          obtain ⟨earlier, member, moment⟩ := induction replied
          refine ⟨earlier, ?_, by omega⟩
          exact List.mem_cons_of_mem _ (List.mem_cons_of_mem _ member)
  | refused answer =>
      rw [replies_refused answer] at replied
      simp [List.getElem?_singleton] at replied

end Sent

/-! ## The index -/

/-- Whether one of the items is taken under a hash at a moment at which its route can be
written. -/
def Indexes (surroundings : Surroundings) (moment : Nat)
    (replies : List (Except GatewayError String)) (hash : String) : Prop :=
  ∃ place : Nat, replies[place]? = some (.ok hash) ∧
    surroundings.fault (moment + 2 * place + 1) (.write (Routes.key hash)) = none

namespace Sent

variable (sent : surroundings.Sent lifetimes route position items world items' steps last)

include sent

/-- A route that could be written stays, for a later item that is taken under the same
hash has the same route. -/
theorem leaves {earlier : World} {now : Int}
    (timely : surroundings.Timely lifetimes.route steps now)
    (member : .writeRoute lifetimes earlier hash route ∈ steps)
    (works : surroundings.fault earlier.moment (.write (Routes.key hash)) = .none) :
    surroundings.Leaves lifetimes.route steps (Routes.key hash) route.encode last := by
  have written : surroundings.Leaves lifetimes.route steps (Routes.key hash) route.encode
      (surroundings.after (.writeRoute lifetimes earlier hash route)) :=
    leaves_after_write works member
  obtain ⟨front, back, parts⟩ := List.append_of_mem member
  have links := sent.linked
  rw [parts] at links
  cases links.of_append with
  | cons rest =>
      refine rest.keeps _ written fun step inBack held => ?_
      have inSteps : step ∈ steps := by
        rw [parts]
        exact List.mem_append_right _ (List.mem_cons_of_mem _ inBack)
      by_cases touched : step.request.touched? = some (Routes.key hash)
      · obtain ⟨_, other, isKey, -, writes, -⟩ := sent.write_of_touched inSteps touched
        obtain ⟨reached, request⟩ := step
        subst writes
        cases fault : surroundings.fault reached.moment (.write (Routes.key hash)) with
        | none => exact leaves_after_write fault inSteps
        | some error =>
            obtain ⟨writer, isWriter, isHeld⟩ := held
            exact ⟨writer, isWriter, (cache_after_failed_write fault).symm ▸ isHeld⟩
      · exact held.after timely inSteps touched

theorem indexed {now : Int} (unique : world.cache.entries.Unique)
    (indexes : surroundings.Indexes world.moment
      (surroundings.replies world.moment items) hash)
    (timely : surroundings.Timely lifetimes.route steps now) :
    last.cache.get now (Routes.key hash) = some route.encode := by
  obtain ⟨place, replied, works⟩ := indexes
  obtain ⟨earlier, member, moment⟩ := sent.write_of_reply replied
  exact (sent.leaves timely member (moment ▸ works)).get timely (sent.linked.unique unique)

theorem writeRoute_of_takes (taken : surroundings.Takes steps hash) :
    ∃ earlier, .writeRoute lifetimes earlier hash route ∈ steps := by
  obtain ⟨step, member, origin, payload, sends, reply⟩ := taken
  induction sent with
  | none => cases member
  | taken answer _ induction =>
      simp only [List.mem_cons] at member
      obtain rfl | rfl | inRest := member
      · cases sends
        cases answer.symm.trans reply
        exact ⟨_, List.mem_cons_of_mem _ List.mem_cons_self⟩
      · cases sends
      · obtain ⟨earlier, isStep⟩ := induction inRest
        exact ⟨earlier, List.mem_cons_of_mem _ (List.mem_cons_of_mem _ isStep)⟩
  | refused answer =>
      obtain rfl := List.mem_singleton.1 member
      cases sends
      cases answer.symm.trans reply

theorem unindexed {key : String} (unique : world.cache.entries.Unique)
    (free : ∀ hash, surroundings.Indexes world.moment
      (surroundings.replies world.moment items) hash → key ≠ Routes.key hash) :
    surroundings.Unchanged steps world last key := by
  apply sent.linked.unchanged unique
  intro step member
  by_cases touched : step.request.touched? = some key
  · right
    obtain ⟨place, hash, rfl, replied, writes, moment⟩ :=
      sent.write_of_touched member touched
    obtain ⟨reached, request⟩ := step
    subst writes
    cases fault : surroundings.fault reached.moment (.write (Routes.key hash)) with
    | some error => exact cache_after_failed_write fault
    | none => exact absurd rfl (free hash ⟨place, replied, moment ▸ fault⟩)
  · exact .inl touched

end Sent

/-! ## A group of a batch -/

theorem startGroup_sent (surroundings : Surroundings) (lifetimes : Lifetimes)
    {batch : Batch} {owner : String} {index : Nat} {group : Group} (world : World)
    (isOwner : batch.address? = some owner)
    (present : batch.groups[index]? = some group) :
    let activity := startGroup lifetimes batch index
    ∃ items steps, surroundings.Sent lifetimes
        ⟨batch.id, owner, surroundings.now world.moment⟩ ⟨index, 0⟩ group.items world.pass
        items steps (surroundings.run activity world).2 ∧
      (surroundings.run activity world).1 = batch.modifyGroup index (fun _ => ⟨items⟩) ∧
      surroundings.steps activity world = .clock world :: steps := by
  intro activity
  have inside := (List.getElem?_eq_some_iff.1 present).1
  generalize isResult : (surroundings.run activity world).1 = result
  generalize areSteps : surroundings.steps activity world = steps
  have started := surroundings.startGroup_started lifetimes isOwner inside world
  rw [isResult, areSteps] at started
  cases started with
  | sent found sent =>
      obtain rfl := Option.some.inj (found.symm.trans present)
      exact ⟨_, _, sent, rfl, rfl⟩

/-- Where every write works, what the network takes of a group leads to the batch. -/
theorem Started.leaves {batch batch' : Batch} {owner : String} {index : Nat} {now : Int}
    (started : surroundings.Started lifetimes batch owner index world batch' steps last)
    (works : ∀ moment access, surroundings.fault moment access = none)
    (timely : surroundings.Timely lifetimes.route steps now)
    (taken : surroundings.Takes steps hash) :
    surroundings.Leaves lifetimes.route steps (Routes.key hash)
      (Route.encode ⟨batch.id, owner, surroundings.now world.moment⟩) last := by
  cases started with
  | @sent _ _ sending _ _ sent =>
      have within := List.subset_cons_self (Step.clock world) sending
      obtain ⟨earlier, member⟩ := sent.writeRoute_of_takes (taken.of_cons rfl)
      exact (sent.leaves (timely.mono within) member (works _ _)).mono within

theorem startGroup_replies (surroundings : Surroundings) (lifetimes : Lifetimes)
    {batch : Batch} {owner : String} {index : Nat} {group : Group} (world : World)
    (isOwner : batch.address? = some owner)
    (present : batch.groups[index]? = some group) :
    let started := surroundings.run (startGroup lifetimes batch index) world
    let replies := surroundings.replies (world.moment + 1) group.items
    started.1 = batch.modifyGroup index (fun _ => ⟨Item.receiveAll group.items replies⟩) ∧
      started.2.journal = Happening.sendings owner batch.id ⟨index, 0⟩ group.items replies ++
        world.journal := by
  intro started replies
  obtain ⟨items, steps, sent, isStarted, -⟩ :=
    surroundings.startGroup_sent lifetimes world isOwner present
  have areItems : items = Item.receiveAll group.items replies := sent.items_eq
  exact ⟨areItems ▸ isStarted, sent.journal_eq⟩

end Surroundings

end BatchRelay
