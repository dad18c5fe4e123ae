import BatchRelay.Proofs.Batch.Positions
import BatchRelay.Proofs.Engine.Contents

/-!
# Sending a group

`Sent` describes a run of `sendItems` by what the network answers: some items
are taken one after the other, each with a write of its route, and then either
none is left or one is refused and the rest is not touched.
-/

namespace BatchRelay

namespace Item

@[simp] theorem payload_adopt (item : Item) (hash : String) :
    (item.adopt hash).payload = item.payload :=
  rfl

@[simp] theorem hash_adopt (item : Item) (hash : String) :
    (item.adopt hash).hash = hash :=
  rfl

@[simp] theorem status_adopt (item : Item) (hash : String) :
    (item.adopt hash).status = item.status :=
  rfl

@[simp] theorem payload_refuse (item : Item) (error : Option String) :
    (item.refuse error).payload = item.payload :=
  rfl

@[simp] theorem hash_refuse (item : Item) (error : Option String) :
    (item.refuse error).hash = item.hash :=
  rfl

@[simp] theorem status_refuse (item : Item) (error : Option String) :
    (item.refuse error).status = .invalid :=
  rfl

end Item

/-- The place after another one in its group. -/
def Position.next (position : Position) : Position :=
  ⟨position.group, position.item + 1⟩

/-- The step that sends a transaction for a place of a route's batch. -/
def Step.send (world : World) (route : Route) (position : Position)
    (payload : Transaction) : Step :=
  ⟨world, .send ⟨route.address, route.batchId, position⟩ payload⟩

/-- The step that writes the route of a hash. -/
def Step.writeRoute (lifetimes : Lifetimes) (world : World) (hash : String)
    (route : Route) : Step :=
  ⟨world, .write (Routes.key hash) route.encode lifetimes.route⟩

namespace Surroundings

variable (surroundings : Surroundings) (lifetimes : Lifetimes) (route : Route)

/-- The items after a group was sent, the steps it took and the last world. -/
inductive Sent :
    Position → List Item → World → List Item → List Step → World → Prop
  | none {position : Position} {world : World} :
      Sent position [] world [] [] world
  | taken {position : Position} {item : Item} {items items' : List Item}
      {world last : World} {steps : List Step} {hash : String}
      (answer : surroundings.send world.moment item.payload = .ok hash)
      (rest : Sent position.next items
        (surroundings.after (.writeRoute lifetimes
          (surroundings.after (.send world route position item.payload)) hash
          route))
        items' steps last) :
      Sent position (item :: items) world (item.adopt hash :: items')
        (.send world route position item.payload ::
          .writeRoute lifetimes
            (surroundings.after (.send world route position item.payload)) hash
            route :: steps)
        last
  | refused {position : Position} {item : Item} {items : List Item}
      {world : World} {error : GatewayError}
      (answer : surroundings.send world.moment item.payload = .error error) :
      Sent position (item :: items) world
        (item.refuse error.rejection? :: items)
        [.send world route position item.payload]
        (surroundings.after (.send world route position item.payload))

theorem sendItems_sent (position : Position) (items : List Item)
    (world : World) :
    surroundings.Sent lifetimes route position items world
      (surroundings.run (sendItems lifetimes route position items) world).1
      (surroundings.steps (sendItems lifetimes route position items) world)
      (surroundings.run (sendItems lifetimes route position items) world).2 := by
  induction items generalizing position world with
  | nil => exact .none
  | cons item items induction =>
      cases answer : surroundings.send world.moment item.payload with
      | ok hash =>
          have reply : (surroundings.answer world
              (.send ⟨route.address, route.batchId, position⟩ item.payload)).1 =
                .ok hash := answer
          have rest := Sent.taken answer (induction position.next _)
          simpa only [sendItems, Routes.insert, Activity.request, Bind.bind,
            Pure.pure, Activity.bind, run, steps, run_bind, steps_bind, reply,
            List.append_nil, Position.next, Step.send, Step.writeRoute,
            after] using rest
      | error error =>
          have reply : (surroundings.answer world
              (.send ⟨route.address, route.batchId, position⟩ item.payload)).1 =
                .error error := answer
          have ends : surroundings.Sent lifetimes route position (item :: items)
              world _ _ _ := .refused answer
          simpa only [sendItems, Activity.request, Bind.bind, Pure.pure,
            Activity.bind, run, steps, reply, Step.send, after] using ends

end Surroundings

/-- Whether a request may be made while a group of a batch is sent. -/
inductive Request.Sends (lifetimes : Lifetimes) (address id : String)
    (group : Nat) : Request → Prop
  | now : Sends lifetimes address id group .now
  | publish {event : BatchUpdated} :
      Sends lifetimes address id group (.publish event)
  | send {place : Nat} {payload : Transaction} :
      Sends lifetimes address id group
        (.send ⟨address, id, ⟨group, place⟩⟩ payload)
  | write {hash : String} {submittedAt : Instant} :
      Sends lifetimes address id group
        (.write (Routes.key hash) (Route.encode ⟨id, address, submittedAt⟩)
          lifetimes.route)

namespace Request.Sends

variable {lifetimes : Lifetimes} {address id : String} {group : Nat}
  {request : Request}

theorem untouched (sends : request.Sends lifetimes address id group)
    (otherAddress otherId : String) :
    request.touched? ≠ some (Records.key otherAddress otherId) := by
  cases sends with
  | write =>
      intro same
      exact Records.key_ne_routeKey _ _ _ (Option.some.inj same).symm
  | _ => exact nofun

theorem unwritten (sends : request.Sends lifetimes address id group)
    (otherAddress otherId value : String) :
    request.written? ≠ some (Records.key otherAddress otherId, value) := by
  cases sends with
  | write =>
      intro same
      exact Records.key_ne_routeKey _ _ _
        (congrArg Prod.fst (Option.some.inj same)).symm
  | _ => exact nofun

theorem origin {origin : Origin} {payload : Transaction}
    (sends : request.Sends lifetimes address id group)
    (same : request = .send origin payload) :
    origin.address = address ∧ origin.batchId = id ∧
      origin.position.group = group := by
  subst same
  cases sends with
  | send => exact ⟨rfl, rfl, rfl⟩

end Request.Sends

namespace Surroundings.Sent

variable {surroundings : Surroundings} {lifetimes : Lifetimes} {route : Route}
  {position : Position} {items items' : List Item} {world last : World}
  {steps : List Step}

theorem payloads
    (sent : surroundings.Sent lifetimes route position items world items' steps
      last) :
    items'.map Item.payload = items.map Item.payload := by
  induction sent with
  | none => rfl
  | taken _ _ induction => simp [induction]
  | refused => simp

theorem statuses
    (sent : surroundings.Sent lifetimes route position items world items' steps
      last)
    (clean : ∀ item ∈ items', item.status ≠ .invalid) :
    items'.map Item.status = items.map Item.status := by
  induction sent with
  | none => rfl
  | taken _ _ induction =>
      simp [induction (List.forall_mem_cons.1 clean).2]
  | refused => exact absurd rfl (clean _ List.mem_cons_self)

theorem linked
    (sent : surroundings.Sent lifetimes route position items world items' steps
      last) :
    surroundings.Linked world steps last := by
  induction sent with
  | none => exact .nil
  | taken _ _ induction => exact .cons (.cons induction)
  | refused => exact .cons .nil

theorem sends
    (sent : surroundings.Sent lifetimes route position items world items' steps
      last) :
    ∀ step ∈ steps,
      step.request.Sends lifetimes route.address route.batchId position.group := by
  induction sent with
  | none =>
      intro _ member
      cases member
  | taken _ _ induction =>
      intro step member
      simp only [List.mem_cons] at member
      obtain rfl | rfl | inRest := member
      · exact .send
      · exact .write
      · exact induction step inRest
  | refused =>
      intro step member
      obtain rfl := List.mem_singleton.1 member
      exact .send

theorem sends_first
    (sent : surroundings.Sent lifetimes route position items world items' steps
      last)
    (nonempty : items ≠ []) :
    ∃ step ∈ steps, ∃ payload,
      step.request = .send ⟨route.address, route.batchId, position⟩ payload := by
  cases sent with
  | none => exact absurd rfl nonempty
  | taken => exact ⟨_, List.mem_cons_self, _, rfl⟩
  | refused => exact ⟨_, List.mem_cons_self, _, rfl⟩

/-- What has become of an item: it was taken, it was refused, or the sending
had ended before it. -/
theorem item {place : Nat} {item' : Item}
    (sent : surroundings.Sent lifetimes route position items world items' steps
      last)
    (found : items'[place]? = some item') :
    ∃ item, items[place]? = some item ∧
      ((∃ earlier hash, .send earlier route
            ⟨position.group, position.item + place⟩ item.payload ∈ steps ∧
          surroundings.send earlier.moment item.payload = .ok hash ∧
          item' = item.adopt hash) ∨
        (∃ earlier error, .send earlier route
            ⟨position.group, position.item + place⟩ item.payload ∈ steps ∧
          surroundings.send earlier.moment item.payload = .error error ∧
          item' = item.refuse error.rejection?) ∨
        (item' = item ∧ ∃ stopper ∈ items', stopper.status = .invalid)) := by
  induction sent generalizing place with
  | none => simp at found
  | @taken position item items items' world last steps hash answer rest
      induction =>
      cases place with
      | zero =>
          cases found
          exact ⟨item, rfl, .inl ⟨world, hash, List.mem_cons_self, answer, rfl⟩⟩
      | succ place =>
          obtain ⟨original, present, fate⟩ := induction found
          have places : position.next.item + place = position.item + (place + 1) :=
            by simp only [Position.next]; omega
          refine ⟨original, present, ?_⟩
          rw [places] at fate
          obtain ⟨earlier, hash, member, fate⟩ | ⟨earlier, error, member, fate⟩ |
            ⟨same, stopper, member, fate⟩ := fate
          · exact .inl ⟨earlier, hash,
              List.mem_cons_of_mem _ (List.mem_cons_of_mem _ member), fate⟩
          · exact .inr (.inl ⟨earlier, error,
              List.mem_cons_of_mem _ (List.mem_cons_of_mem _ member), fate⟩)
          · exact .inr (.inr
              ⟨same, stopper, List.mem_cons_of_mem _ member, fate⟩)
  | @refused position item items world error answer =>
      cases place with
      | zero =>
          cases found
          exact ⟨item, rfl,
            .inr (.inl ⟨world, error, List.mem_cons_self, answer, rfl⟩)⟩
      | succ place =>
          exact ⟨item', found, .inr (.inr
            ⟨rfl, item.refuse error.rejection?, List.mem_cons_self, rfl⟩)⟩

theorem refused_item {origin : Origin} {payload : Transaction} {step : Step}
    {error : GatewayError}
    (sent : surroundings.Sent lifetimes route position items world items' steps
      last)
    (member : step ∈ steps) (sends : step.request = .send origin payload)
    (refuses : surroundings.send step.world.moment payload = .error error) :
    ∃ place item, origin = ⟨route.address, route.batchId,
        ⟨position.group, position.item + place⟩⟩ ∧
      items[place]? = some item ∧
      items'[place]? = some (item.refuse error.rejection?) := by
  induction sent with
  | none => cases member
  | @taken position item items items' world last steps hash answer rest
      induction =>
      simp only [List.mem_cons] at member
      obtain rfl | rfl | inRest := member
      · cases sends
        rw [show (Step.send world route position item.payload).world = world
          from rfl, answer] at refuses
        cases refuses
      · cases sends
      · obtain ⟨place, original, same, present, result⟩ := induction inRest
        refine ⟨place + 1, original, ?_, present, result⟩
        rw [same, show position.next.item + place = position.item + (place + 1)
          by simp only [Position.next]; omega]
        rfl
  | @refused position item items world other answer =>
      obtain rfl := List.mem_singleton.1 member
      cases sends
      rw [show (Step.send world route position item.payload).world = world
        from rfl, answer] at refuses
      cases refuses
      exact ⟨0, item, rfl, rfl, rfl⟩

theorem taken_item {place : Nat} {item' : Item}
    (sent : surroundings.Sent lifetimes route position items world items' steps
      last)
    (clean : ∀ item ∈ items', item.status ≠ .invalid)
    (found : items'[place]? = some item') :
    ∃ item, items[place]? = some item ∧
      ∃ earlier hash, .send earlier route
          ⟨position.group, position.item + place⟩ item.payload ∈ steps ∧
        surroundings.send earlier.moment item.payload = .ok hash ∧
        item' = item.adopt hash := by
  obtain ⟨item, present, taken | ⟨_, _, _, _, rfl⟩ | ⟨_, stopper, member, bad⟩⟩ :=
    sent.item found
  · exact ⟨item, present, taken⟩
  · exact absurd rfl (clean _ (List.mem_of_getElem? found))
  · exact absurd bad (clean stopper member)

end Surroundings.Sent

theorem Batch.invalidHashesAt_modifyGroup {batch : Batch} {index : Nat}
    {items : List Item} (inside : index < batch.groups.length) :
    (batch.modifyGroup index fun _ => ⟨items⟩).invalidHashesAt index = [] ↔
      ∀ item ∈ items, item.status ≠ .invalid := by
  simp [invalidHashesAt, modifyGroup, inside, Group.invalidHashes]

end BatchRelay
