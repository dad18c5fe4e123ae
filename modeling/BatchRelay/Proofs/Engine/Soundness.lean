import BatchRelay.Proofs.Engine.Accepting

/-!
# Records and routes that can be read back

In a sound world every record holds a proper batch under that batch's own key,
and every route leads to a place that can be read back.  No step of a
submission or of a reconciliation changes that, whatever fails and whatever the
network answers.
-/

namespace BatchRelay

/-- A route whose text gives the route's place back. -/
structure Route.Clean (route : Route) : Prop where
  address : Address.Clean route.address
  batchId : ';' ∉ route.batchId.toList

theorem Route.Clean.decode_encode {route : Route} (clean : route.Clean) :
    (decode route.encode).batchId = route.batchId ∧
      (decode route.encode).address = route.address :=
  Route.decode_encode clean.batchId clean.address.2

theorem Route.Clean.decoded {route : Route} (clean : route.Clean) :
    (decode route.encode).Clean where
  address := by
    rw [clean.decode_encode.2]
    exact clean.address
  batchId := by
    rw [clean.decode_encode.1]
    exact clean.batchId

theorem Batch.Proper.route {batch : Batch} {address : String}
    (proper : batch.Proper address) (submittedAt : Instant) :
    Route.Clean ⟨batch.id, address, submittedAt⟩ :=
  ⟨proper.clean, proper.id⟩

/-- What a key may hold, if it is the key of a record or a route. -/
structure Genuine (key value : String) : Prop where
  record : Records.isKey key = true → ∃ (address : String) (batch : Batch),
    batch.Proper address ∧ key = Records.key address batch.id ∧
      value = batch.render
  route : Routes.isKey key = true → ∃ (hash : String) (route : Route),
    route.Clean ∧ key = Routes.key hash ∧ value = route.encode

theorem Genuine.ofRecord {batch : Batch} {address : String}
    (proper : batch.Proper address) :
    Genuine (Records.key address batch.id) batch.render where
  record _ := ⟨address, batch, proper, rfl, rfl⟩
  route isRoute := by simp at isRoute

theorem Genuine.ofRoute {route : Route} (clean : route.Clean) (hash : String) :
    Genuine (Routes.key hash) route.encode where
  record isRecord := by simp at isRecord
  route _ := ⟨hash, route, clean, rfl, rfl⟩

/-- A request that writes only what may be held. -/
def Request.WritesGenuine (request : Request) : Prop :=
  ∀ key value, request.written? = some (key, value) → Genuine key value

theorem Request.WritesGenuine.ofUnwritten {request : Request}
    (unwritten : request.written? = none) : request.WritesGenuine := by
  intro key value written
  rw [unwritten] at written
  cases written

theorem Request.WritesGenuine.ofRoute {route : Route} (clean : route.Clean)
    (hash : String) (ttl : Option Nat) :
    WritesGenuine (.write (Routes.key hash) route.encode ttl) := by
  intro key value written
  cases written
  exact .ofRoute clean hash

theorem Request.WritesGenuine.ofRecord {batch : Batch} {address : String}
    (proper : batch.Proper address) (ttl : Option Nat) :
    WritesGenuine
      (.write (Records.key address batch.id) batch.render ttl) := by
  intro key value written
  cases written
  exact .ofRecord proper

theorem Request.Sends.writesGenuine {lifetimes : Lifetimes}
    {address id : String} {group : Nat} {request : Request}
    (sends : request.Sends lifetimes address id group)
    (clean : Address.Clean address) (named : ';' ∉ id.toList) :
    request.WritesGenuine := by
  cases sends with
  | write => exact .ofRoute ⟨clean, named⟩ _ _
  | _ => exact .ofUnwritten rfl

/-- A world, and routes that were found before, that can be read back. -/
structure World.Sound (routes : List (String × Route)) (world : World) : Prop where
  unique : world.cache.entries.Unique
  genuine : ∀ key entry, (key, entry) ∈ world.cache.entries →
    Genuine key entry.value
  found : ∀ pair ∈ routes, pair.2.Clean

namespace World.Sound

variable {surroundings : Surroundings} {lifetimes : Lifetimes}
  {routes : List (String × Route)} {world last : World}
  {address id hash : String} {batch batch' : Batch} {steps : List Step}

theorem value? {key value : String} (sound : world.Sound routes)
    (read : surroundings.value? world key = some value) : Genuine key value := by
  obtain ⟨entry, member, -, rfl⟩ :=
    (Surroundings.value?_eq_some_iff sound.unique).1 read
  exact sound.genuine key entry member

/-- Whatever a record key holds is a proper batch of that key. -/
theorem stored_of_value {text : String} (sound : world.Sound routes)
    (read : surroundings.value? world (Records.key address id) = some text) :
    ∃ (owner : String) (batch : Batch), batch.Proper owner ∧
      Records.key address id = Records.key owner batch.id ∧
      text = batch.render ∧
      surroundings.stored? world address id = some batch := by
  obtain ⟨owner, batch, proper, same, rfl⟩ := (sound.value? read).record (by simp)
  refine ⟨owner, batch, proper, same, rfl, ?_⟩
  simp [Surroundings.stored?, read, Batch.parse_render, Except.toOption]

theorem value_of_stored (sound : world.Sound routes)
    (stored : surroundings.stored? world address id = some batch) :
    surroundings.value? world (Records.key address id) = some batch.render := by
  obtain ⟨text, read, -⟩ := Option.bind_eq_some_iff.1 stored
  obtain ⟨_, found, -, -, rfl, again⟩ := sound.stored_of_value read
  rw [stored] at again
  cases again
  exact read

/-- A batch stored under a clean address is proper and carries its name. -/
theorem proper_of_stored (sound : world.Sound routes)
    (clean : Address.Clean address)
    (stored : surroundings.stored? world address id = some batch) :
    batch.Proper address ∧ batch.id = id := by
  obtain ⟨owner, found, proper, same, -, again⟩ :=
    sound.stored_of_value (sound.value_of_stored stored)
  rw [stored] at again
  cases again
  obtain ⟨rfl, rfl⟩ := Records.key_inj clean proper.clean same
  exact ⟨proper, rfl⟩

/-- A route that is found was written for its place. -/
theorem route_of_route? {route : Route} (sound : world.Sound routes)
    (read : surroundings.route? world hash = some route) :
    route.Clean ∧ ∃ written : Route, written.batchId = route.batchId ∧
      written.address = route.address ∧
      surroundings.value? world (Routes.key hash) = some written.encode := by
  obtain ⟨text, found, rfl⟩ := Option.map_eq_some_iff.1 read
  obtain ⟨_, written, clean, -, rfl⟩ := (sound.value? found).route (by simp)
  obtain ⟨batchId, address⟩ := clean.decode_encode
  exact ⟨clean.decoded, written, batchId.symm, address.symm, found⟩

theorem step {step : Step} (sound : step.world.Sound routes)
    (writes : step.request.WritesGenuine) :
    (surroundings.after step).Sound routes where
  unique := Surroundings.unique_after sound.unique
  genuine key entry member := by
    obtain before | written := Surroundings.mem_after_cases member
    · exact sound.genuine key entry before
    · exact writes key entry.value written
  found := sound.found

theorem readRecord (sound : world.Sound routes) :
    (surroundings.after (.readRecord world address id)).Sound routes :=
  sound.step (.ofUnwritten rfl)

theorem linked (sound : world.Sound routes)
    (links : surroundings.Linked world steps last)
    (writes : ∀ step ∈ steps, step.request.WritesGenuine) :
    last.Sound routes :=
  links.keeps (World.Sound routes) sound fun step member sound =>
    sound.step (writes step member)

theorem linked_at (sound : world.Sound routes)
    (links : surroundings.Linked world steps last)
    (writes : ∀ step ∈ steps, step.request.WritesGenuine) :
    ∀ step ∈ steps, step.world.Sound routes :=
  links.keeps_at (World.Sound routes) sound fun step member sound =>
    sound.step (writes step member)

end World.Sound

private theorem sending_genuine {lifetimes : Lifetimes} {steps : List Step}
    {address id : String} {group : Nat}
    (sends : ∀ step ∈ steps, step.request.Sends lifetimes address id group)
    (clean : Address.Clean address) (named : ';' ∉ id.toList) :
    ∀ step ∈ steps, step.request.WritesGenuine :=
  fun step member => (sends step member).writesGenuine clean named

namespace Surroundings

variable {surroundings : Surroundings} {lifetimes : Lifetimes}
  {routes : List (String × Route)} {world last : World} {steps : List Step}

theorem Followed.proper {address : String} {batch batch' : Batch} {index : Nat}
    {outcome : ItemStatus} (proper : batch.Proper address)
    (followed : surroundings.Followed lifetimes address batch index outcome world
      batch' steps last) : batch'.Proper address :=
  proper.transfer followed.id followed.payloads

theorem Started.proper {address : String} {batch batch' : Batch} {index : Nat}
    (proper : batch.Proper address)
    (started : surroundings.Started lifetimes batch address index world batch'
      steps last) : batch'.Proper address :=
  proper.transfer started.id started.payloads

namespace Applied

variable {hash batchId address : String} {outcome : ItemStatus}
  {batch batch' : Batch} {position : Position} {item : Item} {middle : World}
  (applied : surroundings.Applied lifetimes hash batchId address outcome world
    batch batch' position item steps middle)
  (sound : world.Sound routes) (clean : Address.Clean address)

include applied sound clean

theorem proper : batch.Proper address :=
  (sound.proper_of_stored clean applied.stored).1

theorem named : batch.id = batchId :=
  (sound.proper_of_stored clean applied.stored).2

theorem updated : (batch.setItemStatus position outcome).Proper address :=
  (applied.proper sound clean).setItemStatus position outcome

theorem key : Records.key address batch'.id = Records.key address batchId := by
  rw [applied.followed.id, ← applied.named sound clean]
  rfl

theorem genuine : ∀ step ∈ steps, step.request.WritesGenuine :=
  sending_genuine applied.followed.sends clean (applied.updated sound clean).id

theorem soundMiddle : middle.Sound routes :=
  sound.readRecord.linked applied.followed.linked
    (applied.genuine sound clean)

theorem soundWritten :
    (surroundings.written lifetimes middle address batch').Sound routes :=
  (applied.soundMiddle sound clean).step
    (.ofRecord (applied.followed.proper (applied.updated sound clean)) _)

end Applied

theorem Reconciling.writesGenuine {hash batchId address : String}
    {outcome : ItemStatus} (sound : world.Sound routes)
    (clean : Address.Clean address)
    (reconciling : surroundings.Reconciling lifetimes hash batchId address outcome
      world steps last) :
    ∀ step ∈ steps, step.request.WritesGenuine := by
  cases reconciling with
  | skipped =>
      simp only [List.forall_mem_cons, List.not_mem_nil, false_implies,
        implies_true, and_true]
      exact ⟨.ofUnwritten rfl, .ofUnwritten rfl⟩
  | applied applied =>
      have updated := applied.updated sound clean
      simp only [List.forall_mem_cons, List.forall_mem_append, List.not_mem_nil,
        false_implies, implies_true, and_true]
      exact ⟨.ofUnwritten rfl, applied.genuine sound clean,
        .ofRecord (applied.followed.proper updated) _, .ofUnwritten rfl⟩

namespace Offered

variable {request : BatchRequest} {address : String} {batch batch' : Batch}
  (offered : surroundings.Offered lifetimes request world address batch batch'
    steps last)

include offered

theorem proper : batch.Proper address :=
  offered.admits.proper

theorem updated : batch'.Proper address :=
  offered.sent.proper offered.proper

theorem key : Records.key address batch'.id = Records.key address request.id := by
  rw [offered.sent.id, offered.admits.id]

theorem genuine : ∀ step ∈ steps, step.request.WritesGenuine :=
  sending_genuine offered.sent.sends offered.proper.clean offered.proper.id

theorem groupSuccessful {group : Nat} (taken : batch'.invalidHashesAt 0 = [])
    (inside : group < batch'.groups.length) :
    batch'.groupSuccessful group = false := by
  have untouched := offered.admits.fresh.untouched.transfer
    (offered.sent.statuses taken)
  obtain ⟨item, found⟩ := offered.updated.item_of_group inside
  exact Batch.groupSuccessful_of_waiting found (untouched _ _ found)

theorem soundLast (sound : world.Sound routes) : last.Sound routes :=
  sound.readRecord.linked offered.sent.linked offered.genuine

end Offered

theorem Submitting.writesGenuine {request : BatchRequest}
    (submitting : surroundings.Submitting lifetimes request world steps last) :
    ∀ step ∈ steps, step.request.WritesGenuine := by
  cases submitting with
  | malformed =>
      intro _ member
      cases member
  | rejected => exact List.forall_mem_singleton.2 (.ofUnwritten rfl)
  | refused offered =>
      exact List.forall_mem_cons.2 ⟨.ofUnwritten rfl, offered.genuine⟩
  | stored offered =>
      simp only [List.forall_mem_cons, List.forall_mem_append, List.not_mem_nil,
        false_implies, implies_true, and_true]
      exact ⟨.ofUnwritten rfl, offered.genuine, .ofRecord offered.updated _⟩

end Surroundings

end BatchRelay
