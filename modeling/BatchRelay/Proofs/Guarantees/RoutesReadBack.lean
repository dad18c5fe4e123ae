import BatchRelay.Proofs.Engine.Leftovers
import BatchRelay.Proofs.Engine.Submissions
import BatchRelay.Proofs.Time.Timestamps

/-!
# Routes lead back

The text of a route is made of three parts, and neither an identifier that passes
the checks nor an address with a public key holds what stands between them.  So what
is written for an accepted transaction leads back to its batch, to the address of
the record and to the millisecond in which its group was sent.
-/

namespace BatchRelay

theorem Route.decode_encode_eq {route : Route} (id : ';' ∉ route.batchId.toList)
    (address : ';' ∉ route.address.toList)
    (writable : route.submittedAt.Writable) :
    decode route.encode =
      { route with submittedAt := route.submittedAt.truncate } := by
  simp [decode, encode, Pieces.cut_of_not_mem id, Pieces.cut_of_not_mem address,
    Timestamp.read?_print writable]

namespace Surroundings

/-- Whether all that steps write are routes that read back as this one, and they
write one for every transaction that the network takes. -/
structure Routed (surroundings : Surroundings) (route : Route)
    (steps : List Step) : Prop where
  written : ∀ step ∈ steps, ∀ key value,
    step.request.written? = some (key, value) →
      (∃ hash, key = Routes.key hash) ∧ Route.decode value = route
  accepted : ∀ step ∈ steps, ∀ origin payload hash,
    step.request = .send origin payload →
      surroundings.send step.world.moment payload = .ok hash →
        ∃ write ∈ steps, ∃ value,
          write.request.written? = some (Routes.key hash, value)

/-- Whether steps write no record but the one under a key, and write it when a batch that
is not invalid is their result. -/
structure Recorded (surroundings : Surroundings) (key : String) (steps : List Step)
    (result : Except BatchError Batch) : Prop where
  only : ∀ step ∈ steps, ∀ other value, step.request.written? = some (other, value) →
    Records.isKey other = true → other = key
  stored : ∀ batch, result = .ok batch → batch.status ≠ .invalid →
    ∃ step ∈ steps, step.request.written? = some (key, batch.render) ∧
      surroundings.fault step.world.moment (.write key) = none

variable {surroundings : Surroundings} {lifetimes : Lifetimes} {steps : List Step}

theorem Performs.sendItems_steps {route : Route} {position : Position}
    {items items' : List Item}
    (performs : surroundings.Performs (sendItems lifetimes route position items)
      steps items') :
    ∀ step ∈ steps,
      (∃ origin payload, step.request = .send origin payload) ∨
        ∃ world hash, step = .writeRoute lifetimes world hash route := by
  induction items generalizing position steps items' with
  | nil =>
      obtain ⟨rfl, -⟩ := performs_pure.1 performs
      exact List.forall_mem_nil _
  | cons item items induction =>
      obtain ⟨earlier, hash, later, rest, others, -, sends, rfl, -⟩ |
        ⟨earlier, error, -, rfl, -⟩ := performs.sendItems_cons
      · rw [List.forall_mem_cons, List.forall_mem_cons]
        exact ⟨.inl ⟨_, _, rfl⟩, .inr ⟨later, hash, rfl⟩, induction sends⟩
      · exact List.forall_mem_singleton.2 (.inl ⟨_, _, rfl⟩)

theorem Performs.sendItems_accepted {route : Route} {position : Position}
    {items items' : List Item}
    (performs : surroundings.Performs (sendItems lifetimes route position items)
      steps items')
    {step : Step} {origin : Origin} {payload : Transaction} {hash : String}
    (member : step ∈ steps) (isSend : step.request = .send origin payload)
    (taken : surroundings.send step.world.moment payload = .ok hash) :
    ∃ world, .writeRoute lifetimes world hash route ∈ steps := by
  induction items generalizing position steps items' with
  | nil =>
      obtain ⟨rfl, -⟩ := performs_pure.1 performs
      cases member
  | cons item items induction =>
      obtain ⟨earlier, found, later, rest, others, answer, sends, rfl, -⟩ |
        ⟨earlier, error, answer, rfl, -⟩ := performs.sendItems_cons
      · simp only [List.mem_cons] at member
        obtain rfl | rfl | inRest := member
        · cases isSend
          cases answer.symm.trans taken
          exact ⟨later, List.mem_cons_of_mem _ List.mem_cons_self⟩
        · cases isSend
        · obtain ⟨world, written⟩ := induction sends inRest
          exact ⟨world, List.mem_cons_of_mem _ (List.mem_cons_of_mem _ written)⟩
      · obtain rfl := List.mem_singleton.1 member
        cases isSend
        cases answer.symm.trans taken

theorem Performs.startGroup_routed {batch batch' : Batch} {address : String}
    {index : Nat} {world : World} (proper : batch.Proper address)
    (performs : surroundings.Performs (BatchRelay.startGroup lifetimes batch index)
      steps batch')
    (asks : .clock world ∈ steps)
    (writable : (surroundings.now world.moment).Writable) :
    surroundings.Routed
      ⟨batch.id, address, (surroundings.now world.moment).truncate⟩ steps := by
  obtain ⟨-, rfl, -⟩ |
    ⟨owner, group, earlier, rest, items, isSender, -, sends, rfl, -⟩ :=
      performs.startGroup
  · cases asks
  have isAddress := Option.some.inj (proper.sender.symm.trans isSender)
  subst isAddress
  have others := sends.sendItems_steps
  have isFirst : earlier = world := by
    obtain first | later := List.mem_cons.1 asks
    · cases first
      rfl
    · obtain ⟨_, _, isSend⟩ | ⟨_, _, isWrite⟩ := others _ later
      · cases isSend
      · cases isWrite
  subst isFirst
  have back : Route.decode
      (Route.encode ⟨batch.id, address, surroundings.now earlier.moment⟩) =
        ⟨batch.id, address, (surroundings.now earlier.moment).truncate⟩ :=
    Route.decode_encode_eq proper.id proper.clean.2 writable
  constructor
  case written =>
    rw [List.forall_mem_cons]
    refine ⟨nofun, ?_⟩
    intro step member key value written
    obtain ⟨_, _, isSend⟩ | ⟨_, hash, isWrite⟩ := others step member
    · rw [isSend] at written
      cases written
    · rw [isWrite] at written
      cases written
      exact ⟨⟨hash, rfl⟩, back⟩
  case accepted =>
    rw [List.forall_mem_cons]
    refine ⟨nofun, ?_⟩
    intro step member origin payload hash isSend taken
    obtain ⟨later, written⟩ := sends.sendItems_accepted member isSend taken
    exact ⟨_, List.mem_cons_of_mem _ written, _, rfl⟩

section Validated

variable {request : BatchRequest} {sourceIp : Option String} {address : String}
  {made : Batch} {checks : List Step}

theorem Performs.validated
    (performs : surroundings.Performs request.validate checks (.ok address)) :
    request.checkShape = .ok address ∧
      request.checkTransactions address = .ok () := by
  obtain ⟨error, -, -, isError⟩ | ⟨owner, world, shaped, -, isResult⟩ :=
    performs.validate
  · cases isError
  split at isResult
  · cases isResult
  · cases isResult
  · cases checked : request.checkTransactions owner with
    | error error =>
        rw [checked] at isResult
        cases isResult
    | ok _ =>
        rw [checked] at isResult
        cases isResult
        exact ⟨shaped, checked⟩

theorem Answers.record_key {result : Except BatchError Batch}
    (answers : surroundings.Answers lifetimes request sourceIp steps result)
    (shaped : request.checkShape = .ok address) {step : Step} (member : step ∈ steps)
    {key value : String} (written : step.request.written? = some (key, value))
    (isRecord : Records.isKey key = true) : key = Records.key address request.id := by
  have sending {owner : String} {batch started : Batch} {middle : List Step}
      (passes : request.Passes sourceIp owner batch)
      (starts : surroundings.Performs (startGroup lifetimes batch 0) middle
        started) : step ∉ middle := by
    intro inMiddle
    obtain ⟨group, sends⟩ := starts.firstSends passes.admits step inMiddle
    generalize step.request = request at sends written
    cases sends with
    | write =>
        cases written
        simp at isRecord
    | now | publish | send => cases written
  have storing {owner : String} {batch started : Batch} {middle : List Step}
      {later : World} (passes : request.Passes sourceIp owner batch)
      (starts : surroundings.Performs (startGroup lifetimes batch 0) middle
        started) (isStore : step = .writeRecord lifetimes later owner started) :
      key = Records.key address request.id := by
    have isOwner := Except.ok.inj (passes.shaped.symm.trans shaped)
    subst isOwner
    subst isStore
    cases written
    rw [starts.startedId passes.admits]
  cases answers with
  | malformed => cases member
  | unread | duplicate | unsound | unmade =>
      obtain rfl := List.mem_singleton.1 member
      cases written
  | refused passes _ starts =>
      obtain rfl | inMiddle := List.mem_cons.1 member
      · cases written
      · exact absurd inMiddle (sending passes starts)
  | stored passes _ starts | unstored passes _ starts =>
      simp only [List.mem_cons, List.mem_append, List.not_mem_nil, or_false]
        at member
      obtain rfl | inMiddle | isStore := member
      · cases written
      · exact absurd inMiddle (sending passes starts)
      · exact storing passes starts isStore

theorem Answers.recorded {result : Except BatchError Batch}
    (answers : surroundings.Answers lifetimes request sourceIp steps result)
    (shaped : request.checkShape = .ok address) :
    surroundings.Recorded (Records.key address request.id) steps result := by
  constructor
  case only =>
    intro step member key value written isRecord
    exact answers.record_key shaped member written isRecord
  case stored =>
    intro batch isResult valid
    cases answers with
    | malformed | unread | duplicate | unsound | unmade | unstored => cases isResult
    | refused => exact absurd (Except.ok.inj isResult ▸ rfl) valid
    | stored passes _ starts _ works =>
        obtain rfl := Except.ok.inj isResult
        obtain rfl := Except.ok.inj (passes.shaped.symm.trans shaped)
        have isId := starts.startedId passes.admits
        rw [← isId]
        exact ⟨_, List.mem_cons_of_mem _ (List.mem_append_right _ List.mem_cons_self), rfl,
          works⟩

end Validated

end Surroundings

/-- A route without separators in its parts is read back to the millisecond.  All
that the groups of a batch write, once its request has passed the checks, are such
routes, and they lead to the key under which the batch is stored. -/
theorem routes_read_back :
    (∀ route : Route, ';' ∉ route.batchId.toList → ';' ∉ route.address.toList →
      route.submittedAt.Writable →
        Route.decode route.encode =
          { route with submittedAt := route.submittedAt.truncate }) ∧
    ∀ (surroundings : Surroundings) (lifetimes : Lifetimes) (request : BatchRequest)
      (sourceIp : Option String) (address : String) (made : Batch)
      (checks : List Step),
      surroundings.Performs request.validate checks (.ok address) →
      request.toBatch sourceIp = .ok made →
        (∀ steps result,
          surroundings.Performs (submit lifetimes request sourceIp) steps result →
            surroundings.Recorded (Records.key address made.id) steps result) ∧
        ∀ batch : Batch, batch.id = made.id → batch.payloads = made.payloads →
          ∀ index steps batch',
            surroundings.Performs (startGroup lifetimes batch index) steps batch' →
              ∀ world, .clock world ∈ steps →
                (surroundings.now world.moment).Writable →
                  surroundings.Routed ⟨made.id, address,
                    (surroundings.now world.moment).truncate⟩ steps := by
  constructor
  · intro route id address writable
    exact Route.decode_encode_eq id address writable
  intro surroundings lifetimes request sourceIp address made checks validates isMade
  obtain ⟨shaped, checked⟩ := validates.validated
  have admits := BatchRequest.admits shaped checked isMade
  constructor
  · intro steps result submits
    rw [admits.id]
    exact submits.submit.recorded shaped
  · intro batch id payloads index steps batch' starts world asks writable
    have proper := admits.proper.transfer id payloads
    rw [← id]
    exact starts.startGroup_routed proper asks writable

namespace Sample

/-- A network whose clock stands inside the leap second at the end of 2016. -/
def leaping : Surroundings :=
  { network third with now := fun _ => ⟨1483228799, 1512345678⟩ }

/-- The batch of one transfer that waits. -/
def waiting : Batch :=
  .ofGroups "b" [[first]]

theorem waiting_passes :
    (BatchRequest.ofGroups "b" [[first]]).Passes none alice waiting :=
  BatchRequest.passes_ofGroups (by decide) (by simp) (by simp) (by simp [first_valid])

theorem leaping_takes (moment : Nat) :
    leaping.send moment (Item.waiting first).payload = .ok first.hash := by
  rw [show leaping.send = (network third).send from rfl,
    show (Item.waiting first).payload = first.payload from rfl]
  exact network_takes third first_valid (by simp [first, transfer])

theorem leaping_validates : (leaping.run (BatchRequest.ofGroups "b" [[first]]).validate
    (.start (.memory .empty))).1 = .ok alice := by
  have absent : (leaping.run (Records.get alice "b") (.start (.memory .empty))).1 =
      .ok none := Surroundings.get_eq_none_iff.2 ⟨rfl, rfl⟩
  simp only [BatchRequest.validate, waiting_passes.shaped, Bind.bind, Pure.pure,
    Surroundings.run_bind]
  rw [show (BatchRequest.ofGroups "b" [[first]]).id = "b" from rfl, absent]
  simp only [Surroundings.run, waiting_passes.checked, Except.ok_map]

theorem waiting_started (world : World) :
    (leaping.run (startGroup .forever waiting 0) world).1 = waiting := by
  rw [Surroundings.run_startGroup rfl rfl]
  change waiting.modifyGroup 0 (fun _ => ⟨(leaping.run (sendItems .forever _ ⟨0, 0⟩
    [.waiting first]) _).1⟩) = waiting
  rw [Surroundings.run_sendItems_taken (leaping_takes _)]
  rfl

theorem waiting_submitted : (leaping.run
    (submit .forever (.ofGroups "b" [[first]]) none) (.start (.memory .empty))).1 =
      .ok waiting := by
  rw [Surroundings.run_submit waiting_passes rfl rfl]
  simp only [waiting_started]
  rfl

end Sample

/-- The route of a transfer that is taken inside a leap second is read back with that leap
second, and it leads to the key under which its batch is stored. -/
theorem Sample.leap_route_read_back :
    (∃ steps sent,
      leaping.Performs (startGroup .forever waiting 0) steps sent ∧
        leaping.Routed ⟨"b", alice, ⟨1483228799, 1512000000⟩⟩ steps ∧
        ∃ step ∈ steps, ∃ value,
          step.request.written? = some (Routes.key first.hash, value)) ∧
      ∃ steps stored,
        leaping.Performs (submit .forever (.ofGroups "b" [[first]]) none) steps
            (.ok stored) ∧
          ∃ step ∈ steps,
            step.request.written? = some (Records.key alice "b", stored.render) := by
  let world : World := .start (.memory .empty)
  have validates := leaping.steps_performs
    (BatchRequest.ofGroups "b" [[first]]).validate world
  rw [leaping_validates] at validates
  have readBack := routes_read_back.2 leaping .forever _ none alice waiting _ validates
    waiting_passes.made
  constructor
  · have starts := leaping.steps_performs (startGroup .forever waiting 0) world
    have writable : Instant.Writable ⟨1483228799, 1512345678⟩ := by
      constructor <;> decide
    have routed := readBack.2 waiting rfl rfl 0 _ _ starts world List.mem_cons_self writable
    have instant : (leaping.now world.moment).truncate = ⟨1483228799, 1512000000⟩ := by
      decide
    rw [instant] at routed
    refine ⟨_, _, starts, routed, ?_⟩
    obtain ⟨absent, -⟩ | ⟨_, _, _, rest, _, -, present, sends, isSteps, -⟩ :=
      starts.startGroup
    · obtain noSender | noGroup := absent
      · cases noSender
      · cases noGroup
    cases present
    rw [isSteps]
    obtain ⟨earlier, hash, later, _, _, answer, -, rfl, -⟩ | ⟨earlier, _, answer, -⟩ :=
      sends.sendItems_cons
    · have isHash := Except.ok.inj ((leaping_takes earlier.moment).symm.trans answer)
      subst isHash
      exact ⟨_, List.mem_cons_of_mem _ (List.mem_cons_of_mem _ List.mem_cons_self), _, rfl⟩
    · cases (leaping_takes earlier.moment).symm.trans answer
  · have submits := leaping.steps_performs
      (submit .forever (.ofGroups "b" [[first]]) none) world
    rw [waiting_submitted] at submits
    obtain ⟨step, member, writes, -⟩ := (readBack.1 _ _ submits).stored waiting rfl nofun
    exact ⟨_, _, submits, step, member, writes⟩

end BatchRelay
