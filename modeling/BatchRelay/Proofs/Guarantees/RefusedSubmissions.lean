import BatchRelay.Proofs.Engine.Leftovers
import BatchRelay.Proofs.Engine.Replies

/-!
# What a refused submission leaves behind

A batch comes back invalid when the network refuses an item of its first group.
Nothing is stored then.  But the items before the refused one were taken, and
their routes stay in the index, where they lead to a record that is not there.
The cache is as it was when the very first item is refused.
-/

namespace BatchRelay

namespace Surroundings

/-- What is sent for the places before one is taken, and nothing else is; what is
sent for that place is refused. -/
structure StopsAt (surroundings : Surroundings) (steps : List Step)
    (originAt : Nat → Origin) (place : Nat) : Prop where
  refused : ∃ step ∈ steps, surroundings.Refuses step (originAt place)
  earlier : ∀ before < place, ∃ step ∈ steps, ∃ hash,
    surroundings.Accepts step (originAt before) hash
  only : ∀ step ∈ steps, ∀ origin hash, surroundings.Accepts step origin hash →
    ∃ before < place, origin = originAt before

/-- What there is after the steps of a submission of which an item of the first
group was refused. -/
structure RefusedAt (surroundings : Surroundings) (lifetimes : Lifetimes)
    (address id : String) (steps : List Step) (world last : World)
    (place : Nat) : Prop where
  stops : surroundings.StopsAt steps (fun place => ⟨address, id, ⟨0, place⟩⟩) place
  records : ∀ owner other,
    surroundings.Unchanged steps world last (Records.key owner other)
  others : ∀ key, (∀ hash, surroundings.Takes steps hash → key ≠ Routes.key hash) →
    surroundings.Unchanged steps world last key
  nothing : place = 0 → ∀ key, surroundings.Unchanged steps world last key
  routes : ∀ hash, surroundings.Takes steps hash →
    ∃ since, ∀ now, surroundings.Timely lifetimes.route steps now →
      last.cache.get now (Routes.key hash) = some (Route.encode ⟨id, address, since⟩)

variable {surroundings : Surroundings} {lifetimes : Lifetimes} {route : Route}
  {position : Position} {items items' : List Item} {address id hash : String}
  {world last : World} {step other : Step} {steps : List Step} {place : Nat}

/-! ## The refused item -/

theorem StopsAt.here {originAt : Nat → Origin}
    (refuses : surroundings.Refuses step (originAt 0)) :
    surroundings.StopsAt [step] originAt 0 where
  refused := ⟨step, List.mem_singleton_self _, refuses⟩
  earlier before less := absurd less (Nat.not_lt_zero before)
  only found member origin hash taken := by
    cases List.mem_singleton.1 member
    exact absurd taken (not_accepts_of_refuses refuses)

theorem StopsAt.skip {originAt : Nat → Origin}
    (stops : surroundings.StopsAt steps originAt place)
    (inward : step.request.isOutward = false) :
    surroundings.StopsAt (step :: steps) originAt place := by
  constructor
  case refused =>
    rcases stops.refused with ⟨found, member, refuses⟩
    exact ⟨found, List.mem_cons_of_mem _ member, refuses⟩
  case earlier =>
    intro before less
    rcases stops.earlier before less with ⟨found, member, taken⟩
    exact ⟨found, List.mem_cons_of_mem _ member, taken⟩
  case only =>
    intro found member origin hash taken
    rcases List.mem_cons.1 member with rfl | inRest
    · exact absurd taken (not_accepts_of_inward inward)
    · exact stops.only found inRest origin hash taken

theorem StopsAt.accept {originAt : Nat → Origin}
    (stops : surroundings.StopsAt steps (fun place => originAt (place + 1)) place)
    (accepts : surroundings.Accepts step (originAt 0) hash) :
    surroundings.StopsAt (step :: steps) originAt (place + 1) := by
  constructor
  case refused =>
    rcases stops.refused with ⟨found, member, refuses⟩
    exact ⟨found, List.mem_cons_of_mem _ member, refuses⟩
  case earlier =>
    intro before less
    cases before with
    | zero => exact ⟨step, List.mem_cons_self, hash, accepts⟩
    | succ before =>
        rcases stops.earlier before (by omega) with ⟨found, member, taken⟩
        exact ⟨found, List.mem_cons_of_mem _ member, taken⟩
  case only =>
    intro found member origin answer taken
    rcases List.mem_cons.1 member with rfl | inRest
    · exact ⟨0, Nat.zero_lt_succ _, accepts.origin_eq taken⟩
    · rcases stops.only found inRest origin answer taken with
        ⟨before, less, same⟩
      exact ⟨before + 1, by omega, same⟩

theorem Sent.stops
    (sent : surroundings.Sent lifetimes route position items world items' steps
      last)
    (waiting : ∀ item ∈ items, item.status ≠ .invalid)
    (spoiled : ∃ item ∈ items', item.status = .invalid) :
    ∃ place, surroundings.StopsAt steps
      (fun place => ⟨route.address, route.batchId,
        ⟨position.group, position.item + place⟩⟩) place := by
  -- A taken item stands before the rest, so the rest counts from one place later.
  induction sent with
  | none =>
      rcases spoiled with ⟨_, member, -⟩
      cases member
  | @taken position item items items' world last steps hash answer rest
      induction =>
      rw [List.forall_mem_cons] at waiting
      have later : ∃ item ∈ items', item.status = .invalid := by
        rcases spoiled with ⟨found, member, invalid⟩
        rcases List.mem_cons.1 member with rfl | inRest
        · exact absurd invalid waiting.1
        · exact ⟨found, inRest, invalid⟩
      rcases induction waiting.2 later with ⟨place, stops⟩
      have accepts : surroundings.Accepts
          (.send world route position item.payload)
          ⟨route.address, route.batchId, ⟨position.group, position.item + 0⟩⟩
          hash := ⟨_, rfl, answer⟩
      have shifted : surroundings.StopsAt steps (fun place => ⟨route.address,
          route.batchId, ⟨position.group, position.item + (place + 1)⟩⟩) place :=
        by simpa only [Position.next, Nat.add_assoc, Nat.add_comm 1] using stops
      exact ⟨place + 1, (shifted.skip rfl).accept accepts⟩
  | @refused position item items world error answer =>
      exact ⟨0, .here ⟨_, _, rfl, answer⟩⟩

/-! ## The submission -/

theorem Offered.stopsAt {request : BatchRequest} {batch batch' : Batch}
    (offered : surroundings.Offered lifetimes request world address batch batch'
      steps last)
    (refused : batch'.invalidHashesAt 0 ≠ []) :
    ∃ place, surroundings.StopsAt
      (.readRecord world address request.id :: steps)
      (fun place => ⟨address, request.id, ⟨0, place⟩⟩) place := by
  have fresh := offered.admits.fresh
  have named := offered.admits.id
  cases offered.sent with
  | @sent group items' steps last present sent =>
      have inside := (List.getElem?_eq_some_iff.1 present).1
      have spoiled : ∃ item ∈ items', item.status = .invalid := by
        rw [ne_eq, Batch.invalidHashesAt_modifyGroup inside] at refused
        simpa using refused
      have waiting : ∀ item ∈ group.items, item.status ≠ .invalid := by
        intro item member
        rcases List.getElem?_of_mem member with ⟨place, found⟩
        have waits := (fresh.item ⟨0, place⟩ item
          (Batch.item?_eq_some_iff.2 ⟨group, present, found⟩)).1
        rw [waits]
        exact nofun
      rcases sent.stops waiting spoiled with ⟨place, stops⟩
      simp only [Nat.zero_add, named] at stops
      exact ⟨place, (stops.skip rfl).skip rfl⟩

theorem Offered.refusedAt {request : BatchRequest} {batch batch' : Batch}
    (works : ∀ moment access, surroundings.fault moment access = none)
    (unique : world.cache.entries.Unique)
    (offered : surroundings.Offered lifetimes request world address batch batch'
      steps last)
    (refused : batch'.invalidHashesAt 0 ≠ []) :
    ∃ place, surroundings.RefusedAt lifetimes address request.id
      (.readRecord world address request.id :: steps) world last place := by
  have links : surroundings.Linked world
      (.readRecord world address request.id :: steps) last :=
    .cons offered.sent.linked
  have only : surroundings.OnlyIndexes
      (.readRecord world address request.id :: steps) :=
    offered.sent.onlyIndexes.cons rfl
  have others (key : String) (free : ∀ hash, surroundings.Takes
      (.readRecord world address request.id :: steps) hash →
        key ≠ Routes.key hash) :
      surroundings.Unchanged (.readRecord world address request.id :: steps)
        world last key := by
    apply links.unchanged unique
    intro step member
    exact .inl (only.untouched free step member)
  rcases offered.stopsAt refused with ⟨place, stops⟩
  refine ⟨place, stops, ?_, others, ?_, ?_⟩
  · intro owner other
    exact others _ (recordKey_free owner other)
  · rintro rfl key
    apply others
    rintro hash ⟨step, member, origin, accepts⟩
    rcases stops.only step member origin hash accepts with ⟨_, less, -⟩
    exact absurd less (Nat.not_lt_zero _)
  · intro hash taken
    refine ⟨surroundings.now (world.moment + 1), fun now timely => ?_⟩
    have within := List.subset_cons_self (.readRecord world address request.id) steps
    have leaves := offered.sent.leaves works (timely.mono within) (taken.of_cons rfl)
    rw [moment_after, offered.admits.id] at leaves
    exact (leaves.mono within).get timely (links.unique unique)

theorem Submits.refusedAt {request : BatchRequest} {batch : Batch}
    (works : ∀ moment access, surroundings.fault moment access = none)
    (unique : world.cache.entries.Unique)
    (submits : surroundings.Submits lifetimes request world (.ok batch) steps last)
    (invalid : batch.status = .invalid) :
    ∃ address place, surroundings.RefusedAt lifetimes address request.id steps
      world last place := by
  cases submits with
  | @refused address _ _ _ _ offered refused =>
      exact ⟨address, offered.refusedAt works unique refused⟩
  | stored offered taken =>
      rw [offered.sent.status, offered.admits.fresh.status] at invalid
      cases invalid

/-- A batch that comes back invalid was refused at one place of its first group.
The cache has only got the routes of the places before that one. -/
theorem refused_submission_effects (surroundings : Surroundings)
    (lifetimes : Lifetimes) (request : BatchRequest) (sourceIp : Option String)
    (world : World) (batch : Batch)
    (works : ∀ moment access, surroundings.fault moment access = none)
    (unique : world.cache.entries.Unique)
    (returned : (surroundings.run (submit lifetimes request sourceIp) world).1 =
      .ok batch)
    (invalid : batch.status = .invalid) :
    ∃ address place, surroundings.RefusedAt lifetimes address request.id
      (surroundings.steps (submit lifetimes request sourceIp) world) world
      (surroundings.run (submit lifetimes request sourceIp) world).2 place := by
  have submits := surroundings.submit_submits lifetimes request sourceIp world
  rw [returned] at submits
  exact submits.refusedAt works unique invalid

/-! ## A group that is refused at its second item -/

section Spoiled

variable {early refused first third : HashedTransaction} {error : GatewayError}
  {text? : String → Option String} {sendings : List Sending}

theorem route?_of_spoiled
    (retry : Retry surroundings address id early refused first third error)
    (shows : world.Shows address id text? false sendings)
    (begins : world.moment = 0)
    (absent : text? (Records.key address id) = none) :
    ∃ route, surroundings.route? (surroundings.run
        (submit .forever (.ofGroups id [[early, refused]]) none) world).2
        early.hash = some route ∧
      route.address = address ∧ route.batchId = id := by
  have yields := retry.fails shows begins absent
  have clean : Route.Clean
      ⟨id, address, surroundings.now (world.moment + 1)⟩ :=
    ⟨retry.clean, retry.named.2⟩
  refine ⟨_, ?_, clean.decode_encode.2, clean.decode_encode.1⟩
  rw [yields.shows.route?, if_pos rfl, Option.map_some]

end Spoiled

theorem spoiled_submission_result :
    ((Sample.network Sample.third).run
        (submit .forever (.ofGroups "b" [[Sample.early, Sample.refused]]) none)
        Sample.attempts.start).1 =
      .ok (Retry.spoiled "b" Sample.early Sample.refused Sample.noFunds) :=
  ((Sample.retry Sample.third).fails
    (Sample.attempts.shows_start Sample.alice "b") rfl rfl).result

theorem spoiled_submission_effects :
    ((Sample.network Sample.third).run
        (submit .forever (.ofGroups "b" [[Sample.early, Sample.refused]]) none)
        Sample.attempts.start).1 =
      .ok (Retry.spoiled "b" Sample.early Sample.refused Sample.noFunds) ∧
    ∃ address place, (Sample.network Sample.third).RefusedAt .forever address "b"
      ((Sample.network Sample.third).steps
        (submit .forever (.ofGroups "b" [[Sample.early, Sample.refused]]) none)
        Sample.attempts.start)
      Sample.attempts.start
      ((Sample.network Sample.third).run
        (submit .forever (.ofGroups "b" [[Sample.early, Sample.refused]]) none)
        Sample.attempts.start).2 place :=
  ⟨spoiled_submission_result,
    refused_submission_effects (Sample.network Sample.third) .forever
      (.ofGroups "b" [[Sample.early, Sample.refused]]) none Sample.attempts.start
      (Retry.spoiled "b" Sample.early Sample.refused Sample.noFunds)
      (fun _ _ => rfl) Sample.attempts.sound_start.unique
      spoiled_submission_result rfl⟩

/-- Nothing fails and the batch comes back invalid, but there is a route to it
that was not there before. -/
theorem spoiled_submission_traced :
    (∀ moment access, (Sample.network Sample.third).fault moment access = none) ∧
    ((Sample.network Sample.third).run
        (submit .forever (.ofGroups "b" [[Sample.early, Sample.refused]]) none)
        Sample.attempts.start).1 =
      .ok (Retry.spoiled "b" Sample.early Sample.refused Sample.noFunds) ∧
    (Retry.spoiled "b" Sample.early Sample.refused Sample.noFunds).status =
      .invalid ∧
    (Sample.network Sample.third).route? Sample.attempts.start Sample.early.hash =
      none ∧
    ∃ route, (Sample.network Sample.third).route?
        ((Sample.network Sample.third).run
          (submit .forever (.ofGroups "b" [[Sample.early, Sample.refused]]) none)
          Sample.attempts.start).2 Sample.early.hash = some route ∧
      route.address = Sample.alice ∧ route.batchId = "b" :=
  ⟨fun _ _ => rfl, spoiled_submission_result, rfl,
    (Sample.attempts.shows_start Sample.alice "b").route?,
    route?_of_spoiled (Sample.retry Sample.third)
      (Sample.attempts.shows_start Sample.alice "b") rfl rfl⟩

end Surroundings

end BatchRelay
