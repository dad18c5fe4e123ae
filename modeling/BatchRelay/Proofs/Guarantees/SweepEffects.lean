import BatchRelay.Proofs.Engine.Sweeps
import BatchRelay.Proofs.Guarantees.RemovedRoutes

/-!
# What a sweep may touch

A sweep works from the routes that it finds in the beginning, while its own trials rewrite
records, remove routes and send groups whose routes come to the index.  It asks about the
hashes that are due and about no others, in the order of their keys; it drops only what
the network does not know; and it leaves a route just when it is too young, could not be
asked about or has no final word.

The index, the records and the network may be any.  A record may even carry another
identifier than its key; what is read under one key is then written under another, in the
place of a batch to which no route leads.  No access fails, the lease is free, and nothing
that is stored runs out on the way.
-/

namespace BatchRelay

/-- Whether the item at some place is dropped. -/
def Batch.DroppedAt (batch : Batch) (place : Position) : Prop :=
  (batch.item? place).map Item.status = some .dropped

namespace Surroundings

/-- The reasons for which a sweep defers a route: it is too young, the lookup of its hash
has failed, or the network has no final word on it. -/
inductive Defers (surroundings : Surroundings) (threshold : Int) (now : Instant)
    (steps : List Step) (hash : String) (route : Route) : Prop
  | young (early : now.since route.submittedAt < threshold)
  | failed {error : GatewayError}
      (learns : surroundings.Learns steps hash (.error error))
  | waiting {transaction : ObservedTransaction}
      (learns : surroundings.Learns steps hash (.ok (some transaction)))
      (pending : transaction.status = .pending)

/-- A trial that moves an item to a final status: one of its steps stores what has become
of a batch that was stored before. -/
structure Moves (surroundings : Surroundings) (lifetimes : Lifetimes) (trial : Trial)
    (step : Step) (batch batch' : Batch) (position : Position) : Prop where
  isStep : step ∈ trial.steps
  before : surroundings.stored? step.world trial.route.address trial.route.batchId =
    some batch
  stores : step = .writeRecord lifetimes step.world trial.route.address batch'
  id : batch'.id = batch.id
  located : batch.locate trial.hash = some position
  waiting : (batch.item? position).map Item.status = some .pending
  moved : (batch'.item? position).map Item.status = some trial.outcome
  final : trial.outcome.isTerminal = true
  /-- No other item is dropped. -/
  others : ∀ place, place ≠ position → batch'.DroppedAt place → batch.DroppedAt place

/-- The reasons for which an item of a record is dropped: it was before, or a trial has
moved it whose hash the network does not know. -/
inductive DroppedBy (surroundings : Surroundings) (lifetimes : Lifetimes)
    (trials : List Trial) (world : World) (steps : List Step) (address id : String)
    (place : Position) : Prop
  | before {batch : Batch} (stored : surroundings.stored? world address id = some batch)
      (dropped : batch.DroppedAt place)
  | unknown {trial : Trial} {step : Step} {batch batch' : Batch} (isTrial : trial ∈ trials)
      (leads : Records.key trial.route.address trial.route.batchId = Records.key address id)
      (moves : surroundings.Moves lifetimes trial step batch batch' place)
      (learns : surroundings.Learns steps trial.hash (.ok none))

/-- Whether the records to which routes lead carry the identifiers that the routes
name. -/
def LeadHome (surroundings : Surroundings) (world : World)
    (routes : List (String × Route)) : Prop :=
  ∀ pair ∈ routes, ∀ batch,
    surroundings.stored? world pair.2.address pair.2.batchId = some batch →
      batch.id = pair.2.batchId

/-- What a sweep touches that looks up the hashes of `due` and tries `trials`. -/
structure TouchesOnly (surroundings : Surroundings) (lifetimes : Lifetimes)
    (threshold : Int) (now : Instant) (due : List (String × Route)) (trials : List Trial)
    (world : World) (steps : List Step) (last : World) : Prop where
  /-- The routes that are old enough are due. -/
  due_iff : ∀ hash route, (hash, route) ∈ due ↔
    surroundings.route? world hash = some route ∧ threshold ≤ now.since route.submittedAt
  ordered : due.Pairwise fun left right =>
    Utf8.encode (Routes.key left.1) < Utf8.encode (Routes.key right.1)
  /-- Each of their hashes is looked up once, in that order, and no other hash. -/
  lookups : steps.filterMap Step.lookedUp? = due.map Prod.fst
  /-- All reconciliations of the sweep are among the trials. -/
  works : surroundings.Works lifetimes trials steps
  tried : (trials.map fun trial => (trial.hash, trial.route)).Sublist due
  decided : ∀ trial ∈ trials, ∃ answer, surroundings.Learns steps trial.hash answer ∧
    Sweep.outcome? answer = some trial.outcome
  /-- Records are written by trials that move an item. -/
  records : ∀ step ∈ steps, ∀ address id,
    step.request.touched? = some (Records.key address id) →
    ∃ trial ∈ trials, ∃ batch batch' position,
      surroundings.Moves lifetimes trial step batch batch' position
  /-- A trial drops only the item that it has located, and only when the network does not
  know its hash. -/
  drops : ∀ trial ∈ trials, ∀ step batch batch' position place,
    surroundings.Moves lifetimes trial step batch batch' position →
    batch'.DroppedAt place →
    batch.DroppedAt place ∨
      place = position ∧ surroundings.Learns steps trial.hash (.ok none)
  /-- Where due routes lead to records with their own identifiers, no other item of any
  record is ever dropped. -/
  dropped : surroundings.LeadHome world due →
    ∀ reached ∈ steps.map Step.world ++ [last], ∀ address id batch place,
      surroundings.stored? reached address id = some batch → batch.DroppedAt place →
        surroundings.DroppedBy lifetimes trials world steps address id place
  /-- A route that is deferred is left as it was, unless the network takes its hash anew. -/
  left : ∀ hash route, surroundings.route? world hash = some route →
    ¬surroundings.Takes steps hash →
    surroundings.Defers threshold now steps hash route →
    surroundings.Unchanged steps world last (Routes.key hash)
  /-- Every other route that was there is gone. -/
  removed : ∀ hash route, surroundings.route? world hash = some route →
    ¬surroundings.Takes steps hash →
    ¬surroundings.Defers threshold now steps hash route →
    ∀ moment, last.cache.get moment (Routes.key hash) = none
  /-- A trial counts as a change when it has moved an item. -/
  changed : ∀ trial ∈ trials, trial.attempt.isChange = true ↔
    ∃ step batch batch' position,
      surroundings.Moves lifetimes trial step batch batch' position

variable {surroundings : Surroundings} {lifetimes : Lifetimes} {threshold : Int}
  {now : Instant} {found : List (String × Route)} {trial : Trial} {trials : List Trial}
  {world last : World} {steps opening looking closing : List Step} {step : Step}

/-! ## One trial -/

theorem Attempts.exists_write (attempts : surroundings.Attempts lifetimes trial)
    (changed : trial.attempt.isChange = true) :
    ∃ step ∈ trial.steps, ∃ address id,
      step.request.touched? = some (Records.key address id) := by
  obtain ⟨status, applied⟩ := Trial.isChange_iff.1 changed
  obtain ⟨handling, removed, steps, handles⟩ := attempts.performs.reconcile
  rw [applied] at handles
  obtain ⟨step, member, touches⟩ := handles.exists_write
  exact ⟨step, steps ▸ List.mem_append_left _ member, touches⟩

section Steadily

variable {α : Type} {activity : Activity α} {before after : World} {address id : String}
  (steady : surroundings.Steady (surroundings.worlds activity world))

include steady

theorem Linked.stored?_of_sending {read later : World} {sending : List Step}
    (links : surroundings.Linked before (.readRecord read address id :: sending) later)
    (unique : before.cache.entries.Unique)
    (own : .readRecord read address id :: sending ⊆ surroundings.steps activity world)
    (sends : ∀ step ∈ sending, ∃ owner batchId group,
      step.request.Sends lifetimes owner batchId group) :
    surroundings.stored? later address id = surroundings.stored? read address id := by
  have isRead := (Linked.cons_iff.1 links).1
  have shown := links.value?_eq steady (isTracked_recordKey address id) unique
    (fun step member => ⟨world_mem_worlds (own member), after_mem_worlds (own member)⟩) ?_
  · rw [stored?, shown, ← isRead]
    rfl
  · rw [List.forall_mem_cons]
    refine ⟨?_, fun step member => ?_⟩
    · intro touches
      cases touches
    · obtain ⟨owner, batchId, group, isSending⟩ := sends step member
      exact isSending.untouched address id

theorem Attempts.moves (attempts : surroundings.Attempts lifetimes trial)
    (working : ∀ moment access, surroundings.fault moment access = none)
    (own : trial.steps ⊆ surroundings.steps activity world)
    (links : surroundings.Linked before trial.steps after)
    (unique : before.cache.entries.Unique) (member : step ∈ trial.steps)
    (touched : step.request.touched? = some (Records.key address id)) :
    trial.attempt.isChange = true ∧
      ∃ batch batch' position,
        surroundings.Moves lifetimes trial step batch batch' position := by
  obtain ⟨handling, removed, isOwn, handles⟩ := attempts.performs.reconcile
  have inTrial := member
  rw [isOwn] at inTrial
  rcases List.mem_append.1 inTrial with inHandling | atEnd
  case inr =>
    cases List.mem_singleton.1 atEnd
    exact absurd (Option.some.inj touched) (Routes.key_ne_recordKey _ _ _)
  case inl =>
    obtain ⟨read, later, batch, batch', position, item, middle, found, located, isItem,
      waits, follows, rfl, rfl, ends⟩ := handles.writes inHandling touched
    have sending := follows.follow_onlySends
    have parts : trial.steps = (.readRecord read trial.route.address
        trial.route.batchId :: middle) ++ [.writeRecord lifetimes later trial.route.address
          batch', .removeRoute removed trial.hash] := by
      simp [isOwn]
    rw [parts] at links own
    obtain ⟨reached, reading, rest⟩ := links.split
    obtain ⟨rfl, -⟩ := Linked.cons_iff.1 rest
    have kept := reading.stored?_of_sending steady unique
      (fun step inReading => own (List.mem_append_left _ inReading))
      fun step inMiddle => ⟨_, _, sending.sends step inMiddle⟩
    refine ⟨Trial.isChange_iff.2 ⟨_, ends (working _ _)⟩, batch, batch', position, ?_⟩
    constructor
    case isStep => exact member
    case before => exact kept.trans found
    case stores => rfl
    case id => exact sending.id
    case located => exact located
    case waiting =>
      rw [isItem]
      simpa [ItemStatus.isTerminal] using waits
    case moved =>
      rw [follows.outcome_item isItem]
      rfl
    case final => exact attempts.final
    case others =>
      intro place isOther dropped
      rw [Batch.DroppedAt] at dropped ⊢
      rw [← Batch.item?_setItemStatus_of_ne trial.outcome isOther]
      rcases follows.follow_refuses place with same | invalid
      · exact same ▸ dropped
      · rw [invalid] at dropped
        cases dropped

theorem Works.moves
    (works : surroundings.Works lifetimes trials (surroundings.steps activity world))
    (working : ∀ moment access, surroundings.fault moment access = none)
    (unique : world.cache.entries.Unique) (isTrial : trial ∈ trials)
    (member : step ∈ trial.steps)
    (touched : step.request.touched? = some (Records.key address id)) :
    trial.attempt.isChange = true ∧
      ∃ batch batch' position,
        surroundings.Moves lifetimes trial step batch batch' position := by
  obtain ⟨attempts, front, back, steps⟩ := works.split isTrial
  have links : surroundings.Linked world _ _ := surroundings.linked activity
  rw [steps] at links
  obtain ⟨before, first, rest⟩ := links.split
  obtain ⟨after, own, -⟩ := rest.split
  refine attempts.moves steady working ?_ own (first.unique unique) member touched
  rw [steps]
  exact List.subset_append_of_subset_right _ (List.subset_append_left _ _)

end Steadily

/-! ## What is dropped -/

theorem eq_of_stored?_writeRecord {address id owner : String} {batch found : Batch}
    (unique : world.cache.entries.Unique)
    (works : surroundings.fault world.moment (.write (Records.key owner batch.id)) = none)
    (same : Records.key owner batch.id = Records.key address id)
    (shown : surroundings.stored?
      (surroundings.after (.writeRecord lifetimes world owner batch)) address id =
        some found) : found = batch := by
  obtain ⟨text, read, parsed⟩ := Option.bind_eq_some_iff.1 shown
  obtain ⟨entry, member, -, rfl⟩ := (value?_eq_some_iff (unique_after unique)).1 read
  rw [Step.writeRecord, cache_after_write works, Cache.mem_set] at member
  obtain ⟨-, rfl⟩ | ⟨-, isOther⟩ := member
  · rw [Batch.parse_render] at parsed
    exact (Option.some.inj parsed).symm
  · exact absurd same.symm isOther

/-- What is known of each world of a sweep whose due routes lead to records with their own
identifiers. -/
structure Homely (surroundings : Surroundings) (lifetimes : Lifetimes) (trials : List Trial)
    (first : World) (steps : List Step) (world : World) : Prop where
  unique : world.cache.entries.Unique
  own : ∀ trial ∈ trials, ∀ batch,
    surroundings.stored? world trial.route.address trial.route.batchId = some batch →
      batch.id = trial.route.batchId
  dropped : ∀ address id batch place,
    surroundings.stored? world address id = some batch → batch.DroppedAt place →
      surroundings.DroppedBy lifetimes trials first steps address id place

section Homely

variable {first : World} {batch batch' : Batch} {position : Position}
  (homely : surroundings.Homely lifetimes trials first steps step.world)

include homely

/-- A trial writes the record that it has read, and drops no other item of it. -/
theorem Homely.moves (isTrial : trial ∈ trials)
    (working : ∀ moment access, surroundings.fault moment access = none)
    (moves : surroundings.Moves lifetimes trial step batch batch' position)
    (drops : ∀ place, batch'.DroppedAt place → batch.DroppedAt place ∨
      place = position ∧ surroundings.Learns steps trial.hash (.ok none))
    {address id : String} (touched : step.request.touched? = some (Records.key address id)) :
    Records.key trial.route.address trial.route.batchId = Records.key address id ∧
      ∀ found, surroundings.stored? (surroundings.after step) address id = some found →
        found = batch' ∧ ∀ place, found.DroppedAt place →
          surroundings.DroppedBy lifetimes trials first steps address id place := by
  have isOwn := homely.own trial isTrial batch moves.before
  have writes : Records.key trial.route.address batch'.id = Records.key address id := by
    rw [moves.stores] at touched
    exact Option.some.inj touched
  have leads : Records.key trial.route.address trial.route.batchId =
      Records.key address id := by
    rw [← isOwn, ← moves.id, writes]
  refine ⟨leads, fun found shown => ?_⟩
  rw [moves.stores] at shown
  obtain rfl := eq_of_stored?_writeRecord homely.unique (working _ _) writes shown
  refine ⟨rfl, fun place dropped => ?_⟩
  obtain before | ⟨rfl, learns⟩ := drops place dropped
  · have stored := moves.before
    rw [stored?, leads, ← stored?] at stored
    exact homely.dropped address id batch place stored before
  · exact .unknown isTrial leads moves learns

end Homely

section Reaching

variable {α : Type} {activity : Activity α}
  (steady : surroundings.Steady (surroundings.worlds activity world))
  (working : ∀ moment access, surroundings.fault moment access = none)
  (moves : ∀ step ∈ surroundings.steps activity world, ∀ address id,
    step.request.touched? = some (Records.key address id) →
    ∃ trial ∈ trials, ∃ batch batch' position,
      surroundings.Moves lifetimes trial step batch batch' position)
  (drops : ∀ trial ∈ trials, ∀ step batch batch' position place,
    surroundings.Moves lifetimes trial step batch batch' position →
    batch'.DroppedAt place → batch.DroppedAt place ∨ place = position ∧
      surroundings.Learns (surroundings.steps activity world) trial.hash (.ok none))

include steady working moves drops

theorem Homely.after (isStep : step ∈ surroundings.steps activity world)
    (homely : surroundings.Homely lifetimes trials world
      (surroundings.steps activity world) step.world) :
    surroundings.Homely lifetimes trials world (surroundings.steps activity world)
      (surroundings.after step) := by
  have kept {address id : String}
      (untouched : step.request.touched? ≠ some (Records.key address id)) :
      surroundings.stored? (surroundings.after step) address id =
        surroundings.stored? step.world address id := by
    rw [stored?, value?_after_steady steady (isTracked_recordKey _ _) homely.unique
      (world_mem_worlds isStep) (after_mem_worlds isStep) untouched, stored?]
  constructor
  case unique => exact unique_after homely.unique
  case own =>
    intro trial isTrial found shown
    by_cases touched : step.request.touched? =
        some (Records.key trial.route.address trial.route.batchId)
    · obtain ⟨mover, isMover, batch, batch', position, move⟩ := moves step isStep _ _ touched
      obtain ⟨leads, shows⟩ := homely.moves isMover working move
        (drops mover isMover step batch batch' position · move) touched
      have before := move.before
      rw [stored?, leads, ← stored?] at before
      rw [(shows found shown).1, move.id]
      exact homely.own trial isTrial batch before
    · exact homely.own trial isTrial found (kept touched ▸ shown)
  case dropped =>
    intro address id found place shown dropped
    by_cases touched : step.request.touched? = some (Records.key address id)
    · obtain ⟨mover, isMover, batch, batch', position, move⟩ := moves step isStep _ _ touched
      obtain ⟨-, shows⟩ := homely.moves isMover working move
        (drops mover isMover step batch batch' position · move) touched
      exact (shows found shown).2 place dropped
    · exact homely.dropped address id found place (kept touched ▸ shown) dropped

theorem Homely.reached
    (homely : surroundings.Homely lifetimes trials world
      (surroundings.steps activity world) world) :
    ∀ reached ∈ surroundings.worlds activity world,
      surroundings.Homely lifetimes trials world (surroundings.steps activity world)
        reached := by
  have links : surroundings.Linked world _ _ := surroundings.linked activity
  have kept : ∀ step ∈ surroundings.steps activity world,
      surroundings.Homely lifetimes trials world (surroundings.steps activity world)
        step.world →
      surroundings.Homely lifetimes trials world (surroundings.steps activity world)
        (surroundings.after step) :=
    fun step isStep => Homely.after steady working moves drops isStep
  intro reached member
  rcases List.mem_append.1 member with inSteps | isLast
  · obtain ⟨step, isStep, rfl⟩ := List.mem_map.1 inSteps
    exact links.keeps_at _ homely kept step isStep
  · exact List.mem_singleton.1 isLast ▸ links.keeps _ homely kept

theorem droppedBy_of_leadHome {due : List (String × Route)}
    (unique : world.cache.entries.Unique) (leadHome : surroundings.LeadHome world due)
    (tried : ∀ trial ∈ trials, (trial.hash, trial.route) ∈ due) :
    ∀ reached ∈ surroundings.worlds activity world, ∀ address id batch place,
      surroundings.stored? reached address id = some batch → batch.DroppedAt place →
        surroundings.DroppedBy lifetimes trials world (surroundings.steps activity world)
          address id place := by
  have homely : surroundings.Homely lifetimes trials world
      (surroundings.steps activity world) world := by
    constructor
    case unique => exact unique
    case own => exact fun trial isTrial => leadHome (trial.hash, trial.route) (tried trial isTrial)
    case dropped => exact fun _ _ _ _ stored dropped => .before stored dropped
  intro reached member
  exact (homely.reached steady working moves drops reached member).dropped

end Reaching

/-! ## What is left and what is removed -/

theorem defers_iff {hash : String} {route : Route} :
    surroundings.Defers threshold now steps hash route ↔
      Sweep.isDue threshold now route = false ∨
        ∃ answer, surroundings.Learns steps hash answer ∧ Sweep.outcome? answer = none := by
  constructor
  · rintro (early | learns | ⟨learns, pending⟩)
    · exact .inl (decide_eq_false (Int.not_le.2 early))
    · exact .inr ⟨_, learns, rfl⟩
    · exact .inr ⟨_, learns, by rw [Sweep.outcome?, pending]; rfl⟩
  · rintro (early | ⟨answer, learns, undecided⟩)
    · exact .young (Int.not_le.1 (of_decide_eq_false early))
    · obtain _ | _ | transaction := answer
      · exact .failed learns
      · cases undecided
      · refine .waiting learns ?_
        cases status : transaction.status <;>
          simp [Sweep.outcome?, status, ObservedStatus.outcome?] at undecided ⊢

namespace Swept

variable {hash : String} {route : Route}
  (swept : surroundings.Swept lifetimes threshold now world found trials opening looking
    closing)

include swept

theorem mem_due : (hash, route) ∈ Sweep.due threshold now found ↔
    surroundings.route? world hash = some route ∧
      threshold ≤ now.since route.submittedAt := by
  rw [Sweep.due, List.mem_filter, swept.found_iff, Sweep.isDue, decide_eq_true_eq]

theorem untried (shown : surroundings.route? world hash = some route)
    (defers : surroundings.Defers threshold now (opening ++ (looking ++ closing)) hash route) :
    ∀ trial ∈ trials, trial.hash ≠ hash := by
  rintro trial member rfl
  have isDue := swept.sweeps.sublist.subset (List.mem_map_of_mem member)
  obtain ⟨isRoute, old⟩ := swept.mem_due.1 isDue
  rw [shown] at isRoute
  obtain rfl := Option.some.inj isRoute
  rcases defers_iff.1 defers with early | ⟨answer, learns, undecided⟩
  · exact of_decide_eq_false early old
  · rw [swept.decided member learns] at undecided
    cases undecided

theorem tried (shown : surroundings.route? world hash = some route)
    (undeferred : ¬surroundings.Defers threshold now (opening ++ (looking ++ closing)) hash
      route) :
    ∃ trial ∈ trials, trial.hash = hash := by
  have due : Sweep.isDue threshold now route = true :=
    (Bool.eq_false_or_eq_true _).resolve_right fun early =>
      undeferred (defers_iff.2 (.inl early))
  have isFound := (swept.found_iff hash route).2 shown
  rcases swept.sweeps.learns_or_tried isFound due with ⟨answer, learns, undecided⟩ |
    ⟨trial, member, same⟩
  · have learnt : surroundings.Learns (opening ++ (looking ++ closing)) hash answer :=
      learns.mono looking_subset
    exact absurd (defers_iff.2 (.inr ⟨answer, learnt, undecided⟩)) undeferred
  · exact ⟨trial, member, same⟩

theorem removed (working : ∀ moment access, surroundings.fault moment access = none)
    (links : surroundings.Linked world (opening ++ (looking ++ closing)) last)
    (shown : surroundings.route? world hash = some route)
    (free : ¬surroundings.Takes (opening ++ (looking ++ closing)) hash)
    (undeferred : ¬surroundings.Defers threshold now (opening ++ (looking ++ closing)) hash
      route) (moment : Int) :
    last.cache.get moment (Routes.key hash) = none := by
  obtain ⟨trial, member, rfl⟩ := swept.tried shown undeferred
  obtain ⟨earlier, later, split⟩ := List.append_of_mem member
  rcases swept.works.cleaned links (fun _ _ => working _ _) earlier trial later split with
    cleaned | ⟨other, isLater, takes⟩
  · exact cleaned moment
  · have isTrial : other ∈ trials := by
      rw [split]
      exact List.mem_append_right _ (List.mem_cons_of_mem _ isLater)
    obtain ⟨-, front, back, steps⟩ := swept.works.split isTrial
    rw [steps] at free
    exact absurd (takes.mono (List.subset_append_of_subset_right _
      (List.subset_append_left _ _))) free

end Swept

/-! ## The sweep -/

/-- A sweep with a free lease comes to an end, touches only what it should, and returns how
many of its trials have moved an item. -/
theorem sweep_exact (surroundings : Surroundings) (lifetimes : Lifetimes)
    (settings : SweepSettings) (now : Instant) (world : World)
    (working : ∀ moment access, surroundings.fault moment access = none)
    (unique : world.cache.entries.Unique)
    (free : surroundings.value? world.pass settings.lease.key = none) :
    let sweep := Sweep.runAt lifetimes settings now
    surroundings.Steady (surroundings.worlds sweep world) →
    ∃ due trials,
      surroundings.TouchesOnly lifetimes settings.threshold now due trials world
          (surroundings.steps sweep world) (surroundings.run sweep world).2 ∧
        (surroundings.run sweep world).1 =
          some (trials.countP fun trial => trial.attempt.isChange) := by
  intro sweep steady
  have links : surroundings.Linked world _ _ := surroundings.linked sweep
  obtain ⟨found, trials, opening, looking, closing, steps, swept, counted⟩ :=
    runAt_swept working lifetimes settings now unique free steady
  have isAll : surroundings.steps sweep world = opening ++ (looking ++ closing) := steps
  have works := swept.works
  rw [← isAll] at works
  have moves : ∀ trial ∈ trials, ∀ step ∈ trial.steps, ∀ address id,
      step.request.touched? = some (Records.key address id) → _ :=
    fun trial isTrial step member address id => works.moves steady working unique isTrial member
  have decided : ∀ trial ∈ trials, ∃ answer,
      surroundings.Learns (surroundings.steps sweep world) trial.hash answer ∧
        Sweep.outcome? answer = some trial.outcome :=
    fun trial isTrial => isAll ▸ swept.learns isTrial
  have records : ∀ step ∈ surroundings.steps sweep world, ∀ address id,
      step.request.touched? = some (Records.key address id) →
      ∃ trial ∈ trials, ∃ batch batch' position,
        surroundings.Moves lifetimes trial step batch batch' position := by
    intro step member address id touched
    rcases works.cases_of_mem member with isAside | ⟨trial, isTrial, inTrial⟩
    · exact absurd touched
        (Request.touched?_of_isAside isAside (isTracked_recordKey address id))
    · exact ⟨trial, isTrial, (moves trial isTrial step inTrial address id touched).2⟩
  have drops : ∀ trial ∈ trials, ∀ step batch batch' position place,
      surroundings.Moves lifetimes trial step batch batch' position →
      batch'.DroppedAt place → batch.DroppedAt place ∨ place = position ∧
        surroundings.Learns (surroundings.steps sweep world) trial.hash (.ok none) := by
    intro trial isTrial step batch batch' position place move dropped
    by_cases here : place = position
    case neg => exact .inl (move.others place here dropped)
    case pos =>
      rw [Batch.DroppedAt, here, move.moved] at dropped
      obtain ⟨answer, learns, led⟩ := decided trial isTrial
      rw [Option.some.inj dropped, Sweep.outcome?_eq_dropped_iff] at led
      exact .inr ⟨here, led ▸ learns⟩
  refine ⟨Sweep.due settings.threshold now found, trials, ?_, counted⟩
  constructor
  case due_iff => exact fun hash route => swept.mem_due
  case ordered => exact swept.ordered.filter _
  case lookups => exact isAll ▸ swept.lookups
  case works => exact works
  case tried => exact swept.sweeps.sublist
  case decided => exact decided
  case records => exact records
  case drops => exact drops
  case dropped =>
    exact fun leadHome => droppedBy_of_leadHome steady working records drops unique leadHome
      fun trial isTrial => swept.sweeps.sublist.subset (List.mem_map_of_mem isTrial)
  case left =>
    intro hash route shown untaken defers
    have untried := swept.untried shown (isAll ▸ defers)
    exact links.unchanged unique fun step member =>
      .inl (works.untouched untried untaken step member)
  case removed =>
    intro hash route shown untaken undeferred
    rw [isAll] at links untaken undeferred
    exact swept.removed working links shown untaken undeferred
  case changed =>
    intro trial isTrial
    constructor
    · intro changed
      obtain ⟨step, member, address, id, touched⟩ :=
        (works.split isTrial).1.exists_write changed
      exact ⟨step, (moves trial isTrial step member address id touched).2⟩
    · rintro ⟨step, batch, batch', position, move⟩
      exact (moves trial isTrial step move.isStep _ _ (by rw [move.stores]; rfl)).1

end Surroundings

namespace Sample

/-- A network that takes nothing and knows of nothing. -/
def barren : Surroundings :=
  { network third with send := fun _ _ => .error noFunds }

/-- The stored text of a route that names no instant. -/
def staleText : String :=
  "b;erd1qyu5wthldzr8wx5c9ucg8kjagg0jfs53s8nr3zpz3hypefsdd8ssycr6th"

/-- The stored text of a route one second younger than that. -/
def youngText : String :=
  "b;erd1qyu5wthldzr8wx5c9ucg8kjagg0jfs53s8nr3zpz3hypefsdd8ssycr6th;2021-01-01T00:00:01Z"

def staleRoute : Route :=
  ⟨"b", alice, Route.unknownInstant⟩

def youngRoute : Route :=
  ⟨"b", alice, ⟨1609459201, 0⟩⟩

/-- Two transfers of a batch are on their way. -/
def aging : World :=
  .start (.memory ⟨[
    (Records.key alice "b", ⟨(Batch.ofGroups "b" [[first, third]]).render, none⟩),
    (Routes.key first.hash, ⟨staleText, none⟩),
    (Routes.key third.hash, ⟨youngText, none⟩)]⟩)

/-- Transactions are asked about from an age of ten minutes on. -/
def tenMinutes : SweepSettings :=
  ⟨600 * Instant.perSecond, ⟨"sweep", 1000⟩⟩

/-- A sweep ten minutes after the first transfer was sent. -/
def punctual : Activity (Option Nat) :=
  Sweep.runAt .forever tenMinutes ⟨1609459800, 0⟩

/-- Nothing runs out of time in the sweep if nothing does at its beginning. -/
theorem punctual_steady {world : World} (timeless : world.Timeless) :
    barren.Steady (barren.worlds punctual world) :=
  Surroundings.steady_of_timeless (Surroundings.timeless_worlds timeless
    (barren.sweepAt_writesForever _ _ world))

theorem shows_of_mem {world : World} (unique : world.cache.entries.Unique)
    {key text : String} (member : (key, ⟨text, none⟩) ∈ world.cache.entries) :
    barren.value? world key = some text :=
  (Surroundings.value?_eq_some_iff unique).2 ⟨_, member, rfl, rfl⟩

theorem unique_aging : aging.cache.entries.Unique := by
  have keys : aging.cache.entries.map Prod.fst =
      [Records.key alice "b", Routes.key first.hash, Routes.key third.hash] := rfl
  rw [Entries.Unique, keys]
  decide

theorem timeless_aging : aging.Timeless := by
  intro key entry member _
  simp only [aging, World.start, Cache.entries, List.mem_cons, Prod.mk.injEq,
    List.not_mem_nil, or_false] at member
  obtain ⟨-, rfl⟩ | ⟨-, rfl⟩ | ⟨-, rfl⟩ := member <;> rfl

theorem aging_free : barren.value? aging.pass tenMinutes.lease.key = none := by
  decide +kernel

theorem route?_aging {hash : String} {route : Route} :
    barren.route? aging hash = some route ↔
      hash = first.hash ∧ route = staleRoute ∨ hash = third.hash ∧ route = youngRoute := by
  have stale : Route.decode staleText = staleRoute := by decide +kernel
  have young : Route.decode youngText = youngRoute := by decide +kernel
  rw [Surroundings.route?, Option.map_eq_some_iff]
  constructor
  · rintro ⟨text, found, rfl⟩
    obtain ⟨entry, member, -, rfl⟩ := (Surroundings.value?_eq_some_iff unique_aging).1 found
    simp only [aging, World.start, Cache.entries, List.mem_cons, Prod.mk.injEq,
      List.not_mem_nil, or_false] at member
    obtain ⟨isRecord, -⟩ | ⟨same, rfl⟩ | ⟨same, rfl⟩ := member
    · exact absurd isRecord (Routes.key_ne_recordKey _ _ _)
    · exact .inl ⟨Routes.key_inj same, stale⟩
    · exact .inr ⟨Routes.key_inj same, young⟩
  · rintro (⟨rfl, rfl⟩ | ⟨rfl, rfl⟩)
    · exact ⟨staleText, shows_of_mem unique_aging (.tail _ (.head _)), stale⟩
    · exact ⟨youngText, shows_of_mem unique_aging (.tail _ (.tail _ (.head _))), young⟩

end Sample

theorem Sample.aging_swept :
    let last := (barren.run punctual aging).2
    (barren.steps punctual aging).filterMap Step.lookedUp? = [first.hash] ∧
      (∀ moment, last.cache.get moment (Routes.key first.hash) = none) ∧
      last.cache.get 0 (Routes.key third.hash) = some youngText := by
  intro last
  obtain ⟨due, trials, touches, -⟩ := barren.sweep_exact .forever tenMinutes
    ⟨1609459800, 0⟩ aging (fun _ _ => rfl) unique_aging aging_free
    (punctual_steady timeless_aging)
  have old : tenMinutes.threshold ≤ Instant.since ⟨1609459800, 0⟩ staleRoute.submittedAt := by
    decide
  have early : Instant.since ⟨1609459800, 0⟩ youngRoute.submittedAt < tenMinutes.threshold := by
    decide
  have isDue : ∀ pair, pair ∈ due ↔ pair = (first.hash, staleRoute) := by
    rintro ⟨hash, route⟩
    rw [touches.due_iff, route?_aging]
    constructor
    · rintro ⟨⟨rfl, rfl⟩ | ⟨rfl, rfl⟩, old⟩
      · rfl
      · exact absurd old (Int.not_le.2 early)
    · rintro same
      cases same
      exact ⟨.inl ⟨rfl, rfl⟩, old⟩
  have isSingle : due = [(first.hash, staleRoute)] := by
    have nodup : due.Nodup := touches.ordered.imp fun order same => by
      rw [same] at order
      exact List.lt_irrefl _ order
    apply List.perm_singleton.1
    apply (List.perm_ext_iff_of_nodup nodup (List.pairwise_singleton _ _)).2
    exact fun pair => (isDue pair).trans List.mem_singleton.symm
  have still (step : Step) : barren.millis step.world = 0 := by
    rw [Surroundings.millis, show barren.now step.world.moment = ⟨0, 0⟩ from rfl]
    rfl
  have untaken (hash : String) : ¬barren.Takes (barren.steps punctual aging) hash := by
    rintro ⟨step, -, origin, payload, -, taken⟩
    cases taken
  refine ⟨?_, ?_, ?_⟩
  · have lookups : (barren.steps punctual aging).filterMap Step.lookedUp? = _ :=
      touches.lookups
    rw [lookups, isSingle]
    rfl
  · refine touches.removed first.hash staleRoute (route?_aging.2 (.inl ⟨rfl, rfl⟩))
      (untaken _) ?_
    rintro (early | ⟨_, -, answer⟩ | ⟨⟨_, -, answer⟩, -⟩)
    · exact Int.not_le.2 early old
    · cases answer
    · cases answer
  · have kept : last.cache.get 0 (Routes.key third.hash) = _ :=
      touches.left third.hash youngRoute (route?_aging.2 (.inr ⟨rfl, rfl⟩)) (untaken _)
        (.young early) 0 fun step _ => Int.le_of_eq (still step)
    rw [kept]
    exact Cache.get_of_mem unique_aging (.tail _ (.tail _ (.head _))) rfl

namespace Sample

/-- A batch with another identifier than the key under which it is stored.  The network
does not know its first transaction, and its second one is dropped. -/
def misfiled : Batch :=
  ⟨"b", [⟨[.waiting first, ⟨third, .dropped, none⟩]⟩], .pending, none⟩

/-- A batch on its way, none of whose transactions has a route. -/
def unrouted : Batch :=
  .ofGroups "b" [[early, refused]]

/-- The stored text of a route to the key of the misfiled batch. -/
def strayText : String :=
  "a;erd1qyu5wthldzr8wx5c9ucg8kjagg0jfs53s8nr3zpz3hypefsdd8ssycr6th"

def strayRoute : Route :=
  ⟨"a", alice, Route.unknownInstant⟩

def astray : World :=
  .start (.memory ⟨[
    (Records.key alice "a", ⟨misfiled.render, none⟩),
    (Records.key alice "b", ⟨unrouted.render, none⟩),
    (Routes.key first.hash, ⟨strayText, none⟩)]⟩)

theorem unique_astray : astray.cache.entries.Unique := by
  have keys : astray.cache.entries.map Prod.fst =
      [Records.key alice "a", Records.key alice "b", Routes.key first.hash] := rfl
  rw [Entries.Unique, keys]
  decide

theorem timeless_astray : astray.Timeless := by
  intro key entry member _
  simp only [astray, World.start, Cache.entries, List.mem_cons, Prod.mk.injEq,
    List.not_mem_nil, or_false] at member
  obtain ⟨-, rfl⟩ | ⟨-, rfl⟩ | ⟨-, rfl⟩ := member <;> rfl

theorem astray_free : barren.value? astray.pass tenMinutes.lease.key = none := by
  decide +kernel

theorem route?_astray (hash : String) (route : Route) :
    barren.route? astray hash = some route ↔ hash = first.hash ∧ route = strayRoute := by
  have stray : Route.decode strayText = strayRoute := by decide +kernel
  rw [Surroundings.route?, Option.map_eq_some_iff]
  constructor
  · rintro ⟨text, found, rfl⟩
    obtain ⟨entry, member, -, rfl⟩ := (Surroundings.value?_eq_some_iff unique_astray).1 found
    simp only [astray, World.start, Cache.entries, List.mem_cons, Prod.mk.injEq,
      List.not_mem_nil, or_false] at member
    obtain ⟨isRecord, -⟩ | ⟨isRecord, -⟩ | ⟨same, rfl⟩ := member
    · exact absurd isRecord (Routes.key_ne_recordKey _ _ _)
    · exact absurd isRecord (Routes.key_ne_recordKey _ _ _)
    · exact ⟨Routes.key_inj same, stray⟩
  · rintro ⟨rfl, rfl⟩
    exact ⟨strayText, shows_of_mem unique_astray (.tail _ (.tail _ (.head _))), stray⟩

theorem stored?_astray {batch : Batch} {id : String}
    (member : (Records.key alice id, ⟨batch.render, none⟩) ∈ astray.cache.entries) :
    barren.stored? astray alice id = some batch := by
  rw [Surroundings.stored?, shows_of_mem unique_astray member, Option.bind_some,
    Batch.parse_render]
  rfl

/-- What the sweep stores of the misfiled batch. -/
def misfiledSwept : Batch :=
  { misfiled.setItemStatus ⟨0, 0⟩ .dropped with status := .dropped }

theorem value?_misfiled {before : World} (unique : before.cache.entries.Unique)
    (stored : barren.stored? before alice "a" = some misfiled) :
    barren.value? (barren.run (reconcile .forever first.hash "a" alice .dropped) before).2
      (Records.key alice "b") = some misfiledSwept.render := by
  have located : misfiled.locate first.hash = some ⟨0, 0⟩ := rfl
  have found : misfiled.item? ⟨0, 0⟩ = some (.waiting first) := rfl
  have drops : (barren.run (reconcile .forever first.hash "a" alice .dropped) before).2 =
      _ := Surroundings.run_reconcile rfl stored located found rfl
  rw [drops]
  exact Surroundings.get_record_of_written (fun _ _ => rfl)
    (Surroundings.unique_after unique) nofun (List.Subset.refl _)

theorem stored?_astray_swept :
    barren.stored? (barren.run punctual astray).2 alice "b" = some misfiledSwept := by
  obtain ⟨before, unique, shows⟩ := Surroundings.runAt_single (fun _ _ => rfl) .forever
    tenMinutes ⟨1609459800, 0⟩ unique_astray astray_free
    (punctual_steady timeless_astray) route?_astray (by decide) fun _ => rfl
  have stored : barren.stored? before alice "a" = some misfiled := by
    have same : barren.stored? before alice "a" = barren.stored? astray alice "a" := by
      rw [Surroundings.stored?, (shows _ (isTracked_recordKey _ _)).1, ← Surroundings.stored?]
    exact same.trans (stored?_astray (.head _))
  have shown : barren.value? (barren.run punctual astray).2 (Records.key alice "b") =
      some misfiledSwept.render :=
    (shows _ (isTracked_recordKey _ _)).2.trans (value?_misfiled unique stored)
  rw [Surroundings.stored?, shown, Option.bind_some, Batch.parse_render]
  rfl

end Sample

/-- A record with another identifier than its key takes the place of a record whose items
no route leads to, and an item is dropped there that no route has located. -/
theorem Sample.unrouted_item_dropped :
    let last := (barren.run punctual astray).2
    (∀ moment access, barren.fault moment access = none) ∧
    barren.value? astray.pass tenMinutes.lease.key = none ∧
    barren.Steady (barren.worlds punctual astray) ∧
    (∀ hash route, barren.route? astray hash = some route → hash = first.hash) ∧
    ∃ before after, barren.stored? astray alice "b" = some before ∧
      (before.item? ⟨0, 1⟩).map Item.status = some .pending ∧
      before.locate first.hash = none ∧
      barren.stored? last alice "b" = some after ∧
      after.DroppedAt ⟨0, 1⟩ ∧ after.locate first.hash ≠ some ⟨0, 1⟩ :=
  ⟨fun _ _ => rfl, astray_free, punctual_steady timeless_astray,
    fun hash route shown => ((route?_astray hash route).1 shown).1,
    unrouted, _, stored?_astray (.tail _ (.head _)), rfl, rfl, stored?_astray_swept, rfl,
    by decide⟩

end BatchRelay
