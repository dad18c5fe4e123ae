import BatchRelay.Proofs.Engine.Runs

/-!
# What a step leaves as it was

A step that does not concern a batch narrows what the world shows of it: a
record or a route that is found later was found earlier.  In calm surroundings,
where nothing fails and nothing runs out, it shows exactly the same.
-/

namespace BatchRelay

/-- Whether a route leads to the record of a batch. -/
def Route.LeadsTo (route : Route) (address id : String) : Prop :=
  Records.key route.address route.batchId = Records.key address id

theorem Route.leadsTo_decode_encode {route : Route} (clean : route.Clean)
    {address id : String} :
    (decode route.encode).LeadsTo address id ↔ route.LeadsTo address id := by
  rw [LeadsTo, LeadsTo, clean.decode_encode.1, clean.decode_encode.2]

/-- A request that writes neither the record of a batch nor a route to it. -/
def Request.Spares (request : Request) (address id : String) : Prop :=
  ∀ key value, request.written? = some (key, value) →
    key ≠ Records.key address id ∧
      (Routes.isKey key = true → ¬(Route.decode value).LeadsTo address id)

theorem Request.spares_of_isAside {request : Request} (address id : String)
    (isAside : request.isAside = true) : request.Spares address id := by
  intro key value written
  have untracked (tracked : isTracked key = true) : False :=
    touched?_of_isAside isAside tracked (touched?_of_written? written)
  exact ⟨fun same => untracked (same ▸ isTracked_recordKey _ _),
    fun isRoute => (untracked (by simp [isTracked, isRoute])).elim⟩

theorem Request.spares_of_unwritten {request : Request} {address id : String}
    (unwritten : request.written? = none) : request.Spares address id := by
  intro key value written
  rw [unwritten] at written
  cases written

theorem Request.Sends.spares {request : Request} {lifetimes : Lifetimes}
    {address id : String} {owner ownerId : String} {group : Nat}
    (sends : request.Sends lifetimes owner ownerId group)
    (clean : Address.Clean owner) (named : ';' ∉ ownerId.toList)
    (isOther : Records.key owner ownerId ≠ Records.key address id) :
    request.Spares address id := by
  intro key value written
  cases sends with
  | @write hash submittedAt =>
      cases written
      have elsewhere : ¬(Route.mk ownerId owner submittedAt).LeadsTo address id :=
        isOther
      refine ⟨(Records.key_ne_routeKey _ _ _).symm, fun _ => ?_⟩
      rwa [Route.leadsTo_decode_encode ⟨clean, named⟩]
  | _ => cases written

namespace Surroundings

variable {surroundings : Surroundings} {lifetimes : Lifetimes}
  {routes : List (String × Route)} {address id hash : String}
  {world middle last : World} {step : Step} {steps : List Step}

theorem stored?_congr {otherAddress otherId : String}
    (same : Records.key address id = Records.key otherAddress otherId) :
    surroundings.stored? world address id =
      surroundings.stored? world otherAddress otherId := by
  rw [stored?, stored?, same]

/-! ## Narrowing -/

/-- What a later world shows of a batch was shown by an earlier one. -/
structure Narrows (surroundings : Surroundings) (address id : String)
    (earlier later : World) : Prop where
  record : ∀ batch, surroundings.stored? later address id = some batch →
    surroundings.stored? earlier address id = some batch
  route : ∀ hash route, route.LeadsTo address id →
    surroundings.route? later hash = some route →
    surroundings.route? earlier hash = some route

theorem Narrows.refl (world : World) : surroundings.Narrows address id world world :=
  ⟨fun _ found => found, fun _ _ _ found => found⟩

theorem Narrows.trans (first : surroundings.Narrows address id world middle)
    (second : surroundings.Narrows address id middle last) :
    surroundings.Narrows address id world last :=
  ⟨fun batch found => first.record batch (second.record batch found),
    fun hash route leads found =>
      first.route hash route leads (second.route hash route leads found)⟩

/-- A step that does not write the record of a batch shows none that was not
shown before. -/
theorem stored?_of_after (sound : step.world.Sound routes)
    (settled : surroundings.Settled step)
    (unwritten : ∀ value,
      step.request.written? ≠ some (Records.key address id, value))
    {batch : Batch}
    (found : surroundings.stored? (surroundings.after step) address id =
      some batch) :
    surroundings.stored? step.world address id = some batch := by
  obtain ⟨text, read, parsed⟩ := Option.bind_eq_some_iff.1 found
  have before := (value?_after_cases sound.unique (isTracked_recordKey _ _)
    settled read).resolve_right (unwritten text)
  exact Option.bind_eq_some_iff.2 ⟨text, before, parsed⟩

theorem route?_after_cases (sound : step.world.Sound routes)
    (settled : surroundings.Settled step) {route : Route}
    (found : surroundings.route? (surroundings.after step) hash = some route) :
    surroundings.route? step.world hash = some route ∨
      ∃ text, step.request.written? = some (Routes.key hash, text) ∧
        Route.decode text = route := by
  obtain ⟨text, read, decoded⟩ := Option.map_eq_some_iff.1 found
  obtain before | written := value?_after_cases sound.unique
    (isTracked_routeKey hash) settled read
  · exact .inl (Option.map_eq_some_iff.2 ⟨text, before, decoded⟩)
  · exact .inr ⟨text, written, decoded⟩

theorem narrows_after (sound : step.world.Sound routes)
    (settled : surroundings.Settled step)
    (spares : step.request.Spares address id) :
    surroundings.Narrows address id step.world (surroundings.after step) where
  record batch found :=
    stored?_of_after sound settled
      (fun value written => (spares _ value written).1 rfl) found
  route hash route leads found := by
    obtain before | ⟨text, written, rfl⟩ := route?_after_cases sound settled found
    · exact before
    · exact absurd leads ((spares _ text written).2 (by simp))

/-- Steps that spare a batch show ever less of it. -/
theorem Linked.narrows (links : surroundings.Linked world steps last)
    (sound : world.Sound routes)
    (writes : ∀ step ∈ steps, step.request.WritesGenuine)
    (settled : ∀ step ∈ steps, surroundings.Settled step)
    (spares : ∀ step ∈ steps, step.request.Spares address id) :
    (∀ step ∈ steps, surroundings.Narrows address id world step.world) ∧
      surroundings.Narrows address id world last := by
  let holds (later : World) : Prop :=
    later.Sound routes ∧ surroundings.Narrows address id world later
  have start : holds world := ⟨sound, .refl world⟩
  have kept (step : Step) (member : step ∈ steps) (before : holds step.world) :
      holds (surroundings.after step) :=
    ⟨before.1.step (writes step member), before.2.trans
      (narrows_after before.1 (settled step member) (spares step member))⟩
  exact ⟨fun step member => (links.keeps_at holds start kept step member).2,
    (links.keeps holds start kept).2⟩

theorem Linked.stored?_of_sends {owner ownerId : String} {group : Nat}
    (links : surroundings.Linked world steps last) (sound : world.Sound routes)
    (writes : ∀ step ∈ steps, step.request.WritesGenuine)
    (settled : ∀ step ∈ steps, surroundings.Settled step)
    (sends : ∀ step ∈ steps, step.request.Sends lifetimes owner ownerId group)
    {batch : Batch} :
    (∀ step ∈ steps, surroundings.stored? step.world address id = some batch →
        surroundings.stored? world address id = some batch) ∧
      (surroundings.stored? last address id = some batch →
        surroundings.stored? world address id = some batch) := by
  let holds (later : World) : Prop :=
    later.Sound routes ∧ (surroundings.stored? later address id = some batch →
      surroundings.stored? world address id = some batch)
  have start : holds world := ⟨sound, fun found => found⟩
  have kept (step : Step) (member : step ∈ steps) (before : holds step.world) :
      holds (surroundings.after step) :=
    ⟨before.1.step (writes step member), fun found => before.2
      (stored?_of_after before.1 (settled step member)
        ((sends step member).unwritten _ _) found)⟩
  exact ⟨fun step member => (links.keeps_at holds start kept step member).2,
    (links.keeps holds start kept).2⟩

/-- A route that is found after a group was sent was there before, or it has
the hash of one of the items sent. -/
theorem Sent.route?_cases {route found : Route} {position : Position}
    {items items' : List Item}
    (sent : surroundings.Sent lifetimes route position items world items' steps
      last)
    (sound : world.Sound routes) (clean : route.Clean)
    (settled : ∀ step ∈ steps, surroundings.Settled step)
    (read : surroundings.route? last hash = some found) :
    surroundings.route? world hash = some found ∨
      ∃ item ∈ items', item.hash = hash := by
  induction sent with
  | none => exact .inl read
  | @taken position item items items' world last steps taken answer rest
      induction =>
      obtain ⟨first, second, others⟩ :
          surroundings.Settled (.send world route position item.payload) ∧
          surroundings.Settled (.writeRoute lifetimes (surroundings.after
            (.send world route position item.payload)) taken route) ∧
          ∀ step ∈ steps, surroundings.Settled step := by
        simpa only [List.forall_mem_cons] using settled
      have soundSent : (surroundings.after
          (.send world route position item.payload)).Sound routes :=
        sound.step (.ofUnwritten rfl)
      have soundWritten : (surroundings.after (.writeRoute lifetimes
          (surroundings.after (.send world route position item.payload)) taken
          route)).Sound routes :=
        soundSent.step (.ofRoute clean _ _)
      obtain before | ⟨other, member, same⟩ := induction soundWritten others read
      case inr => exact .inr ⟨other, List.mem_cons_of_mem _ member, same⟩
      obtain before | ⟨text, written, -⟩ :=
        route?_after_cases soundSent second before
      · obtain before | ⟨_, written, -⟩ := route?_after_cases sound first before
        · exact .inl before
        · cases written
      · have same := congrArg Prod.fst (Option.some.inj written)
        exact .inr ⟨item.adopt taken, List.mem_cons_self, Routes.key_inj same⟩
  | @refused position item items world error answer =>
      obtain before | ⟨_, written, -⟩ :=
        route?_after_cases sound (settled _ List.mem_cons_self) read
      · exact .inl before
      · cases written

theorem Started.route?_cases {owner : String} {batch batch' : Batch}
    {index : Nat} {found : Route}
    (started : surroundings.Started lifetimes batch owner index world batch' steps
      last)
    (sound : world.Sound routes) (proper : batch.Proper owner)
    (settled : ∀ step ∈ steps, surroundings.Settled step)
    (read : surroundings.route? last hash = some found) :
    surroundings.route? world hash = some found ∨
      ∃ place item, batch'.item? ⟨index, place⟩ = some item ∧
        item.hash = hash := by
  cases started with
  | @sent group items steps last present sent =>
      obtain ⟨first, others⟩ := List.forall_mem_cons.1 settled
      have soundSent : (surroundings.after (.clock world)).Sound routes :=
        sound.step (.ofUnwritten rfl)
      obtain before | ⟨item, member, same⟩ :=
        sent.route?_cases soundSent (proper.route _) others read
      · obtain before | ⟨_, written, -⟩ := route?_after_cases sound first before
        · exact .inl before
        · cases written
      · obtain ⟨place, found⟩ := List.getElem?_of_mem member
        exact .inr ⟨place, item,
          (Batch.item?_modifyGroup_self _ present place).trans found, same⟩

/-- A route that is found after an outcome was followed was there before, or it
has the hash of an item of the next group. -/
theorem Followed.route?_cases {owner : String} {batch batch' : Batch}
    {index : Nat} {outcome : ItemStatus} {found : Route}
    (followed : surroundings.Followed lifetimes owner batch index outcome world
      batch' steps last)
    (sound : world.Sound routes) (proper : batch.Proper owner)
    (settled : ∀ step ∈ steps, surroundings.Settled step)
    (read : surroundings.route? last hash = some found) :
    surroundings.route? world hash = some found ∨
      steps ≠ [] ∧ ∃ place item,
        batch'.item? ⟨index + 1, place⟩ = some item ∧ item.hash = hash := by
  cases followed with
  | continued _ _ _ next =>
      exact (next.route?_cases sound proper settled read).imp_right
        fun sent => ⟨next.ne_nil, sent⟩
  | @stopped started steps last event _ _ _ next =>
      obtain ⟨front, back⟩ := List.forall_mem_append.1 settled
      have soundLast : last.Sound routes := sound.linked next.linked
        fun step member =>
          (next.sends step member).writesGenuine proper.clean proper.id
      obtain before | ⟨_, written, -⟩ :=
        route?_after_cases soundLast (back _ List.mem_cons_self) read
      · exact (next.route?_cases sound proper front before).imp_right
          fun sent => ⟨List.append_ne_nil_of_left_ne_nil next.ne_nil _, sent⟩
      · cases written
  | _ => exact .inl read

/-- After a batch was written, its record shows that batch, or the write failed
and it shows what it showed before. -/
theorem stored?_after_writeRecord {owner : String} {batch found : Batch}
    (sound : world.Sound routes)
    (settled : surroundings.Settled (.writeRecord lifetimes world owner batch))
    (same : Records.key owner batch.id = Records.key address id)
    (stored : surroundings.stored?
      (surroundings.after (.writeRecord lifetimes world owner batch)) address id =
        some found) :
    found = batch ∨
      surroundings.fault world.moment (.write (Records.key owner batch.id)) ≠
        none ∧
      surroundings.stored? world address id = some found := by
  obtain ⟨text, read, parsed⟩ := Option.bind_eq_some_iff.1 stored
  rw [← same] at read
  cases fault : surroundings.fault world.moment
      (.write (Records.key owner batch.id)) with
  | none =>
      have written := value?_of_after_write sound.unique fault read
      rw [written, Batch.parse_render] at parsed
      cases parsed
      exact .inl rfl
  | some error =>
      have before := value?_of_failed_write sound.unique (isTracked_recordKey _ _)
        settled fault read
      rw [same] at before
      exact .inr ⟨nofun, Option.bind_eq_some_iff.2 ⟨text, before, parsed⟩⟩

theorem route?_of_after_writeRecord {owner : String} {batch : Batch}
    {found : Route} (sound : world.Sound routes)
    (settled : surroundings.Settled (.writeRecord lifetimes world owner batch))
    (read : surroundings.route?
      (surroundings.after (.writeRecord lifetimes world owner batch)) hash =
        some found) :
    surroundings.route? world hash = some found := by
  obtain before | ⟨_, written, -⟩ := route?_after_cases sound settled read
  · exact before
  · exact absurd (congrArg Prod.fst (Option.some.inj written))
      (Records.key_ne_routeKey _ _ _)

theorem writeRecord_spares {owner : String} {batch : Batch}
    (isOther : Records.key owner batch.id ≠ Records.key address id) :
    (Step.writeRecord lifetimes world owner batch).request.Spares address id := by
  intro key value written
  cases written
  exact ⟨isOther, fun isRoute => by simp at isRoute⟩

theorem Reconciling.spares {batchId owner : String} {outcome : ItemStatus}
    (reconciling : surroundings.Reconciling lifetimes hash batchId owner outcome
      world steps last)
    (sound : world.Sound routes) (clean : Address.Clean owner)
    (isOther : Records.key owner batchId ≠ Records.key address id) :
    ∀ step ∈ steps, step.request.Spares address id := by
  cases reconciling with
  | skipped =>
      simp only [List.forall_mem_cons, List.not_mem_nil, false_implies,
        implies_true, and_true]
      exact ⟨Request.spares_of_unwritten rfl, Request.spares_of_unwritten rfl⟩
  | applied applied =>
      have proper := applied.proper sound clean
      simp only [List.forall_mem_cons, List.forall_mem_append, List.not_mem_nil,
        false_implies, implies_true, and_true]
      refine ⟨Request.spares_of_unwritten rfl, fun step member => ?_,
        writeRecord_spares ?_, Request.spares_of_unwritten rfl⟩
      · exact (applied.followed.sends step member).spares clean proper.id
          ((applied.named sound clean).symm ▸ isOther)
      · rw [applied.key sound clean]
        exact isOther

namespace Applied

variable {batchId owner : String} {outcome : ItemStatus}
  {batch batch' shown : Batch} {position : Position} {item : Item}
  (applied : surroundings.Applied lifetimes hash batchId owner outcome world
    batch batch' position item steps middle)
  (sound : world.Sound routes) (clean : Address.Clean owner)
  (first : surroundings.Settled (.readRecord world owner batchId))
  (settled : ∀ step ∈ steps, surroundings.Settled step)

include applied sound clean first settled

/-- Until the updated record is written every record shows what it showed. -/
theorem stored?_of_middle :
    (∀ step ∈ steps,
        surroundings.stored? step.world address id = some shown →
        surroundings.stored? world address id = some shown) ∧
      (surroundings.stored? middle address id = some shown →
        surroundings.stored? world address id = some shown) := by
  have atRead (found : surroundings.stored?
      (surroundings.after (.readRecord world owner batchId)) address id =
        some shown) : surroundings.stored? world address id = some shown :=
    stored?_of_after sound first nofun found
  obtain ⟨between, ending⟩ := applied.followed.linked.stored?_of_sends
    sound.readRecord (applied.genuine sound clean) settled
    applied.followed.sends
  exact ⟨fun step member found => atRead (between step member found),
    fun found => atRead (ending found)⟩

theorem route?_of_middle {other : String} {found : Route}
    (read : surroundings.route? middle other = some found) :
    surroundings.route? world other = some found ∨
      steps ≠ [] ∧ ∃ place item,
        batch'.item? ⟨position.group + 1, place⟩ = some item ∧
          item.hash = other := by
  refine (applied.followed.route?_cases sound.readRecord
    (applied.updated sound clean) settled read).imp_left fun found => ?_
  obtain before | ⟨_, written, -⟩ := route?_after_cases sound first found
  · exact before
  · cases written

end Applied

theorem Offered.stored?_of_last {request : BatchRequest} {owner : String}
    {batch batch' shown : Batch}
    (offered : surroundings.Offered lifetimes request world owner batch batch'
      steps last)
    (sound : world.Sound routes)
    (first : surroundings.Settled (.readRecord world owner request.id))
    (settled : ∀ step ∈ steps, surroundings.Settled step) :
    (∀ step ∈ steps,
        surroundings.stored? step.world address id = some shown →
        surroundings.stored? world address id = some shown) ∧
      (surroundings.stored? last address id = some shown →
        surroundings.stored? world address id = some shown) := by
  have atRead (found : surroundings.stored?
      (surroundings.after (.readRecord world owner request.id)) address id =
        some shown) : surroundings.stored? world address id = some shown :=
    stored?_of_after sound first nofun found
  obtain ⟨between, ending⟩ := offered.sent.linked.stored?_of_sends
    sound.readRecord offered.genuine settled offered.sent.sends
  exact ⟨fun step member found => atRead (between step member found),
    fun found => atRead (ending found)⟩

theorem Offered.stored?_eq_none {request : BatchRequest} {owner : String}
    {batch batch' : Batch}
    (offered : surroundings.Offered lifetimes request world owner batch batch'
      steps last)
    (same : Records.key owner request.id = Records.key address id) :
    surroundings.stored? world address id = none := by
  rw [← stored?_congr same, stored?, offered.absent, Option.bind_none]

/-- Up to the write of a new batch nothing shows it. -/
theorem Offered.absent_before_write {request : BatchRequest} {owner : String}
    {batch batch' : Batch}
    (offered : surroundings.Offered lifetimes request world owner batch batch'
      steps last)
    (sound : world.Sound routes)
    (same : Records.key owner request.id = Records.key address id)
    (settled : ∀ step ∈ .readRecord world owner request.id :: steps,
      surroundings.Settled step) :
    (∀ step ∈ .readRecord world owner request.id :: steps,
        surroundings.stored? step.world address id = none) ∧
      surroundings.stored? last address id = none := by
  obtain ⟨first, sending⟩ := List.forall_mem_cons.1 settled
  have absent := offered.stored?_eq_none same
  rw [List.forall_mem_cons]
  refine ⟨⟨absent, fun step member => ?_⟩, ?_⟩
  · apply Option.eq_none_iff_forall_ne_some.2
    intro shown found
    have back := (offered.stored?_of_last sound first sending).1 step member found
    cases absent.symm.trans back
  · apply Option.eq_none_iff_forall_ne_some.2
    intro shown found
    have back := (offered.stored?_of_last sound first sending).2 found
    cases absent.symm.trans back

theorem Offered.spares {request : BatchRequest} {owner : String}
    {batch batch' : Batch}
    (offered : surroundings.Offered lifetimes request world owner batch batch'
      steps last)
    (isOther : Records.key owner request.id ≠ Records.key address id) :
    (∀ step ∈ steps, step.request.Spares address id) ∧
      (Step.writeRecord lifetimes last owner batch').request.Spares address id := by
  constructor
  · intro step member
    refine (offered.sent.sends step member).spares offered.proper.clean
      offered.proper.id ?_
    rw [offered.admits.id]
    exact isOther
  · refine writeRecord_spares ?_
    rw [offered.key]
    exact isOther

end Surroundings

end BatchRelay
