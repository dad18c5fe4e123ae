import BatchRelay.Proofs.Engine.Frames

/-!
# Calm surroundings

In calm surroundings no access to the cache fails and no record and no route
runs out of time.  Then a step shows exactly what was shown before, except where
it writes or deletes, and what was sent is in the journal for good.
-/

namespace BatchRelay

/-- Whether the journal holds a sending for a group of a batch. -/
def World.SentFor (world : World) (address id : String) (group : Nat) : Prop :=
  ∃ place payload answer,
    .sent ⟨address, id, ⟨group, place⟩⟩ payload answer ∈ world.journal

/-- A request that neither touches the record of a batch nor sends for it. -/
structure Request.Leaves (request : Request) (address id : String) : Prop where
  untouched : request.touched? ≠ some (Records.key address id)
  unsent : ∀ origin payload, request = .send origin payload →
    Records.key origin.address origin.batchId ≠ Records.key address id

theorem Request.leaves_of_isAside {request : Request} (address id : String)
    (isAside : request.isAside = true) : request.Leaves address id where
  untouched := touched?_of_isAside isAside (isTracked_recordKey _ _)
  unsent _ _ same := by
    subst same
    cases isAside

theorem Request.Sends.leaves {request : Request} {lifetimes : Lifetimes}
    {address id : String}
    {owner ownerId : String} {group : Nat}
    (sends : request.Sends lifetimes owner ownerId group)
    (isOther : Records.key owner ownerId ≠ Records.key address id) :
    request.Leaves address id where
  untouched := sends.untouched address id
  unsent _ _ same := by
    obtain ⟨sender, named, -⟩ := sends.origin same
    rw [sender, named]
    exact isOther

namespace Surroundings

variable {surroundings : Surroundings} {lifetimes : Lifetimes}
  {routes : List (String × Route)} {address id hash key : String}
  {world middle last : World} {step : Step} {steps : List Step}

/-- A step at which nothing fails and before and after which nothing has run out
of time. -/
structure Calm (surroundings : Surroundings) (step : Step) : Prop where
  works : ∀ access, surroundings.fault step.world.moment access = none
  lasting : surroundings.Lasting step.world
  lastingAfter : surroundings.Lasting (surroundings.after step)

theorem value?_after_untouched (calm : surroundings.Calm step)
    (sound : step.world.Sound routes) (tracked : isTracked key = true)
    (untouched : step.request.touched? ≠ some key) :
    surroundings.value? (surroundings.after step) key =
      surroundings.value? step.world key := by
  apply Option.ext
  intro value
  constructor
  · intro found
    exact (value?_after_cases sound.unique tracked calm.lasting.settled found
      ).resolve_right fun written =>
        untouched (Request.touched?_of_written? written)
  · exact value?_after sound.unique tracked calm.lastingAfter untouched

theorem stored?_after_untouched (calm : surroundings.Calm step)
    (sound : step.world.Sound routes)
    (untouched : step.request.touched? ≠ some (Records.key address id)) :
    surroundings.stored? (surroundings.after step) address id =
      surroundings.stored? step.world address id := by
  rw [stored?, value?_after_untouched calm sound (isTracked_recordKey _ _)
    untouched, stored?]

theorem stored?_readRecord {owner ownerId : String}
    (calm : surroundings.Calm (.readRecord world owner ownerId))
    (sound : world.Sound routes) :
    surroundings.stored? (surroundings.after (.readRecord world owner ownerId))
        address id = surroundings.stored? world address id :=
  stored?_after_untouched calm sound nofun

theorem stored?_removeRoute
    (calm : surroundings.Calm (.removeRoute world hash))
    (sound : world.Sound routes) :
    surroundings.stored? (surroundings.after (.removeRoute world hash)) address
        id = surroundings.stored? world address id := by
  refine stored?_after_untouched calm sound fun same => ?_
  exact Records.key_ne_routeKey _ _ _ (Option.some.inj same).symm

theorem route?_after_untouched (calm : surroundings.Calm step)
    (sound : step.world.Sound routes)
    (untouched : step.request.touched? ≠ some (Routes.key hash)) :
    surroundings.route? (surroundings.after step) hash =
      surroundings.route? step.world hash := by
  rw [route?, value?_after_untouched calm sound (isTracked_routeKey _) untouched,
    route?]

theorem stored?_after_lasting_write {owner : String} {batch : Batch}
    (sound : world.Sound routes)
    (works : surroundings.fault world.moment
      (.write (Records.key owner batch.id)) = none)
    (lasting : surroundings.Lasting
      (surroundings.written lifetimes world owner batch))
    (same : Records.key owner batch.id = Records.key address id) :
    surroundings.stored? (surroundings.written lifetimes world owner batch) address
      id = some batch := by
  have read := value?_after_write sound.unique (isTracked_recordKey owner batch.id)
    works lasting
  rw [stored?, ← same, written, Step.writeRecord, read, Option.bind_some,
    Batch.parse_render]
  rfl

theorem stored?_after_calm_write {owner : String} {batch : Batch}
    (calm : surroundings.Calm (.writeRecord lifetimes world owner batch))
    (sound : world.Sound routes)
    (same : Records.key owner batch.id = Records.key address id) :
    surroundings.stored? (surroundings.written lifetimes world owner batch) address
      id = some batch :=
  stored?_after_lasting_write sound (calm.works _) calm.lastingAfter same

theorem route?_after_calm_write {route : Route}
    (calm : surroundings.Calm (.writeRoute lifetimes world hash route))
    (sound : world.Sound routes) :
    surroundings.route?
        (surroundings.after (.writeRoute lifetimes world hash route)) hash =
      some (Route.decode route.encode) := by
  have read := value?_after_write sound.unique (isTracked_routeKey hash)
    (calm.works _) calm.lastingAfter
  rw [route?, Step.writeRoute, read, Option.map_some]

theorem route?_after_calm_remove
    (calm : surroundings.Calm (.removeRoute world hash)) :
    surroundings.route? (surroundings.after (.removeRoute world hash)) hash =
      none := by
  have works : surroundings.fault world.moment (.delete (Routes.key hash)) =
      none := calm.works _
  rw [route?, Step.removeRoute, value?_after_delete works, Option.map_none]

/-! ## The journal -/

theorem access_journal {α : Type} {access : Access}
    {perform : Cache → α × Cache} :
    (surroundings.access world access perform).2.journal = world.journal := by
  unfold Surroundings.access
  split <;> rfl

/-- What a step adds to the journal. -/
def happened (surroundings : Surroundings) (step : Step) : List Happening :=
  match step.request with
  | .send origin payload =>
      [.sent origin payload (surroundings.send step.world.moment payload)]
  | .latestNonce shard => [.askedLatest shard]
  | .block shard nonce => [.askedBlock shard nonce]
  | .lookup hash => [.lookedUp hash]
  | .publish event => [.published event]
  | _ => []

theorem journal_after :
    (surroundings.after step).journal =
      surroundings.happened step ++ step.world.journal := by
  obtain ⟨world, request⟩ := step
  cases request with
  | readMany keys =>
      simp only [after, answer]
      split <;> rfl
  | read | write | writeIfAbsent | delete | deleteIfEquals | scan =>
      exact access_journal
  | _ => rfl

theorem sent_mem_journal_after {origin : Origin} {payload : Transaction}
    {reply : Except GatewayError String} :
    .sent origin payload reply ∈ (surroundings.after step).journal ↔
      .sent origin payload reply ∈ step.world.journal ∨
        step.request = .send origin payload ∧
          surroundings.send step.world.moment payload = reply := by
  rw [journal_after, List.mem_append, or_comm]
  refine or_congr_right ?_
  obtain ⟨world, request⟩ := step
  cases request with
  | send other sent =>
      simp only [happened, List.mem_singleton, Happening.sent.injEq,
        Request.send.injEq]
      constructor
      · rintro ⟨rfl, rfl, rfl⟩
        exact ⟨⟨rfl, rfl⟩, rfl⟩
      · rintro ⟨⟨rfl, rfl⟩, rfl⟩
        exact ⟨rfl, rfl, rfl⟩
  | _ => simp [happened]

theorem sentFor_after {group : Nat}
    (unsent : ∀ place payload,
      step.request ≠ .send ⟨address, id, ⟨group, place⟩⟩ payload) :
    (surroundings.after step).SentFor address id group ↔
      step.world.SentFor address id group := by
  simp only [World.SentFor, sent_mem_journal_after, unsent, false_and, or_false]

theorem sentFor_readRecord {owner ownerId : String} {group : Nat} :
    (surroundings.after (.readRecord world owner ownerId)).SentFor address id
      group ↔ world.SentFor address id group :=
  sentFor_after nofun

theorem sentFor_writeRecord {owner : String} {batch : Batch} {group : Nat} :
    (surroundings.written lifetimes world owner batch).SentFor address id group ↔
      world.SentFor address id group :=
  sentFor_after nofun

/-! ## Many steps -/

section Many

variable (links : surroundings.Linked world steps last)

include links

theorem Linked.sent_mem_journal {origin : Origin} {payload : Transaction}
    {reply : Except GatewayError String} :
    .sent origin payload reply ∈ last.journal ↔
      .sent origin payload reply ∈ world.journal ∨
        ∃ step ∈ steps, step.request = .send origin payload ∧
          surroundings.send step.world.moment payload = reply := by
  induction links with
  | nil => simp
  | cons _ induction =>
      simp only [induction, sent_mem_journal_after, List.mem_cons,
        exists_eq_or_imp, or_assoc]

/-- The journal grows by what happens at each step. -/
theorem Linked.journal_eq :
    last.journal =
      steps.reverse.flatMap surroundings.happened ++ world.journal := by
  induction links with
  | nil => rfl
  | cons _ induction =>
      rw [induction, journal_after, List.reverse_cons, List.flatMap_append,
        List.flatMap_singleton, List.append_assoc]

theorem Linked.sentFor_mono {step : Step} (member : step ∈ steps) {group : Nat}
    (sent : step.world.SentFor address id group) :
    last.SentFor address id group := by
  obtain ⟨front, back, rfl⟩ := List.append_of_mem member
  obtain ⟨place, payload, reply, before⟩ := sent
  exact ⟨place, payload, reply, links.of_append.sent_mem_journal.2 (.inl before)⟩

theorem Linked.sentFor_iff {group : Nat}
    (unsent : ∀ step ∈ steps, ∀ place payload,
      step.request ≠ .send ⟨address, id, ⟨group, place⟩⟩ payload) :
    (∀ step ∈ steps, step.world.SentFor address id group ↔
        world.SentFor address id group) ∧
      (last.SentFor address id group ↔ world.SentFor address id group) := by
  obtain ⟨between, ending⟩ := links.constant (World.SentFor · address id group)
    fun step member => propext (sentFor_after (unsent step member))
  exact ⟨fun step member => by rw [between step member], by rw [ending]⟩

variable (sound : world.Sound routes)
  (writes : ∀ step ∈ steps, step.request.WritesGenuine)
  (calm : ∀ step ∈ steps, surroundings.Calm step)

include sound writes calm

theorem Linked.stored?_eq
    (untouched : ∀ step ∈ steps,
      step.request.touched? ≠ some (Records.key address id)) :
    (∀ step ∈ steps, surroundings.stored? step.world address id =
        surroundings.stored? world address id) ∧
      surroundings.stored? last address id =
        surroundings.stored? world address id :=
  links.constant (surroundings.stored? · address id) fun step member =>
    stored?_after_untouched (calm step member)
      (sound.linked_at links writes step member) (untouched step member)

end Many

theorem readRecord_leaves {owner ownerId : String} :
    (Step.readRecord world owner ownerId).request.Leaves address id where
  untouched := nofun
  unsent _ _ sends := by cases sends

theorem writeRecord_leaves {owner : String} {batch : Batch}
    (isOther : Records.key owner batch.id ≠ Records.key address id) :
    (Step.writeRecord lifetimes world owner batch).request.Leaves address id where
  untouched same := isOther (Option.some.inj same)
  unsent _ _ sends := by cases sends

theorem removeRoute_leaves :
    (Step.removeRoute world hash).request.Leaves address id where
  untouched same := Records.key_ne_routeKey _ _ _ (Option.some.inj same).symm
  unsent _ _ sends := by cases sends

/-- A stretch of calm steps that leaves a batch alone. -/
structure Bypasses (surroundings : Surroundings) (address id : String)
    (routes : List (String × Route)) (world : World) (steps : List Step)
    (last : World) : Prop where
  sound : world.Sound routes
  links : surroundings.Linked world steps last
  writes : ∀ step ∈ steps, step.request.WritesGenuine
  calm : ∀ step ∈ steps, surroundings.Calm step
  leaves : ∀ step ∈ steps, step.request.Leaves address id

namespace Bypasses

theorem single (sound : step.world.Sound routes)
    (writes : step.request.WritesGenuine) (calm : surroundings.Calm step)
    (leaves : step.request.Leaves address id) :
    surroundings.Bypasses address id routes step.world [step]
      (surroundings.after step) where
  sound := sound
  links := .single surroundings step
  writes := List.forall_mem_singleton.2 writes
  calm := List.forall_mem_singleton.2 calm
  leaves := List.forall_mem_singleton.2 leaves

theorem aside {request : Request} (sound : world.Sound routes)
    (calm : surroundings.Calm ⟨world, request⟩)
    (isAside : request.isAside = true) :
    surroundings.Bypasses address id routes world [⟨world, request⟩]
      (surroundings.after ⟨world, request⟩) :=
  .single sound (Request.writesGenuine_of_isAside isAside) calm
    (Request.leaves_of_isAside _ _ isAside)

theorem readRecord {owner ownerId : String} (sound : world.Sound routes)
    (calm : surroundings.Calm (.readRecord world owner ownerId)) :
    surroundings.Bypasses address id routes world
      [.readRecord world owner ownerId]
      (surroundings.after (.readRecord world owner ownerId)) :=
  .single sound (.ofUnwritten rfl) calm readRecord_leaves

theorem removeRoute (sound : world.Sound routes)
    (calm : surroundings.Calm (.removeRoute world hash)) :
    surroundings.Bypasses address id routes world [.removeRoute world hash]
      (surroundings.after (.removeRoute world hash)) :=
  .single sound (.ofUnwritten rfl) calm removeRoute_leaves

variable (bypasses : surroundings.Bypasses address id routes world steps last)

include bypasses

theorem unsent {position : Position} (member : step ∈ steps)
    (payload : Transaction) :
    step.request ≠ .send ⟨address, id, position⟩ payload := by
  intro sends
  exact (bypasses.leaves step member).unsent _ payload sends rfl

theorem stored?_eq : surroundings.stored? last address id =
    surroundings.stored? world address id :=
  (bypasses.links.stored?_eq bypasses.sound bypasses.writes bypasses.calm
    fun step member => (bypasses.leaves step member).untouched).2

theorem sentFor_iff (group : Nat) : last.SentFor address id group ↔
    world.SentFor address id group :=
  (bypasses.links.sentFor_iff fun _ member _ payload =>
    bypasses.unsent member payload).2

end Bypasses

/-- A run of `reconcile` leaves a batch alone, or applies an outcome to it. -/
theorem Reconciling.leaves_or_applied {batchId owner : String}
    {outcome : ItemStatus}
    (reconciling : surroundings.Reconciling lifetimes hash batchId owner outcome
      world steps last)
    (sound : world.Sound routes) (clean : Address.Clean owner)
    (address id : String) :
    (∀ step ∈ steps, step.request.Leaves address id) ∨
      Records.key owner batchId = Records.key address id ∧
      ∃ batch batch' position item sending middle,
        surroundings.Applied lifetimes hash batchId owner outcome world batch
          batch' position item sending middle ∧
        steps = .readRecord world owner batchId :: (sending ++
          [.writeRecord lifetimes middle owner batch',
            .removeRoute (surroundings.written lifetimes middle owner batch')
              hash]) ∧
        last = surroundings.after (.removeRoute
          (surroundings.written lifetimes middle owner batch') hash) := by
  cases reconciling with
  | skipped =>
      refine .inl ?_
      simp only [List.forall_mem_cons, List.not_mem_nil, false_implies,
        implies_true, and_true]
      exact ⟨readRecord_leaves, removeRoute_leaves⟩
  | @applied batch batch' position item sending middle applied =>
      by_cases same : Records.key owner batchId = Records.key address id
      case pos =>
        exact .inr ⟨same, batch, batch', position, item, sending, middle, applied,
          rfl, rfl⟩
      case neg =>
        refine .inl ?_
        simp only [List.forall_mem_cons, List.forall_mem_append,
          List.not_mem_nil, false_implies, implies_true, and_true]
        refine ⟨readRecord_leaves, fun step member => ?_, writeRecord_leaves ?_,
          removeRoute_leaves⟩
        · exact (applied.followed.sends step member).leaves
            ((applied.named sound clean).symm ▸ same)
        · rw [applied.key sound clean]
          exact same

theorem Applied.stored?_eq {batchId owner : String} {outcome : ItemStatus}
    {batch batch' : Batch} {position : Position} {item : Item}
    (applied : surroundings.Applied lifetimes hash batchId owner outcome world
      batch batch' position item steps middle)
    (sound : world.Sound routes) (clean : Address.Clean owner)
    (first : surroundings.Calm (.readRecord world owner batchId))
    (calm : ∀ step ∈ steps, surroundings.Calm step) (address id : String) :
    (∀ step ∈ steps, surroundings.stored? step.world address id =
        surroundings.stored? world address id) ∧
      surroundings.stored? middle address id =
        surroundings.stored? world address id := by
  rw [← stored?_readRecord first sound]
  exact applied.followed.linked.stored?_eq sound.readRecord
    (applied.genuine sound clean) calm
    fun step member => (applied.followed.sends step member).untouched _ _

theorem Offered.stored?_eq {request : BatchRequest} {owner : String}
    {batch batch' : Batch}
    (offered : surroundings.Offered lifetimes request world owner batch batch'
      steps last)
    (sound : world.Sound routes)
    (first : surroundings.Calm (.readRecord world owner request.id))
    (calm : ∀ step ∈ steps, surroundings.Calm step) (address id : String) :
    (∀ step ∈ steps, surroundings.stored? step.world address id =
        surroundings.stored? world address id) ∧
      surroundings.stored? last address id =
        surroundings.stored? world address id := by
  rw [← stored?_readRecord first sound]
  exact offered.sent.linked.stored?_eq sound.readRecord offered.genuine calm
    fun step member => (offered.sent.sends step member).untouched _ _

/-- A run of `submit` leaves a batch alone, or it is a new attempt at it. -/
theorem Submitting.leaves_or_offered {request : BatchRequest}
    (submitting : surroundings.Submitting lifetimes request world steps last)
    (address id : String) :
    (∀ step ∈ steps, step.request.Leaves address id) ∨
      ∃ owner batch batch' sending ending,
        Records.key owner request.id = Records.key address id ∧
        surroundings.Offered lifetimes request world owner batch batch' sending
          ending ∧
        (steps = .readRecord world owner request.id :: sending ∧
            last = ending ∧ batch'.invalidHashesAt 0 ≠ [] ∨
          steps = .readRecord world owner request.id ::
              (sending ++ [.writeRecord lifetimes ending owner batch']) ∧
            last = surroundings.written lifetimes ending owner batch' ∧
            batch'.invalidHashesAt 0 = []) := by
  cases submitting with
  | malformed => exact .inl (List.forall_mem_nil _)
  | rejected => exact .inl (List.forall_mem_singleton.2 readRecord_leaves)
  | @refused owner batch batch' sending last offered refused =>
      by_cases same : Records.key owner request.id = Records.key address id
      case pos =>
        exact .inr ⟨owner, batch, batch', sending, last, same, offered,
          .inl ⟨rfl, rfl, refused⟩⟩
      case neg =>
        exact .inl (List.forall_mem_cons.2 ⟨readRecord_leaves,
          fun step member => (offered.sent.sends step member).leaves
            (offered.admits.id.symm ▸ same)⟩)
  | @stored owner batch batch' sending last offered taken =>
      by_cases same : Records.key owner request.id = Records.key address id
      case pos =>
        exact .inr ⟨owner, batch, batch', sending, last, same, offered,
          .inr ⟨rfl, rfl, taken⟩⟩
      case neg =>
        refine .inl ?_
        simp only [List.forall_mem_cons, List.forall_mem_append,
          List.not_mem_nil, false_implies, implies_true, and_true]
        refine ⟨readRecord_leaves, fun step member => ?_, writeRecord_leaves ?_⟩
        · exact (offered.sent.sends step member).leaves
            (offered.admits.id.symm ▸ same)
        · rw [offered.key]
          exact same

/-- A submission leaves a batch alone, or nothing shows the batch at any of its
steps. -/
theorem Submitting.leaves_or_absent {request : BatchRequest}
    (submitting : surroundings.Submitting lifetimes request world steps last)
    (sound : world.Sound routes)
    (settled : ∀ step ∈ steps, surroundings.Settled step)
    (address id : String) :
    (∀ step ∈ steps, step.request.Leaves address id) ∨
      ∀ step ∈ steps, surroundings.stored? step.world address id = none := by
  obtain leaves | ⟨owner, batch, batch', sending, ending, same, offered,
    ⟨rfl, -⟩ | ⟨rfl, -⟩⟩ := submitting.leaves_or_offered address id
  · exact .inl leaves
  · exact .inr (offered.absent_before_write sound same settled).1
  · right
    rw [← List.cons_append, List.forall_mem_append,
      List.forall_mem_singleton] at settled ⊢
    exact offered.absent_before_write sound same settled.1

/-! ## Senders -/

theorem Reconciling.sender {batchId owner : String} {outcome : ItemStatus}
    (reconciling : surroundings.Reconciling lifetimes hash batchId owner outcome
      world steps last) :
    ∀ step ∈ steps, ∀ {origin : Origin} {payload : Transaction},
      step.request = .send origin payload → origin.address = owner := by
  intro step member origin payload same
  cases reconciling with
  | skipped =>
      simp only [List.mem_cons, List.not_mem_nil, or_false] at member
      obtain rfl | rfl := member <;> cases same
  | applied applied =>
      simp only [List.mem_cons, List.mem_append, List.not_mem_nil, or_false]
        at member
      obtain rfl | sending | rfl | rfl := member
      · cases same
      · exact ((applied.followed.sends step sending).origin same).1
      · cases same
      · cases same

theorem Submitting.sender {request : BatchRequest}
    (submitting : surroundings.Submitting lifetimes request world steps last) :
    ∀ step ∈ steps, ∀ {origin : Origin} {payload : Transaction},
      step.request = .send origin payload → Address.Clean origin.address := by
  intro step member origin payload same
  have sender {owner : String} {batch batch' : Batch} {sending : List Step}
      {ending : World}
      (offered : surroundings.Offered lifetimes request world owner batch batch'
        sending ending) (inSending : step ∈ sending) :
      Address.Clean origin.address := by
    rw [((offered.sent.sends step inSending).origin same).1]
    exact offered.proper.clean
  cases submitting with
  | malformed => cases member
  | rejected =>
      obtain rfl := List.mem_singleton.1 member
      cases same
  | refused offered =>
      obtain rfl | sending := List.mem_cons.1 member
      · cases same
      · exact sender offered sending
  | stored offered =>
      simp only [List.mem_cons, List.mem_append, List.not_mem_nil, or_false]
        at member
      obtain rfl | sending | rfl := member
      · cases same
      · exact sender offered sending
      · cases same

end Surroundings

namespace Run

/-- A run in which nothing fails and nothing runs out of time. -/
structure Calm (run : Run) : Prop where
  works : ∀ moment access, run.surroundings.fault moment access = none
  lasting : ∀ world ∈ run.worlds, run.surroundings.Lasting world

theorem Calm.step {run : Run} (calm : run.Calm) {step : Step}
    (member : step ∈ run.steps) : run.surroundings.Calm step where
  works := calm.works step.world.moment
  lasting := (run.forall_worlds.1 calm.lasting).1 step member
  lastingAfter := calm.lasting _ (run.after_mem_worlds member)

theorem clean_of_send (run : Run) {step : Step} (member : step ∈ run.steps)
    {origin : Origin} {payload : Transaction}
    (sends : step.request = .send origin payload) :
    Address.Clean origin.address := by
  let holds (_ : List (String × Route)) (past : List Step) (_ : World) : Prop :=
    ∀ step ∈ past, ∀ origin payload, step.request = .send origin payload →
      Address.Clean origin.address
  have invariant :
      Invariant run.surroundings run.lifetimes (fun _ => True) holds :=
    { aside := fun _ held _ isAside => List.forall_mem_append.2 ⟨held,
        List.forall_mem_singleton.2 fun _ _ same => by
          subst same
          cases isAside⟩
      found := fun _ held _ => held
      forgotten := fun held => held
      reconciled := fun sound held member _ reconciling _ =>
        List.forall_mem_append.2 ⟨held, fun step inSteps _ _ same =>
          (reconciling.sender step inSteps same).symm ▸
            (sound.found _ member).address⟩
      submitted := fun _ held submitting _ =>
        List.forall_mem_append.2 ⟨held, fun step inSteps _ _ same =>
          submitting.sender step inSteps same⟩ }
  exact (run.holds invariant (List.forall_mem_nil _) fun _ _ => trivial).2 step
    member origin payload sends

end Run

end BatchRelay
