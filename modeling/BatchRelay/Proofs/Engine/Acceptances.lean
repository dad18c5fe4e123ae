import BatchRelay.Proofs.Engine.Calm

/-!
# What the network has taken

Each transaction that the network takes leads to a route for its hash.  In calm
surroundings the index has a route from a hash to a batch just when that batch
has the last word on the hash: it was the last one for which the network took
it, and no outcome has been dealt with since.
-/

namespace BatchRelay

/-- Whether the network has taken a transaction under a hash. -/
def Happening.accepts (hash : String) : Happening → Bool
  | .sent _ _ (.ok answer) => answer = hash
  | _ => false

namespace World

/-- How often the network has taken a transaction under a hash. -/
def acceptances (world : World) (hash : String) : Nat :=
  world.journal.countP (Happening.accepts hash)

/-- Whether the network has taken a transaction for a place under a hash. -/
def Accepted (world : World) (origin : Origin) (hash : String) : Prop :=
  ∃ payload, .sent origin payload (.ok hash) ∈ world.journal

variable {world : World} {origin other : Origin} {hash : String}

theorem Accepted.acceptances_of_ne (accepted : world.Accepted origin hash) (again : world.Accepted other hash)
    (isOther : origin ≠ other) : 2 ≤ world.acceptances hash := by
  obtain ⟨payload, member⟩ := accepted
  obtain ⟨payload', member'⟩ := again
  obtain ⟨front, back, split⟩ := List.append_of_mem member
  have counted : (Happening.sent origin payload (.ok hash)).accepts hash = true :=
    by simp [Happening.accepts]
  have elsewhere : .sent other payload' (.ok hash) ∈ front ++ back := by
    rw [split, List.mem_append, List.mem_cons] at member'
    obtain inFront | same | inBack := member'
    · exact List.mem_append_left _ inFront
    · cases same
      exact absurd rfl isOther
    · exact List.mem_append_right _ inBack
  have others : 0 < (front ++ back).countP (Happening.accepts hash) :=
    List.countP_pos_iff.2 ⟨_, elsewhere, by simp [Happening.accepts]⟩
  rw [List.countP_append] at others
  rw [acceptances, split, List.countP_append, List.countP_cons_of_pos counted]
  omega

end World

namespace Surroundings

/-- Whether the network takes a transaction for a place under a hash. -/
def Accepts (surroundings : Surroundings) (step : Step) (origin : Origin)
    (hash : String) : Prop :=
  ∃ payload, step.request = .send origin payload ∧
    surroundings.send step.world.moment payload = .ok hash

/-- Whether the step that sends for a place of a batch is refused. -/
def Refuses (surroundings : Surroundings) (step : Step) (origin : Origin) :
    Prop :=
  ∃ payload error, step.request = .send origin payload ∧
    surroundings.send step.world.moment payload = .error error

/-- Whether the index has a route from a hash to a batch. -/
def Awaits (surroundings : Surroundings) (address id hash : String)
    (world : World) : Prop :=
  ∃ route, surroundings.route? world hash = some route ∧
    route.address = address ∧ route.batchId = id

/-- Whether a step ends a batch's claim to a hash: the network takes it for
another batch, or an outcome has been dealt with. -/
def TakesAway (surroundings : Surroundings) (address id hash : String)
    (step : Step) : Prop :=
  (∃ origin, surroundings.Accepts step origin hash ∧
      ¬(origin.address = address ∧ origin.batchId = id)) ∨
    step.request = .delete (Routes.key hash)

/-- Whether the last that was done about a hash is that the network took it for
a batch. -/
def LastWord (surroundings : Surroundings) (address id hash : String)
    (past : List Step) : Prop :=
  ∃ front step back position, past = front ++ step :: back ∧
    surroundings.Accepts step ⟨address, id, position⟩ hash ∧
    ∀ later ∈ back, ¬surroundings.TakesAway address id hash later

variable {surroundings : Surroundings} {lifetimes : Lifetimes}
  {routes : List (String × Route)} {address id hash : String}
  {past steps : List Step} {world middle last : World} {step : Step}
  {origin : Origin}

/-! ## Counting -/

theorem acceptances_after :
    (surroundings.after step).acceptances hash =
      (surroundings.happened step).countP (Happening.accepts hash) +
        step.world.acceptances hash := by
  rw [World.acceptances, journal_after, List.countP_append, World.acceptances]

theorem Linked.acceptances_le (links : surroundings.Linked world steps last) :
    world.acceptances hash ≤ last.acceptances hash := by
  induction links with
  | nil => exact Nat.le_refl _
  | cons _ induction =>
      rw [acceptances_after] at induction
      exact Nat.le_trans (Nat.le_add_left _ _) induction

theorem Linked.accepted_iff (links : surroundings.Linked world steps last) :
    last.Accepted origin hash ↔ world.Accepted origin hash ∨
      ∃ step ∈ steps, surroundings.Accepts step origin hash := by
  simp only [World.Accepted, links.sent_mem_journal, exists_or, Accepts]
  refine or_congr_right ⟨?_, ?_⟩
  · rintro ⟨payload, step, member, sends, taken⟩
    exact ⟨step, member, payload, sends, taken⟩
  · rintro ⟨step, member, payload, sends, taken⟩
    exact ⟨payload, step, member, sends, taken⟩

/-! ## The last word -/

theorem lastWord_append_singleton :
    surroundings.LastWord address id hash (past ++ [step]) ↔
      (∃ position, surroundings.Accepts step ⟨address, id, position⟩ hash) ∨
        surroundings.LastWord address id hash past ∧
          ¬surroundings.TakesAway address id hash step := by
  constructor
  · rintro ⟨front, first, back, position, split, accepts, others⟩
    obtain rfl | ⟨back, final, rfl⟩ := List.eq_nil_or_concat back
    · obtain ⟨rfl, same⟩ := List.append_inj' split rfl
      cases same
      exact .inl ⟨position, accepts⟩
    · rw [List.concat_eq_append] at split others
      rw [← List.cons_append, ← List.append_assoc] at split
      obtain ⟨rfl, same⟩ := List.append_inj' split rfl
      cases same
      obtain ⟨others, final⟩ := List.forall_mem_append.1 others
      exact .inr ⟨⟨front, first, back, position, rfl, accepts, others⟩,
        final _ List.mem_cons_self⟩
  · rintro (⟨position, accepts⟩ |
      ⟨⟨front, first, back, position, rfl, accepts, others⟩, final⟩)
    · exact ⟨past, step, [], position, rfl, accepts, List.forall_mem_nil _⟩
    · refine ⟨front, first, back ++ [step], position, by simp, accepts, ?_⟩
      exact List.forall_mem_append.2 ⟨others, List.forall_mem_singleton.2 final⟩

/-- A batch keeps the last word through steps that do not take it away. -/
theorem LastWord.append (lastWord : surroundings.LastWord address id hash past)
    (kept : ∀ step ∈ steps, ¬surroundings.TakesAway address id hash step) :
    surroundings.LastWord address id hash (past ++ steps) := by
  obtain ⟨front, step, back, position, rfl, accepts, others⟩ := lastWord
  exact ⟨front, step, back ++ steps, position, by simp, accepts,
    List.forall_mem_append.2 ⟨others, kept⟩⟩

theorem lastWord_of_accepts {position : Position} (member : step ∈ steps)
    (accepts : surroundings.Accepts step ⟨address, id, position⟩ hash)
    (kept : ∀ step ∈ steps, ¬surroundings.TakesAway address id hash step) :
    surroundings.LastWord address id hash (past ++ steps) := by
  obtain ⟨front, back, rfl⟩ := List.append_of_mem member
  refine ⟨past ++ front, step, back, position, by simp, accepts, ?_⟩
  intro later inBack
  exact kept later
    (List.mem_append_right _ (List.mem_cons_of_mem _ inBack))

theorem not_takesAway_of_sends {group : Nat}
    (sends : step.request.Sends lifetimes address id group) :
    ¬surroundings.TakesAway address id hash step := by
  rintro (⟨origin, ⟨payload, same, -⟩, isOther⟩ | removes)
  · obtain ⟨sender, named, -⟩ := sends.origin same
    exact isOther ⟨sender, named⟩
  · rw [removes] at sends
    cases sends

/-- A step that has nothing to do with a hash. -/
structure Ignores (surroundings : Surroundings) (step : Step) (hash : String) :
    Prop where
  untouched : step.request.touched? ≠ some (Routes.key hash)
  unaccepted : ∀ origin, ¬surroundings.Accepts step origin hash

theorem lastWord_append_ignoring
    (ignores : ∀ step ∈ steps, surroundings.Ignores step hash) :
    surroundings.LastWord address id hash (past ++ steps) ↔
      surroundings.LastWord address id hash past := by
  induction steps generalizing past with
  | nil => rw [List.append_nil]
  | cons step steps induction =>
      obtain ⟨first, others⟩ := List.forall_mem_cons.1 ignores
      have kept : ¬surroundings.TakesAway address id hash step := by
        rintro (⟨origin, accepts, -⟩ | removes)
        · exact first.unaccepted origin accepts
        · exact first.untouched (removes ▸ rfl)
      rw [← List.singleton_append, ← List.append_assoc, induction others,
        lastWord_append_singleton]
      simp [first.unaccepted, kept]

/-! ## The index -/

theorem awaits_after_untouched (calm : surroundings.Calm step)
    (sound : step.world.Sound routes)
    (untouched : step.request.touched? ≠ some (Routes.key hash)) :
    surroundings.Awaits address id hash (surroundings.after step) ↔
      surroundings.Awaits address id hash step.world := by
  rw [Awaits, route?_after_untouched calm sound untouched, Awaits]

theorem awaits_after_writeRoute {route : Route}
    (calm : surroundings.Calm (.writeRoute lifetimes world hash route))
    (sound : world.Sound routes) (clean : route.Clean) :
    surroundings.Awaits address id hash
        (surroundings.after (.writeRoute lifetimes world hash route)) ↔
      route.address = address ∧ route.batchId = id := by
  simp only [Awaits, route?_after_calm_write calm sound, Option.some.injEq,
    exists_eq_left', clean.decode_encode]

theorem not_awaits_after_removeRoute
    (calm : surroundings.Calm (.removeRoute world hash)) :
    ¬surroundings.Awaits address id hash
      (surroundings.after (.removeRoute world hash)) := by
  rintro ⟨route, read, -⟩
  rw [route?_after_calm_remove calm] at read
  cases read

/-- The index agrees with what was done about a hash. -/
def Agrees (surroundings : Surroundings) (address id hash : String)
    (past : List Step) (world : World) : Prop :=
  surroundings.Awaits address id hash world ↔
    surroundings.LastWord address id hash past

theorem accepts_send {route : Route} {position : Position}
    {payload : Transaction} :
    surroundings.Accepts (.send world route position payload) origin hash ↔
      origin = ⟨route.address, route.batchId, position⟩ ∧
        surroundings.send world.moment payload = .ok hash := by
  constructor
  · rintro ⟨_, sends, taken⟩
    cases sends
    exact ⟨rfl, taken⟩
  · rintro ⟨rfl, taken⟩
    exact ⟨payload, rfl, taken⟩

theorem not_accepts_of_unsent
    (unsent : ∀ origin payload, step.request ≠ .send origin payload) :
    ¬surroundings.Accepts step origin hash := by
  rintro ⟨payload, sends, -⟩
  exact unsent origin payload sends

theorem writeRoute_ignores {other : String} {route : Route}
    (isOther : other ≠ hash) :
    surroundings.Ignores (.writeRoute lifetimes world other route) hash where
  untouched same := isOther (Routes.key_inj (Option.some.inj same))
  unaccepted _ := not_accepts_of_unsent nofun

section Agreeing

variable (agrees : surroundings.Agrees address id hash past world)

include agrees

theorem Agrees.ignore (sound : world.Sound routes)
    (links : surroundings.Linked world steps last)
    (writes : ∀ step ∈ steps, step.request.WritesGenuine)
    (calm : ∀ step ∈ steps, surroundings.Calm step)
    (ignores : ∀ step ∈ steps, surroundings.Ignores step hash) :
    surroundings.Agrees address id hash (past ++ steps) last := by
  have sounds := sound.linked_at links writes
  have same := (links.constant (surroundings.Awaits address id hash)
    fun step member => propext (awaits_after_untouched (calm step member)
      (sounds step member) (ignores step member).untouched)).2
  rw [Agrees, same, lastWord_append_ignoring ignores]
  exact agrees

theorem Agrees.take {route : Route} {position : Position}
    {payload : Transaction} {taken : String}
    (sound : world.Sound routes) (clean : route.Clean)
    (answer : surroundings.send world.moment payload = .ok taken)
    (first : surroundings.Calm (.send world route position payload))
    (second : surroundings.Calm (.writeRoute lifetimes
      (surroundings.after (.send world route position payload)) taken route)) :
    surroundings.Agrees address id hash
      (past ++ [.send world route position payload,
        .writeRoute lifetimes
          (surroundings.after (.send world route position payload)) taken route])
      (surroundings.after (.writeRoute lifetimes
        (surroundings.after (.send world route position payload)) taken
        route)) := by
  by_cases same : taken = hash
  case neg =>
    refine agrees.ignore sound (.cons (.cons .nil)) ?_ ?_ ?_ <;>
      simp only [List.forall_mem_cons, List.not_mem_nil, false_implies,
        implies_true, and_true]
    · exact ⟨.ofUnwritten rfl, .ofRoute clean _ _⟩
    · exact ⟨first, second⟩
    · refine ⟨⟨nofun, fun origin accepts => ?_⟩, writeRoute_ignores same⟩
      exact same (Except.ok.inj (answer.symm.trans (accepts_send.1 accepts).2))
  case pos =>
    subst same
    have soundSent : (surroundings.after
        (.send world route position payload)).Sound routes :=
      sound.step (.ofUnwritten rfl)
    rw [Agrees, awaits_after_writeRoute second soundSent clean,
      ← List.singleton_append, ← List.append_assoc, lastWord_append_singleton,
      lastWord_append_singleton]
    have taking : surroundings.Accepts (.send world route position payload)
        ⟨route.address, route.batchId, position⟩ taken :=
      accepts_send.2 ⟨rfl, answer⟩
    constructor
    · rintro ⟨rfl, rfl⟩
      refine .inr ⟨.inl ⟨position, taking⟩, ?_⟩
      rintro (⟨_, ⟨_, sends, -⟩, -⟩ | removes)
      · cases sends
      · cases removes
    · rintro (⟨_, _, sends, -⟩ | ⟨⟨_, accepts⟩ | ⟨-, kept⟩, -⟩)
      · cases sends
      · obtain ⟨same, -⟩ := accepts_send.1 accepts
        cases same
        exact ⟨rfl, rfl⟩
      · exact Decidable.byContradiction fun isOther =>
          kept (.inl ⟨_, taking, isOther⟩)

end Agreeing

theorem Sent.agrees {route : Route} {position : Position}
    {items items' : List Item}
    (sent : surroundings.Sent lifetimes route position items world items' steps
      last)
    (agrees : surroundings.Agrees address id hash past world)
    (sound : world.Sound routes) (clean : route.Clean)
    (calm : ∀ step ∈ steps, surroundings.Calm step) :
    surroundings.Agrees address id hash (past ++ steps) last := by
  induction sent generalizing past with
  | none => simpa using agrees
  | @taken position item items items' world last steps taken answer rest
      induction =>
      simp only [List.forall_mem_cons] at calm
      obtain ⟨first, second, others⟩ := calm
      have soundSent : (surroundings.after
          (.send world route position item.payload)).Sound routes :=
        sound.step (.ofUnwritten rfl)
      have both := agrees.take sound clean answer first second
      have whole := induction both (soundSent.step (.ofRoute clean _ _)) others
      simpa only [List.append_assoc, List.cons_append, List.nil_append]
        using whole
  | @refused position item items world error answer =>
      refine agrees.ignore sound (.cons .nil)
        (List.forall_mem_singleton.2 (.ofUnwritten rfl)) calm
        (List.forall_mem_singleton.2 ⟨nofun, fun origin accepts => ?_⟩)
      have same := answer.symm.trans (accepts_send.1 accepts).2
      cases same

theorem ignores_of_isAside (isAside : step.request.isAside = true)
    (hash : String) : surroundings.Ignores step hash where
  untouched := Request.touched?_of_isAside isAside (isTracked_routeKey hash)
  unaccepted origin := by
    rintro ⟨payload, sends, -⟩
    rw [sends] at isAside
    cases isAside

theorem writeRecord_ignores {owner : String} {batch : Batch} :
    surroundings.Ignores (.writeRecord lifetimes world owner batch) hash where
  untouched same := Records.key_ne_routeKey _ _ _ (Option.some.inj same)
  unaccepted _ := by
    rintro ⟨_, sends, -⟩
    cases sends

theorem Agrees.aside
    (agreed : surroundings.Agrees address id hash past step.world)
    (sound : step.world.Sound routes) (calm : surroundings.Calm step)
    (isAside : step.request.isAside = true) :
    surroundings.Agrees address id hash (past ++ [step])
      (surroundings.after step) :=
  agreed.ignore sound (.single surroundings step)
    (List.forall_mem_singleton.2 (Request.writesGenuine_of_isAside isAside))
    (List.forall_mem_singleton.2 calm)
    (List.forall_mem_singleton.2 (ignores_of_isAside isAside hash))

section Agreeing

variable {owner : String} {batch batch' : Batch} {index : Nat}
  (agreed : surroundings.Agrees address id hash past world)
  (sound : world.Sound routes)

include agreed sound

theorem Agrees.store (proper : batch.Proper owner)
    (calm : surroundings.Calm (.writeRecord lifetimes world owner batch)) :
    surroundings.Agrees address id hash
      (past ++ [.writeRecord lifetimes world owner batch])
      (surroundings.written lifetimes world owner batch) :=
  agreed.ignore sound
    (.single surroundings (.writeRecord lifetimes world owner batch))
    (List.forall_mem_singleton.2 (.ofRecord proper _))
    (List.forall_mem_singleton.2 calm)
    (List.forall_mem_singleton.2 writeRecord_ignores)

theorem Agrees.remove (removed : String)
    (calm : surroundings.Calm (.removeRoute world removed)) :
    surroundings.Agrees address id hash
      (past ++ [.removeRoute world removed])
      (surroundings.after (.removeRoute world removed)) := by
  have unaccepted (origin : Origin) :
      ¬surroundings.Accepts (.removeRoute world removed) origin hash := by
    rintro ⟨_, sends, -⟩
    cases sends
  by_cases same : removed = hash
  case pos =>
    subst same
    rw [Agrees, lastWord_append_singleton]
    refine iff_of_false (not_awaits_after_removeRoute calm) ?_
    rintro (⟨position, accepts⟩ | ⟨-, kept⟩)
    · exact unaccepted _ accepts
    · exact kept (.inr rfl)
  case neg =>
    refine agreed.ignore sound (.single surroundings (.removeRoute world removed))
      (List.forall_mem_singleton.2 (.ofUnwritten rfl))
      (List.forall_mem_singleton.2 calm)
      (List.forall_mem_singleton.2 ⟨fun touched => same ?_, unaccepted⟩)
    exact Routes.key_inj (Option.some.inj touched)

theorem Started.agrees
    (started : surroundings.Started lifetimes batch owner index world batch' steps
      last)
    (proper : batch.Proper owner)
    (calm : ∀ step ∈ steps, surroundings.Calm step) :
    surroundings.Agrees address id hash (past ++ steps) last := by
  cases started with
  | sent present sent =>
      obtain ⟨first, others⟩ := List.forall_mem_cons.1 calm
      have clocked := agreed.aside sound first rfl
      have whole := sent.agrees clocked (sound.step (.ofUnwritten rfl))
        (proper.route _) others
      simpa only [List.append_assoc, List.singleton_append] using whole

theorem Followed.agrees {outcome : ItemStatus}
    (followed : surroundings.Followed lifetimes owner batch index outcome world
      batch' steps last)
    (proper : batch.Proper owner)
    (calm : ∀ step ∈ steps, surroundings.Calm step) :
    surroundings.Agrees address id hash (past ++ steps) last := by
  cases followed with
  | continued _ _ _ next => exact next.agrees agreed sound proper calm
  | @stopped started steps last event _ _ _ next =>
      obtain ⟨front, back⟩ := List.forall_mem_append.1 calm
      have soundLast : last.Sound routes := sound.linked next.linked
        fun step member =>
          (next.sends step member).writesGenuine proper.clean proper.id
      have published := (next.agrees agreed sound proper front).aside soundLast
        (List.forall_mem_singleton.1 back) rfl
      simpa only [List.append_assoc] using published
  | _ => simpa using agreed

theorem Reconciling.agrees {batchId reconciled : String} {outcome : ItemStatus}
    (reconciling : surroundings.Reconciling lifetimes reconciled batchId owner
      outcome world steps last)
    (clean : Address.Clean owner)
    (calm : ∀ step ∈ steps, surroundings.Calm step) :
    surroundings.Agrees address id hash (past ++ steps) last := by
  cases reconciling with
  | skipped =>
      simp only [List.forall_mem_cons, List.not_mem_nil, false_implies,
        implies_true, and_true] at calm
      have read := agreed.aside sound calm.1 rfl
      have removed := read.remove sound.readRecord reconciled calm.2
      simpa only [List.append_assoc, List.singleton_append] using removed
  | applied applied =>
      simp only [List.forall_mem_cons, List.forall_mem_append,
        List.not_mem_nil, false_implies, implies_true, and_true] at calm
      obtain ⟨first, sending, write, remove⟩ := calm
      have updated := applied.updated sound clean
      have read := agreed.aside sound first rfl
      have sent := applied.followed.agrees read sound.readRecord updated sending
      have stored := sent.store (applied.soundMiddle sound clean)
        (applied.followed.proper updated) write
      have removed := stored.remove (applied.soundWritten sound clean) reconciled
        remove
      simpa only [List.append_assoc, List.cons_append, List.nil_append]
        using removed

theorem Submitting.agrees {request : BatchRequest}
    (submitting : surroundings.Submitting lifetimes request world steps last)
    (calm : ∀ step ∈ steps, surroundings.Calm step) :
    surroundings.Agrees address id hash (past ++ steps) last := by
  have offering {owner : String} {batch batch' : Batch} {sending : List Step}
      {ending : World}
      (offered : surroundings.Offered lifetimes request world owner batch batch'
        sending ending)
      (first : surroundings.Calm (.readRecord world owner request.id))
      (others : ∀ step ∈ sending, surroundings.Calm step) :
      surroundings.Agrees address id hash
        (past ++ .readRecord world owner request.id :: sending) ending := by
    have read := agreed.aside sound first rfl
    have sent := offered.sent.agrees read sound.readRecord offered.proper others
    simpa only [List.append_assoc, List.singleton_append] using sent
  cases submitting with
  | malformed => simpa using agreed
  | rejected => exact agreed.aside sound (List.forall_mem_singleton.1 calm) rfl
  | refused offered =>
      obtain ⟨first, others⟩ := List.forall_mem_cons.1 calm
      exact offering offered first others
  | stored offered =>
      simp only [List.forall_mem_cons, List.forall_mem_append,
        List.not_mem_nil, false_implies, implies_true, and_true] at calm
      obtain ⟨first, others, write⟩ := calm
      have stored := (offering offered first others).store
        (sound.readRecord.linked offered.sent.linked offered.genuine)
        offered.updated write
      simpa only [List.append_assoc, List.cons_append] using stored

end Agreeing

/-! ## Where routes come from -/

/-- Every route of a hash, whether it is in the index or was found there before,
leads to a batch for which the network has taken the hash. -/
structure Traced (surroundings : Surroundings) (hash : String)
    (routes : List (String × Route)) (past : List Step) (world : World) :
    Prop where
  agrees : ∀ address id, surroundings.Agrees address id hash past world
  journaled : ∀ origin, world.Accepted origin hash ↔
    ∃ step ∈ past, surroundings.Accepts step origin hash
  found : ∀ route, (hash, route) ∈ routes →
    ∃ position, world.Accepted ⟨route.address, route.batchId, position⟩ hash

theorem Traced.follow
    (traced : surroundings.Traced hash routes past world)
    (links : surroundings.Linked world steps last)
    (agrees : ∀ address id, surroundings.Agrees address id hash (past ++ steps)
      last) :
    surroundings.Traced hash routes (past ++ steps) last where
  agrees := agrees
  journaled origin := by
    simp only [links.accepted_iff, traced.journaled, List.mem_append, or_and_right,
      exists_or]
  found route member := by
    obtain ⟨position, accepted⟩ := traced.found route member
    exact ⟨position, links.accepted_iff.2 (.inl accepted)⟩

theorem invariant_traced :
    Invariant surroundings lifetimes surroundings.Calm
      (surroundings.Traced hash) where
  aside {_ _ world request} sound traced calm isAside :=
    traced.follow (.single surroundings ⟨world, request⟩) fun address id =>
      (traced.agrees address id).aside sound calm isAside
  found _ traced shown :=
    { traced with
      found := fun route member => by
        have awaits : surroundings.Awaits route.address route.batchId hash _ :=
          ⟨route, shown _ member, rfl, rfl⟩
        obtain ⟨front, step, back, position, rfl, accepts, -⟩ :=
          (traced.agrees _ _).1 awaits
        exact ⟨position, (traced.journaled _).2 ⟨step, by simp, accepts⟩⟩ }
  forgotten traced := { traced with found := fun _ member => by cases member }
  reconciled sound traced member _ reconciling calm :=
    traced.follow reconciling.linked fun address id =>
      reconciling.agrees (traced.agrees address id) sound
        (sound.found _ member).address calm
  submitted sound traced submitting calm :=
    traced.follow submitting.linked fun address id =>
      submitting.agrees (traced.agrees address id) sound calm

end Surroundings

theorem Run.traced_start (run : Run) (hash : String) :
    run.surroundings.Traced hash [] [] run.start where
  agrees address id := by
    refine iff_of_false ?_ ?_
    · rintro ⟨route, read, -⟩
      rw [run.route?_start] at read
      cases read
    · rintro ⟨front, step, back, _, split, -⟩
      simp at split
  journaled origin := by simp [World.Accepted, start, World.start]
  found _ member := by cases member

/-- In calm surroundings the index has a route from a hash to a batch just when
the batch has the last word on the hash. -/
theorem Run.awaits_iff_lastWord (run : Run) (calm : run.Calm)
    (address id hash : String) :
    run.surroundings.Awaits address id hash run.final ↔
      run.surroundings.LastWord address id hash run.steps := by
  have traced := run.holds Surroundings.invariant_traced (run.traced_start hash)
    fun step member => calm.step member
  exact traced.2.agrees address id

end BatchRelay
