import BatchRelay.Proofs.Engine.Frames
import BatchRelay.Proofs.Engine.Leftovers

/-!
# When a successful batch has succeeded everywhere

An outcome is applied to an item without a look at the groups before it.  So a
batch is only right when every outcome comes in its item's turn.  A route that
is left from an earlier attempt to store the batch can lead to an item of a
later group, and a record that could not be written loses a group that the
engine has seen succeed.  Without these two, whatever else fails or expires, a
batch is never stored as successful while an item of it has not succeeded.
-/

namespace BatchRelay

namespace Batch

variable {batch : Batch} {hash : String} {position : Position} {item : Item}
  {items : List Item}

/-- The item of a hash may take an outcome: all groups before it have
succeeded. -/
def InTurn (batch : Batch) (hash : String) : Prop :=
  ∀ position, batch.locate hash = some position → batch.DoneBefore position.group

theorem DoneBefore.setItemStatus {index : Nat} (done : batch.DoneBefore index)
    (position : Position) :
    (batch.setItemStatus position .success).DoneBefore index := by
  intro other item before found
  obtain ⟨original, present, ⟨-, rfl⟩ | ⟨-, rfl⟩⟩ := item?_of_setItemStatus found
  · exact done other item before present
  · rfl

theorem InTurn.setItemStatus (inTurn : batch.InTurn hash) (position : Position) :
    (batch.setItemStatus position .success).InTurn hash := by
  intro place located
  rw [locate_setItemStatus] at located
  exact (inTurn place located).setItemStatus position

theorem InTurn.modifyGroup (inTurn : batch.InTurn hash)
    (found : batch.item? position = some item) (waits : item.status = .pending)
    (done : ((batch.setItemStatus position .success).modifyGroup
      (position.group + 1) fun _ => ⟨items⟩).DoneBefore (position.group + 1)) :
    ((batch.setItemStatus position .success).modifyGroup
      (position.group + 1) fun _ => ⟨items⟩).InTurn hash := by
  intro place located
  refine done.mono (Nat.le_of_not_lt fun late => ?_)
  obtain ⟨there, foundThere, rfl⟩ := item?_of_locate located
  rw [item?_modifyGroup_of_ne _ (by omega)] at foundThere
  -- The hash was in turn while `item` waited, so it was located before it.
  obtain ⟨first, locatedFirst, -⟩ := locate_isFirst foundThere
  have early : first.group ≤ position.group := by
    rw [locate_setItemStatus] at locatedFirst
    refine Nat.le_of_not_lt fun after => ?_
    have success := inTurn first locatedFirst position item after found
    rw [waits] at success
    cases success
  obtain ⟨atFirst, foundFirst, same⟩ := item?_of_locate locatedFirst
  have elsewhere : first.group ≠ position.group + 1 := by omega
  rw [← item?_modifyGroup_of_ne (fun _ => ⟨items⟩) elsewhere] at foundFirst
  have := locate_group_le (same ▸ located) foundFirst
  omega

end Batch

namespace Surroundings

variable (surroundings : Surroundings) (address id : String)

/-- When the step stores the batch anew, no route that leads to it has the hash
of an item of a later group. -/
def StartsClear (step : Step) : Prop :=
  ∀ (batch : Batch) (ttl : Option Nat), step.request =
      .write (Records.key address id) batch.render ttl → batch.Untouched →
    ∀ hash route, route.LeadsTo address id →
      surroundings.route? step.world hash = some route →
      ∀ position, batch.locate hash = some position → position.group = 0

/-- When the step fails to store the batch, no group before the last one has
succeeded since the batch was stored. -/
def KeepsProgress (step : Step) : Prop :=
  ∀ (batch : Batch) (ttl : Option Nat), step.request =
      .write (Records.key address id) batch.render ttl →
    surroundings.fault step.world.moment (.write (Records.key address id)) ≠
      none →
    ∀ old, surroundings.stored? step.world address id = some old →
      ∀ index, index + 1 < batch.groups.length →
        batch.groupSuccessful index = true → old.groupSuccessful index = true

/-- When the step gets the batch stored as successful, every group before the
last one has succeeded. -/
def ClosesInTurn (step : Step) : Prop :=
  ∀ (batch : Batch) (ttl : Option Nat), step.request =
      .write (Records.key address id) batch.render ttl →
    surroundings.stored? (surroundings.after step) address id = some batch →
    batch.status = .success → batch.DoneBefore (batch.groups.length - 1)

/-- A stored batch that counts as successful has succeeded everywhere. -/
def Succeeded (world : World) : Prop :=
  ∀ batch, surroundings.stored? world address id = some batch →
    batch.status = .success → ∀ group ∈ batch.groups, group.isSuccessful = true

/-- Every route to the stored batch that may still be used is in turn. -/
def RoutesInTurn (routes : List (String × Route)) (world : World) : Prop :=
  ∀ batch, surroundings.stored? world address id = some batch →
    batch.status = .pending →
    ∀ hash route, route.LeadsTo address id →
      (hash, route) ∈ routes ∨ surroundings.route? world hash = some route →
      batch.InTurn hash

/-- What holds of a batch all through a run, however it goes on. -/
structure InOrder (routes : List (String × Route)) (past : List Step)
    (world : World) : Prop where
  before : ∀ step ∈ past, surroundings.Succeeded address id step.world
  now : surroundings.Succeeded address id world
  turns : surroundings.RoutesInTurn address id routes world

variable {surroundings address id} {lifetimes : Lifetimes}
  {routes : List (String × Route)} {past steps : List Step}
  {world last : World}

theorem Succeeded.narrow {later : World}
    (succeeded : surroundings.Succeeded address id world)
    (narrows : surroundings.Narrows address id world later) :
    surroundings.Succeeded address id later :=
  fun batch stored => succeeded batch (narrows.record batch stored)

theorem RoutesInTurn.narrow {later : World}
    (turns : surroundings.RoutesInTurn address id routes world)
    (narrows : surroundings.Narrows address id world later) :
    surroundings.RoutesInTurn address id routes later :=
  fun batch stored waits hash route leads used =>
    turns batch (narrows.record batch stored) waits hash route leads
      (used.imp_right (narrows.route hash route leads))

theorem InOrder.narrow (inOrder : surroundings.InOrder address id routes past world)
    (sound : world.Sound routes) (links : surroundings.Linked world steps last)
    (writes : ∀ step ∈ steps, step.request.WritesGenuine)
    (settled : ∀ step ∈ steps, surroundings.Settled step)
    (spares : ∀ step ∈ steps, step.request.Spares address id) :
    surroundings.InOrder address id routes (past ++ steps) last := by
  obtain ⟨between, ending⟩ := links.narrows sound writes settled spares
  refine ⟨fun step member => ?_, inOrder.now.narrow ending,
    inOrder.turns.narrow ending⟩
  obtain inPast | inSteps := List.mem_append.1 member
  · exact inOrder.before step inPast
  · exact inOrder.now.narrow (between step inSteps)

section Following

variable {owner : String} {batch batch' : Batch} {position : Position}
  {item : Item} {outcome : ItemStatus}

theorem Followed.of_success
    (followed : surroundings.Followed lifetimes owner
      (batch.setItemStatus position outcome) position.group outcome world batch'
      steps last)
    (ended : batch.status = .success →
      ∀ group ∈ batch.groups, group.isSuccessful = true)
    (found : batch.item? position = some item) (waits : item.status = .pending)
    (succeeded : batch'.status = .success) :
    batch.status = .pending ∧ outcome = .success ∧
      position.group + 1 = batch'.groups.length ∧
      batch'.groupSuccessful position.group = true ∧
      batch'.groups = (batch.setItemStatus position outcome).groups := by
  cases followed with
  | settled =>
      have done := Batch.doneBefore_length_iff.2 (ended succeeded)
      have success := done position item (Batch.group_lt_of_item? found) found
      rw [waits] at success
      cases success
  | invalid | dropped | stopped => cases succeeded
  | waiting isOpen =>
      rw [isOpen] at succeeded
      cases succeeded
  | finished isOpen succeeds complete isLast =>
      exact ⟨isOpen, succeeds, isLast, complete, rfl⟩
  | continued isOpen _ _ next =>
      rw [next.status, isOpen] at succeeded
      cases succeeded

theorem Followed.succeeded
    (followed : surroundings.Followed lifetimes owner
      (batch.setItemStatus position outcome) position.group outcome world batch'
      steps last)
    (ended : batch.status = .success →
      ∀ group ∈ batch.groups, group.isSuccessful = true)
    (found : batch.item? position = some item) (waits : item.status = .pending)
    (succeeded : batch'.status = .success)
    (closes : batch'.DoneBefore (batch'.groups.length - 1)) :
    ∀ group ∈ batch'.groups, group.isSuccessful = true := by
  obtain ⟨-, -, isLast, complete, -⟩ :=
    followed.of_success ended found waits succeeded
  rw [← Batch.doneBefore_length_iff, ← isLast]
  rw [← isLast] at closes
  exact closes.succ complete

theorem Followed.closes
    (followed : surroundings.Followed lifetimes owner
      (batch.setItemStatus position outcome) position.group outcome world batch'
      steps last)
    (ended : batch.status = .success →
      ∀ group ∈ batch.groups, group.isSuccessful = true)
    (turn : batch.status = .pending → batch.DoneBefore position.group)
    (found : batch.item? position = some item) (waits : item.status = .pending)
    (succeeded : batch'.status = .success) :
    batch'.DoneBefore (batch'.groups.length - 1) := by
  obtain ⟨isOpen, rfl, isLast, -, groups⟩ :=
    followed.of_success ended found waits succeeded
  have done := (turn isOpen).setItemStatus position
  rw [← isLast]
  intro place item before there
  rw [Batch.item?, groups] at there
  exact done place item before there

theorem Followed.inTurn {hash : String}
    (followed : surroundings.Followed lifetimes owner
      (batch.setItemStatus position outcome) position.group outcome world batch'
      steps last)
    (turn : batch.DoneBefore position.group)
    (found : batch.item? position = some item) (waits : item.status = .pending)
    (isOpen : batch'.status = .pending)
    (inTurn : batch.InTurn hash ∨ steps ≠ [] ∧ ∃ place item,
      batch'.item? ⟨position.group + 1, place⟩ = some item ∧ item.hash = hash) :
    batch'.InTurn hash := by
  cases followed with
  | settled ended => exact absurd isOpen ended
  | invalid | dropped | finished | stopped => cases isOpen
  | waiting _ succeeds =>
      subst succeeds
      obtain inTurn | ⟨none, -⟩ := inTurn
      · exact inTurn.setItemStatus position
      · exact absurd rfl none
  | continued _ succeeds complete next =>
      subst succeeds
      cases next with
      | @sent group items steps last present sent =>
          have done := ((turn.setItemStatus position).succ complete).modifyGroup
            fun _ => ⟨items⟩
          obtain inTurn | ⟨-, place, item, member, rfl⟩ := inTurn
          · exact inTurn.modifyGroup found waits done
          · exact fun first located =>
              done.mono (Batch.locate_group_le located member)

theorem Followed.isOpen
    (followed : surroundings.Followed lifetimes owner
      (batch.setItemStatus position outcome) position.group outcome world batch'
      steps last)
    (open' : batch'.status = .pending) : batch.status = .pending := by
  cases followed with
  | settled ended => exact absurd open' ended
  | invalid waits | dropped waits | waiting waits | finished waits
  | continued waits | stopped waits => exact waits

end Following

/-- A step that the batch can do with. -/
structure Harmless (surroundings : Surroundings) (address id : String)
    (step : Step) : Prop where
  settled : surroundings.Settled step
  clear : surroundings.StartsClear address id step
  progress : surroundings.KeepsProgress address id step

section Applying

variable {hash : String} {route : Route} {outcome : ItemStatus}
  {batch batch' : Batch} {position : Position} {item : Item} {middle : World}
  (inOrder : surroundings.InOrder address id routes past world)
  (sound : world.Sound routes) (member : (hash, route) ∈ routes)
  (leads : route.LeadsTo address id)
  (applied : surroundings.Applied lifetimes hash route.batchId route.address
    outcome world batch batch' position item steps middle)
  (read : surroundings.Harmless address id
    (.readRecord world route.address route.batchId))
  (sending : ∀ step ∈ steps, surroundings.Harmless address id step)
  (write : surroundings.Harmless address id
    (.writeRecord lifetimes middle route.address batch'))

include inOrder member leads applied in
theorem InOrder.turn (isOpen : batch.status = .pending) :
    batch.DoneBefore position.group :=
  inOrder.turns batch ((stored?_congr leads) ▸ applied.stored) isOpen hash route
    leads (.inl member) position applied.located

include sound member applied read sending in
theorem Applied.stored?_before {found : Batch} :
    (∀ step ∈ steps, surroundings.stored? step.world address id = some found →
        surroundings.stored? world address id = some found) ∧
      (surroundings.stored? middle address id = some found →
        surroundings.stored? world address id = some found) :=
  applied.stored?_of_middle sound (sound.found _ member).address read.settled
    fun step member => (sending step member).settled

include sound member leads applied write in
theorem Applied.stored?_written {found : Batch} (shown : surroundings.stored?
    (surroundings.written lifetimes middle route.address batch') address id =
      some found) :
    found = batch' ∨
      surroundings.fault middle.moment (.write (Records.key address id)) ≠ none ∧
        surroundings.stored? middle address id = some found := by
  have clean : Address.Clean route.address := (sound.found _ member).address
  have same : Records.key route.address batch'.id = Records.key address id :=
    (applied.key sound clean).trans leads
  rw [← same]
  exact stored?_after_writeRecord (applied.soundMiddle sound clean) write.settled
    same shown

include inOrder sound member leads applied read sending write

theorem InOrder.succeeded_written : surroundings.Succeeded address id
    (surroundings.written lifetimes middle route.address batch') := by
  intro found shown success
  have stored : surroundings.stored? world address id = some batch :=
    (stored?_congr leads) ▸ applied.stored
  obtain rfl | ⟨-, shown⟩ :=
    applied.stored?_written sound member leads write shown
  · have ended := inOrder.now batch stored
    have closes := applied.followed.closes ended
      (inOrder.turn member leads applied) applied.found applied.waits success
    exact applied.followed.succeeded ended applied.found applied.waits success
      closes
  · have before := (applied.stored?_before sound member read sending).2 shown
    exact inOrder.now found before success

theorem InOrder.turns_written : surroundings.RoutesInTurn address id routes
    (surroundings.written lifetimes middle route.address batch') := by
  intro found shown isOpen other otherRoute otherLeads used
  have clean : Address.Clean route.address := (sound.found _ member).address
  have stored : surroundings.stored? world address id = some batch :=
    (stored?_congr leads) ▸ applied.stored
  have same : Records.key route.address batch'.id = Records.key address id :=
    (applied.key sound clean).trans leads
  -- A route that is used was used before, or the next group has its hash.
  have used : (other, otherRoute) ∈ routes ∨
      surroundings.route? world other = some otherRoute ∨
      steps ≠ [] ∧ ∃ place item,
        batch'.item? ⟨position.group + 1, place⟩ = some item ∧
          item.hash = other :=
    used.imp_right fun shown =>
      applied.route?_of_middle sound clean read.settled
        (fun step member => (sending step member).settled)
        (route?_of_after_writeRecord (applied.soundMiddle sound clean)
          write.settled shown)
  obtain rfl | ⟨fails, shown⟩ :=
    applied.stored?_written sound member leads write shown
  · have wasOpen := applied.followed.isOpen isOpen
    refine applied.followed.inTurn (inOrder.turn member leads applied wasOpen)
      applied.found applied.waits isOpen ?_
    obtain used | used | sent := used
    · exact .inl (inOrder.turns batch stored wasOpen _ _ otherLeads (.inl used))
    · exact .inl (inOrder.turns batch stored wasOpen _ _ otherLeads (.inr used))
    · exact .inr sent
  · have before := (applied.stored?_before sound member read sending).2 shown
    obtain used | used | ⟨sent, -⟩ := used
    · exact inOrder.turns found before isOpen _ _ otherLeads (.inl used)
    · exact inOrder.turns found before isOpen _ _ otherLeads (.inr used)
    · -- The write would have lost a group that has succeeded.
      rw [stored] at before
      cases before
      obtain ⟨inside, complete⟩ := applied.followed.advanced sent
      have kept := write.progress batch' lifetimes.batch (same ▸ rfl) fails batch
        shown position.group inside complete
      have success := (Batch.groupSuccessful_iff.1 kept).2 _ _ applied.found
      rw [applied.waits] at success
      cases success

theorem InOrder.apply :
    surroundings.InOrder address id routes
      (past ++ .readRecord world route.address route.batchId ::
        (steps ++ [.writeRecord lifetimes middle route.address batch']))
      (surroundings.written lifetimes middle route.address batch') where
  before step inAll := by
    simp only [List.mem_append, List.mem_cons, List.not_mem_nil, or_false]
      at inAll
    obtain inPast | rfl | inSteps | rfl := inAll
    · exact inOrder.before step inPast
    · exact inOrder.now
    · exact fun found shown => inOrder.now found
        ((applied.stored?_before sound member read sending).1 step inSteps shown)
    · exact fun found shown => inOrder.now found
        ((applied.stored?_before sound member read sending).2 shown)
  now := inOrder.succeeded_written sound member leads applied read sending write
  turns := inOrder.turns_written sound member leads applied read sending write

end Applying

theorem InOrder.reconcile {hash : String} {route : Route} {outcome : ItemStatus}
    (inOrder : surroundings.InOrder address id routes past world)
    (sound : world.Sound routes) (member : (hash, route) ∈ routes)
    (reconciling : surroundings.Reconciling lifetimes hash route.batchId
      route.address outcome world steps last)
    (harmless : ∀ step ∈ steps, surroundings.Harmless address id step) :
    surroundings.InOrder address id routes (past ++ steps) last := by
  have clean : Address.Clean route.address := (sound.found _ member).address
  have narrow := inOrder.narrow sound reconciling.linked
    (reconciling.writesGenuine sound clean)
    fun step member => (harmless step member).settled
  by_cases leads : route.LeadsTo address id
  case neg => exact narrow (reconciling.spares sound clean leads)
  case pos =>
    cases reconciling with
    | skipped =>
        refine narrow ?_
        simp only [List.forall_mem_cons, List.not_mem_nil, false_implies,
          implies_true, and_true]
        exact ⟨Request.spares_of_unwritten rfl, Request.spares_of_unwritten rfl⟩
    | @applied batch batch' position item steps middle applied =>
        simp only [List.forall_mem_cons, List.forall_mem_append,
          List.not_mem_nil, false_implies, implies_true, and_true] at harmless
        obtain ⟨read, sending, write, remove⟩ := harmless
        have written := inOrder.apply sound member leads applied read sending write
        have removed := written.narrow (applied.soundWritten sound clean)
          (.single surroundings (.removeRoute
            (surroundings.written lifetimes middle route.address batch') hash))
          (List.forall_mem_singleton.2 (.ofUnwritten rfl))
          (List.forall_mem_singleton.2 remove.settled)
          (List.forall_mem_singleton.2 (Request.spares_of_unwritten rfl))
        simpa only [List.append_assoc, List.cons_append, List.nil_append]
          using removed

/-! ## Submissions -/

theorem inOrder_of_absent {past : List Step}
    (before : ∀ step ∈ past, surroundings.Succeeded address id step.world)
    (absent : ∀ found, surroundings.stored? world address id ≠ some found) :
    surroundings.InOrder address id routes past world :=
  ⟨before, fun found stored => absurd stored (absent found),
    fun found stored => absurd stored (absent found)⟩

theorem InOrder.offer {request : BatchRequest} {owner : String}
    {batch batch' : Batch}
    (inOrder : surroundings.InOrder address id [] past world)
    (offered : surroundings.Offered lifetimes request world owner batch batch'
      steps last)
    (sound : world.Sound [])
    (same : Records.key owner request.id = Records.key address id)
    (settled : ∀ step ∈ .readRecord world owner request.id :: steps,
      surroundings.Settled step) :
    (∀ step ∈ past ++ .readRecord world owner request.id :: steps,
        surroundings.Succeeded address id step.world) ∧
      ∀ found, surroundings.stored? last address id ≠ some found := by
  obtain ⟨absent, atEnd⟩ := offered.absent_before_write sound same settled
  constructor
  · intro step member
    obtain inPast | offering := List.mem_append.1 member
    · exact inOrder.before step inPast
    · intro found shown
      rw [absent step offering] at shown
      cases shown
  · intro found shown
    rw [atEnd] at shown
    cases shown

theorem InOrder.submit {request : BatchRequest}
    (inOrder : surroundings.InOrder address id [] past world)
    (sound : world.Sound [])
    (submitting : surroundings.Submitting lifetimes request world steps last)
    (harmless : ∀ step ∈ steps, surroundings.Harmless address id step) :
    surroundings.InOrder address id [] (past ++ steps) last := by
  have settled (step : Step) (member : step ∈ steps) :=
    (harmless step member).settled
  have narrow := inOrder.narrow sound submitting.linked submitting.writesGenuine
    settled
  cases submitting with
  | malformed => simpa using inOrder
  | rejected =>
      exact narrow (List.forall_mem_singleton.2 (Request.spares_of_unwritten rfl))
  | @refused owner batch batch' steps last offered =>
      by_cases same : Records.key owner request.id = Records.key address id
      case neg =>
        exact narrow (List.forall_mem_cons.2
          ⟨Request.spares_of_unwritten rfl, (offered.spares same).1⟩)
      case pos =>
        obtain ⟨before, absent⟩ := inOrder.offer offered sound same settled
        exact inOrder_of_absent before absent
  | @stored owner batch batch' steps last offered taken =>
      by_cases same : Records.key owner request.id = Records.key address id
      case neg =>
        obtain ⟨sends, write⟩ := offered.spares same
        exact narrow (List.forall_mem_cons.2
          ⟨Request.spares_of_unwritten rfl, List.forall_mem_append.2
            ⟨sends, List.forall_mem_singleton.2 write⟩⟩)
      case pos =>
        rw [← List.cons_append] at harmless ⊢
        obtain ⟨offering, write⟩ := List.forall_mem_append.1 harmless
        have write := List.forall_mem_singleton.1 write
        obtain ⟨before, absent⟩ := inOrder.offer offered sound same
          fun step member => (offering step member).settled
        have result (found : Batch) (shown : surroundings.stored?
            (surroundings.written lifetimes last owner batch') address id =
              some found) : found = batch' :=
          (stored?_after_writeRecord (offered.soundLast sound) write.settled
            (offered.key.trans same) shown).resolve_right
              fun kept => absent found kept.2
        refine ⟨fun step member => ?_, fun found shown success => ?_,
          fun found shown isOpen hash route leads used position located => ?_⟩
        · rw [← List.append_assoc] at member
          obtain inFront | atEnd := List.mem_append.1 member
          · exact before step inFront
          · obtain rfl := List.mem_singleton.1 atEnd
            exact fun found shown => absurd shown (absent found)
        · rw [result found shown, offered.sent.status,
            offered.admits.fresh.status] at success
          cases success
        · obtain rfl := result found shown
          have untouched := offered.admits.fresh.untouched.transfer
            (offered.sent.statuses taken)
          have shown := route?_of_after_writeRecord (offered.soundLast sound)
            write.settled (used.resolve_left List.not_mem_nil)
          have isFirst := write.clear _ lifetimes.batch
            (offered.key.trans same ▸ rfl) untouched hash route leads shown
            position located
          rw [isFirst]
          exact Batch.doneBefore_zero

/-- The routes of a batch stay in order through any harmless run. -/
theorem invariant_inOrder :
    Invariant surroundings lifetimes (surroundings.Harmless address id)
      (surroundings.InOrder address id) where
  aside {_ _ world request} sound inOrder harmless isAside :=
    inOrder.narrow sound (.single surroundings ⟨world, request⟩)
      (List.forall_mem_singleton.2 (Request.writesGenuine_of_isAside isAside))
      (List.forall_mem_singleton.2 harmless.settled)
      (List.forall_mem_singleton.2 (Request.spares_of_isAside _ _ isAside))
  found _ inOrder found :=
    ⟨inOrder.before, inOrder.now, fun batch stored isOpen hash route leads used =>
      inOrder.turns batch stored isOpen hash route leads
        (.inr (used.elim (found (hash, route)) fun stored => stored))⟩
  forgotten inOrder :=
    ⟨inOrder.before, inOrder.now, fun batch stored isOpen hash route leads used =>
      inOrder.turns batch stored isOpen hash route leads
        (.inr (used.resolve_left List.not_mem_nil))⟩
  reconciled sound inOrder member _ reconciling harmless :=
    inOrder.reconcile sound member reconciling harmless
  submitted sound inOrder submitting harmless :=
    inOrder.submit sound submitting harmless

/-! ## Closing in turn -/

/-- A batch that counts as successful has succeeded everywhere, now and before
every step. -/
def SucceededThrough (surroundings : Surroundings) (address id : String)
    (past : List Step) (world : World) : Prop :=
  (∀ step ∈ past, surroundings.Succeeded address id step.world) ∧
    surroundings.Succeeded address id world

theorem SucceededThrough.append
    (through : surroundings.SucceededThrough address id past world)
    (links : surroundings.Linked world steps last)
    (kept : ∀ step ∈ steps, surroundings.Succeeded address id step.world →
      surroundings.Succeeded address id (surroundings.after step)) :
    surroundings.SucceededThrough address id (past ++ steps) last :=
  links.keeps_through _ through kept

theorem Succeeded.after {step : Step} (sound : step.world.Sound routes)
    (settled : surroundings.Settled step)
    (unwritten : ∀ value,
      step.request.written? ≠ some (Records.key address id, value))
    (succeeded : surroundings.Succeeded address id step.world) :
    surroundings.Succeeded address id (surroundings.after step) :=
  fun batch stored => succeeded batch (stored?_of_after sound settled unwritten
    stored)

theorem Applied.succeeded {hash batchId owner : String} {outcome : ItemStatus}
    {batch batch' : Batch} {position : Position} {item : Item} {middle : World}
    (applied : surroundings.Applied lifetimes hash batchId owner outcome world
      batch batch' position item steps middle)
    (sound : world.Sound routes) (clean : Address.Clean owner)
    (settled : surroundings.Settled (.writeRecord lifetimes middle owner batch'))
    (start : surroundings.Succeeded address id world)
    (closes : surroundings.ClosesInTurn address id
      (.writeRecord lifetimes middle owner batch'))
    (before : surroundings.Succeeded address id middle) :
    surroundings.Succeeded address id
      (surroundings.written lifetimes middle owner batch') := by
  have soundMiddle := applied.soundMiddle sound clean
  by_cases same : Records.key owner batch'.id = Records.key address id
  case neg =>
    refine before.after soundMiddle settled fun value written => same ?_
    exact congrArg Prod.fst (Option.some.inj written)
  case pos =>
    intro found shown success
    obtain rfl | ⟨-, shown⟩ :=
      stored?_after_writeRecord soundMiddle settled same shown
    · have stored : surroundings.stored? world address id = some batch :=
        (stored?_congr ((applied.key sound clean).symm.trans same)) ▸ applied.stored
      exact applied.followed.succeeded (start batch stored) applied.found
        applied.waits success
        (closes found lifetimes.batch (same ▸ rfl) shown success)
    · exact before found shown success

theorem Reconciling.succeeded {hash batchId owner : String}
    {outcome : ItemStatus}
    (reconciling : surroundings.Reconciling lifetimes hash batchId owner outcome
      world steps last)
    (sound : world.Sound routes) (clean : Address.Clean owner)
    (forward : surroundings.Forward)
    (closes : ∀ step ∈ steps, surroundings.ClosesInTurn address id step)
    (start : surroundings.Succeeded address id world) :
    ∀ step ∈ steps, surroundings.Succeeded address id step.world →
      surroundings.Succeeded address id (surroundings.after step) := by
  have sounds := sound.linked_at reconciling.linked
    (reconciling.writesGenuine sound clean)
  cases reconciling with
  | skipped =>
      intro step member
      refine Succeeded.after (sounds step member) (forward.settled step) ?_
      simp only [List.mem_cons, List.not_mem_nil, or_false] at member
      obtain rfl | rfl := member <;> exact nofun
  | @applied batch batch' position item steps middle applied =>
      intro step member before
      have after := before.after (sounds step member) (forward.settled step)
      simp only [List.mem_cons, List.mem_append, List.not_mem_nil, or_false]
        at member closes
      obtain rfl | sending | rfl | rfl := member
      · exact after nofun
      · exact after ((applied.followed.sends step sending).unwritten _ _)
      · exact applied.succeeded sound clean (forward.settled _) start
          (closes _ (.inr (.inr (.inl rfl)))) before
      · exact after nofun

theorem Submitting.succeeded {request : BatchRequest}
    (submitting : surroundings.Submitting lifetimes request world steps last)
    (sound : world.Sound []) (forward : surroundings.Forward) :
    ∀ step ∈ steps, surroundings.Succeeded address id step.world →
      surroundings.Succeeded address id (surroundings.after step) := by
  have sounds := sound.linked_at submitting.linked submitting.writesGenuine
  intro step member before
  have after := before.after (sounds step member) (forward.settled step)
  cases submitting with
  | malformed => cases member
  | rejected =>
      obtain rfl := List.mem_singleton.1 member
      exact after nofun
  | refused offered =>
      obtain rfl | sending := List.mem_cons.1 member
      · exact after nofun
      · exact after ((offered.sent.sends step sending).unwritten _ _)
  | @stored owner batch batch' steps last offered taken =>
      simp only [List.mem_cons, List.mem_append, List.not_mem_nil, or_false]
        at member
      obtain rfl | sending | rfl := member
      · exact after nofun
      · exact after ((offered.sent.sends step sending).unwritten _ _)
      · by_cases same : Records.key owner batch'.id = Records.key address id
        case neg =>
          refine after fun value written => same ?_
          exact congrArg Prod.fst (Option.some.inj written)
        case pos =>
          intro found shown success
          obtain rfl | ⟨-, shown⟩ := stored?_after_writeRecord
            (offered.soundLast sound) (forward.settled _) same shown
          · rw [offered.sent.status, offered.admits.fresh.status] at success
            cases success
          · exact before found shown success

/-- While a batch closes in turn, it is successful everywhere when it counts as
successful. -/
theorem Forward.invariant_succeeded (forward : surroundings.Forward) :
    Invariant surroundings lifetimes (surroundings.ClosesInTurn address id)
      fun _ => surroundings.SucceededThrough address id where
  aside {_ _ world request} sound through _ isAside :=
    through.append (.single surroundings ⟨world, request⟩)
      (List.forall_mem_singleton.2 fun before =>
        before.after sound (forward.settled _) fun value written =>
          ((Request.spares_of_isAside address id isAside) _ value written).1 rfl)
  found _ through _ := through
  forgotten through := through
  reconciled sound through member _ reconciling closes :=
    through.append reconciling.linked
      (reconciling.succeeded sound (sound.found _ member).address forward closes
        through.2)
  submitted sound through submitting _ :=
    through.append submitting.linked (submitting.succeeded sound forward)

end Surroundings

namespace Run

variable (run : Run)

/-- A batch that is stored as successful has succeeded everywhere, just when it
is never stored as successful before all its groups but the last have succeeded.
That needs no luck but this: no route that is left over when the batch is stored
leads to a later group, and no failed write loses a group that has succeeded. -/
theorem successful_batches_succeeded (forward : run.surroundings.Forward)
    (address id : String) :
    ((∀ world ∈ run.worlds, run.surroundings.Succeeded address id world) ↔
        ∀ step ∈ run.steps, run.surroundings.ClosesInTurn address id step) ∧
      ((∀ step ∈ run.steps, run.surroundings.StartsClear address id step ∧
          run.surroundings.KeepsProgress address id step) →
        ∀ world ∈ run.worlds, run.surroundings.Succeeded address id world) := by
  have absent (batch : Batch) :
      run.surroundings.stored? run.start address id ≠ some batch := by
    rw [run.stored?_start]
    exact nofun
  have start : run.surroundings.Succeeded address id run.start :=
    fun batch stored => absurd stored (absent batch)
  refine ⟨⟨fun succeeded step member => ?_, fun closes => ?_⟩, fun harmless => ?_⟩
  · intro batch ttl _ stored success
    have done := succeeded _ (run.after_mem_worlds member) batch stored success
    exact (Batch.doneBefore_length_iff.2 done).mono (Nat.sub_le _ _)
  · have through := run.holds forward.invariant_succeeded
      ⟨List.forall_mem_nil _, start⟩ closes
    exact run.forall_worlds.2 through.2
  · have inOrder := run.holds Surroundings.invariant_inOrder
      (Surroundings.inOrder_of_absent (List.forall_mem_nil _) absent)
      fun step member => ⟨forward.settled step, (harmless step member).1,
        (harmless step member).2⟩
    exact run.forall_worlds.2 ⟨inOrder.2.before, inOrder.2.now⟩

theorem closes_too_early : Sample.closing.surroundings.Forward ∧
    ¬∀ step ∈ Sample.closing.steps,
      Sample.closing.surroundings.ClosesInTurn Sample.alice "b" step := by
  have forward : Sample.closing.surroundings.Forward :=
    Sample.network_forward Sample.third
  refine ⟨forward, fun inTurn => ?_⟩
  have succeeded := (Sample.closing.successful_batches_succeeded forward
    Sample.alice "b").1.2 inTurn
  have success := (Sample.closing.forall_worlds.1 succeeded).2 _
    Sample.stored?_closing rfl _ List.mem_cons_self
  cases success

/-- Even in calm surroundings a batch may count as successful while an item of
its first group still waits. -/
theorem successful_batch_unfinished : Sample.closing.Calm ∧
    ¬Sample.closing.surroundings.Succeeded Sample.alice "b"
      Sample.closing.final := by
  refine ⟨Sample.run_calm Sample.third _, fun succeeded => ?_⟩
  have success := succeeded _ Sample.stored?_closing rfl _ List.mem_cons_self
  cases success

end Run

end BatchRelay
