import BatchRelay.Proofs.Engine.Changes
import BatchRelay.Proofs.Engine.Interleaving
import BatchRelay.Proofs.Engine.Leftovers
import BatchRelay.Proofs.Engine.RecordReads
import BatchRelay.Proofs.Engine.Visits

/-!
# Changes are announced

Whatever fails during a tick or a sweep, all that its trials have changed is
announced at the end, once for each batch.  And from one version of a record that
is seen during the pass to the next one, only such items change their status as
the pass names by their hash: at the end, or at once when the network has refused
them.

A tick that finds a checkpoint after which there is no nonce overflows, and the
outcomes that its trials have applied by then are never announced.
-/

namespace BatchRelay

namespace Surroundings

/-- Two worlds that show a record, with no world in between that shows it. -/
structure Succeeds (surroundings : Surroundings) (worlds : List World)
    (address id : String) (earlier later : World) (batch batch' : Batch) :
    Prop where
  isEarlier : earlier ∈ worlds
  isLater : later ∈ worlds
  order : earlier.moment < later.moment
  shows : surroundings.stored? earlier address id = some batch
  showsNext : surroundings.stored? later address id = some batch'
  between : ∀ world ∈ worlds, earlier.moment < world.moment →
    world.moment < later.moment → surroundings.stored? world address id = none

/-- A pass that announces all that it changes. -/
structure AnnouncesChanges {α : Type} (surroundings : Surroundings)
    (lifetimes : Lifetimes) (activity : Activity α) (world : World) : Prop where
  /-- At the end every batch with an applied outcome is announced once. -/
  closing : ∃ trials working ending,
    surroundings.steps activity world = working ++ ending ∧
      surroundings.WorksOff lifetimes Route.Clean trials working ∧
      (∀ step ∈ ending, step.request.isAside = true) ∧
      Announces (trials.map Trial.attempt) (published ending)
  /-- From one version of a record to the next, items that change are named. -/
  named : ∀ address id earlier later batch batch',
    surroundings.Succeeds
        ((surroundings.steps activity world).map Step.world ++
          [(surroundings.run activity world).2])
        address id earlier later batch batch' →
      batch.ChangesOnly (fun hash => ∃ owner, batch.address? = some owner ∧
        Names (published (surroundings.steps activity world)) owner batch.id hash)
        batch'

/-- Whether there is an account of a hash: a trial has applied an outcome to it, or
an event names it. -/
def Accounts (trials : List Trial) (steps : List Step)
    (address batchId hash : String) : Prop :=
  hash ∈ changedHashes (trials.map Trial.attempt) address batchId ∨
    Names (published steps) address batchId hash

/-- A pass that breaks off: nothing is announced at the end, and an item that has
changed was either named at once or has taken the outcome of a trial. -/
structure BreaksOff {α : Type} (surroundings : Surroundings)
    (lifetimes : Lifetimes) (activity : Activity α) (world : World) : Prop where
  silent : ∃ trials working ending,
    surroundings.steps activity world = working ++ ending ∧
      surroundings.WorksOff lifetimes Route.Clean trials working ∧
      (∀ step ∈ ending, step.request.isAside = true) ∧ published ending = [] ∧
      ∀ address id earlier later batch batch',
        surroundings.Succeeds
            ((surroundings.steps activity world).map Step.world ++
              [(surroundings.run activity world).2])
            address id earlier later batch batch' →
          batch.ChangesOnly (fun hash => ∃ owner, batch.address? = some owner ∧
            Accounts trials working owner batch.id hash) batch'

variable {surroundings : Surroundings} {lifetimes : Lifetimes}
  {world last earlier later : World} {steps working ending : List Step}
  {trials : List Trial} {address id : String} {batch batch' : Batch}

/-! ## Named hashes -/

theorem mem_changedHashes {trial : Trial} (member : trial ∈ trials)
    {status : BatchStatus} (applied : trial.result = .ok (.applied status)) :
    trial.hash ∈ changedHashes (trials.map Trial.attempt) trial.route.address
      trial.route.batchId := by
  have changes : trial.attempt.changes trial.route.address trial.route.batchId =
      true := by
    simp [Attempt.changes, Attempt.isChange, Trial.attempt, applied,
      Reconciled.isChange]
  exact List.mem_map_of_mem
    (List.mem_filter.2 ⟨List.mem_map_of_mem member, changes⟩)

theorem Accounts.names {owner hash : String}
    (accounts : Accounts trials working owner id hash)
    (announces : Announces (trials.map Trial.attempt) (published ending)) :
    Names (published (working ++ ending)) owner id hash := by
  obtain isChanged | names := accounts
  · have named : Names (published ending) owner id hash :=
      ⟨⟨_, _, _⟩, (announces.mem_iff ⟨_, _, _⟩).2
        ⟨rfl, List.ne_nil_of_mem isChanged⟩, rfl, rfl, isChanged⟩
    exact named.mono (published_subset (List.subset_append_right _ _))
  · exact names.mono (published_subset (List.subset_append_left _ _))

/-! ## From one version to the next -/

theorem mem_of_between {first step other : Step} {front middle back : List Step}
    (ordered : (front ++ (first :: (middle ++ step :: back))).Pairwise
      fun earlier later => earlier.world.moment < later.world.moment)
    (member : other ∈ front ++ (first :: (middle ++ step :: back)))
    (onward : first.world.moment ≤ other.world.moment)
    (before : other.world.moment < step.world.moment) :
    other ∈ first :: middle := by
  rw [List.pairwise_append, List.pairwise_cons, List.pairwise_append] at ordered
  obtain ⟨-, ⟨-, -, fromStep, -⟩, fromFront⟩ := ordered
  rcases List.mem_append.1 member with inFront | atFirst
  · have earlier := fromFront other inFront first List.mem_cons_self
    omega
  · rcases List.mem_cons.1 atFirst with rfl | inRest
    · exact List.mem_cons_self
    · rcases List.mem_append.1 inRest with inMiddle | atStep
      · exact List.mem_cons_of_mem _ inMiddle
      · rcases List.mem_cons.1 atStep with rfl | inBack
        · omega
        · have later := List.rel_of_pairwise_cons fromStep inBack
          omega

theorem eq_of_render (same : batch.render = batch'.render) : batch = batch' := by
  have parsed := congrArg Batch.parse same
  rw [Batch.parse_render, Batch.parse_render] at parsed
  exact Except.ok.inj parsed

theorem exists_entry (sound : world.Sound [])
    (shows : surroundings.stored? world address id = some batch) :
    ∃ entry, (Records.key address id, entry) ∈ world.cache.entries ∧
      entry.value = batch.render := by
  obtain ⟨entry, member, -, rendered⟩ :=
    (value?_eq_some_iff sound.unique).1 (sound.value_of_stored shows)
  exact ⟨entry, member, rendered⟩

theorem eq_of_entry (sound : world.Sound [])
    (shows : surroundings.stored? world address id = some batch) {entry : Entry}
    (member : (Records.key address id, entry) ∈ world.cache.entries)
    (rendered : entry.value = batch'.render) : batch = batch' := by
  obtain ⟨own, isOwn, renders⟩ := exists_entry sound shows
  rw [sound.unique.eq_of_mem isOwn member, rendered] at renders
  exact (eq_of_render renders).symm

/-- Steps of a pass that begins in a sound world. -/
structure Passing (surroundings : Surroundings) (lifetimes : Lifetimes)
    (world : World) (trials : List Trial) (working ending : List Step)
    (last : World) : Prop where
  linked : surroundings.Linked world (working ++ ending) last
  sound : ∀ reached ∈ (working ++ ending).map Step.world ++ [last],
    reached.Sound []
  worksOff : surroundings.WorksOff lifetimes Route.Clean trials working
  aside : ∀ step ∈ ending, step.request.isAside = true

namespace Passing

variable (passing : surroundings.Passing lifetimes world trials working ending last)

include passing

theorem rewrites {step : Step} (member : step ∈ working ++ ending) {entry : Entry}
    (absent : (Records.key address id, entry) ∉ step.world.cache.entries)
    (present : (Records.key address id, entry) ∈
      (surroundings.after step).cache.entries) :
    ∃ trial ∈ trials, ∃ read original stored,
      surroundings.Rewrites lifetimes trial read step original stored ∧
        Records.key trial.route.address stored.id = Records.key address id ∧
        entry.value = stored.render := by
  have written := (mem_after_cases present).resolve_left absent
  have notAside : step.request.isAside ≠ true := fun isAside =>
    Request.touched?_of_isAside isAside (isTracked_recordKey address id)
      (Request.touched?_of_written? written)
  have inWorking := (List.mem_append.1 member).resolve_right fun inEnding =>
    notAside (passing.aside step inEnding)
  obtain ⟨trial, isTrial, inTrial⟩ :=
    (passing.worksOff.works.cases_of_mem inWorking).resolve_left notAside
  obtain ⟨attempts, -⟩ := passing.worksOff.works.split isTrial
  obtain ⟨read, original, stored, rewrites⟩ :=
    attempts.rewrites inTrial absent present
  rw [rewrites.stores] at written
  have same := Option.some.inj written
  exact ⟨trial, isTrial, read, original, stored, rewrites,
    congrArg Prod.fst same, (congrArg Prod.snd same).symm⟩

section Rewriting

variable {trial : Trial} {read : World} {step : Step} {original stored : Batch}
  (isTrial : trial ∈ trials)
  (rewrites : surroundings.Rewrites lifetimes trial read step original stored)

include isTrial rewrites

theorem split : ∃ front middle back,
    working ++ ending = front ++
      (.readRecord read trial.route.address trial.route.batchId ::
        (middle ++ step :: back)) ∧
    ∀ other ∈ middle, ∀ address id,
      other.request.touched? ≠ some (Records.key address id) := by
  obtain ⟨-, front, back, isWorking⟩ := passing.worksOff.works.split isTrial
  obtain ⟨middle, rest, steps, untouched⟩ := rewrites.steps
  refine ⟨front, middle, rest ++ (back ++ ending), ?_, untouched⟩
  simp [isWorking, steps]

theorem read_mem : read ∈ (working ++ ending).map Step.world ++ [last] := by
  obtain ⟨front, middle, back, steps, -⟩ := passing.split isTrial rewrites
  simp [steps, Step.readRecord]

theorem read_before : read.moment < step.world.moment := by
  have ordered := passing.linked.pairwise_moment
  obtain ⟨front, middle, back, steps, -⟩ := passing.split isTrial rewrites
  rw [steps, List.pairwise_append, List.pairwise_cons] at ordered
  exact ordered.2.1.1 step (by simp)

/-- Until the trial stores, nobody writes the record that it has read. -/
theorem mem_read {reached : World}
    (isReached : reached ∈ (working ++ ending).map Step.world ++ [last])
    (onward : read.moment ≤ reached.moment)
    (before : reached.moment ≤ step.world.moment) {entry : Entry}
    (member : (Records.key address id, entry) ∈ reached.cache.entries) :
    (Records.key address id, entry) ∈ read.cache.entries := by
  obtain ⟨front, middle, back, steps, untouched⟩ := passing.split isTrial rewrites
  have isRead := passing.read_mem isTrial rewrites
  apply Decidable.byContradiction
  intro absent
  obtain ⟨other, isOther, afterRead, beforeReached, notYet, now⟩ :=
    passing.linked.exists_step_between
      (fun world => (Records.key address id, entry) ∈ world.cache.entries)
      isRead isReached onward absent member
  have ordered := passing.linked.pairwise_moment
  rw [steps] at isOther ordered
  have written := (mem_after_cases now).resolve_left notYet
  rcases List.mem_cons.1 (mem_of_between ordered isOther afterRead (by omega))
    with rfl | inMiddle
  · cases written
  · exact untouched other inMiddle address id (Request.touched?_of_written? written)

theorem reads_version
    (succeeds : surroundings.Succeeds
      ((working ++ ending).map Step.world ++ [last]) address id earlier later batch
      batch')
    (sameKey : Records.key trial.route.address stored.id =
      Records.key address id)
    (onward : earlier.moment ≤ step.world.moment)
    (before : step.world.moment < later.moment) : original = batch := by
  have isRead := passing.read_mem isTrial rewrites
  obtain ⟨-, named⟩ := (passing.sound read isRead).proper_of_stored
    (passing.worksOff.admitted trial isTrial).address rewrites.found
  rw [rewrites.id, named] at sameKey
  have found := rewrites.found
  rw [stored?, sameKey] at found
  have notLater : read.moment ≤ earlier.moment := by
    apply Nat.not_lt.1
    intro afterEarlier
    have order := passing.read_before isTrial rewrites
    have unseen := succeeds.between read isRead afterEarlier (by omega)
    rw [stored?, found] at unseen
    cases unseen
  obtain ⟨entry, member, renders⟩ := exists_entry
    (passing.sound earlier succeeds.isEarlier) succeeds.shows
  have inRead := passing.mem_read isTrial rewrites succeeds.isEarlier notLater onward
    member
  exact eq_of_entry (passing.sound read isRead) found inRead renders

end Rewriting

theorem rewrites_changes {trial : Trial} (isTrial : trial ∈ trials) {read : World}
    {step : Step}
    (rewrites : surroundings.Rewrites lifetimes trial read step batch batch') :
    batch.ChangesOnly (fun hash => ∃ owner, batch.address? = some owner ∧
      Accounts trials working owner batch.id hash) batch' := by
  have isRead := passing.read_mem isTrial rewrites
  obtain ⟨proper, named⟩ := (passing.sound read isRead).proper_of_stored
    (passing.worksOff.admitted trial isTrial).address rewrites.found
  obtain ⟨-, front, back, steps⟩ := passing.worksOff.works.split isTrial
  rw [named]
  apply rewrites.changes.mono
  rintro hash (rfl | names)
  · exact ⟨_, proper.sender, .inl (mem_changedHashes isTrial rewrites.result)⟩
  · have subset : trial.steps ⊆ working := by
      rw [steps]
      exact fun _ member => by simp [member]
    exact ⟨_, proper.sender, .inr (names.mono (published_subset subset))⟩

/-- Either the record still has its entry, or a step in between has written it; then
the trial of this step has read the version before. -/
theorem succeeds_changes
    (succeeds : surroundings.Succeeds
      ((working ++ ending).map Step.world ++ [last]) address id earlier later batch
      batch') :
    batch.ChangesOnly (fun hash => ∃ owner, batch.address? = some owner ∧
      Accounts trials working owner batch.id hash) batch' := by
  obtain ⟨entry, isEntry, renders⟩ := exists_entry
    (passing.sound later succeeds.isLater) succeeds.showsNext
  by_cases kept : (Records.key address id, entry) ∈ earlier.cache.entries
  · have soundEarlier := passing.sound earlier succeeds.isEarlier
    cases eq_of_entry soundEarlier succeeds.shows kept renders
    exact .refl _ _
  · obtain ⟨step, isStep, onward, before, absent, present⟩ :=
      passing.linked.exists_step_between
        (fun reached => (Records.key address id, entry) ∈ reached.cache.entries)
        succeeds.isEarlier succeeds.isLater (Nat.le_of_lt succeeds.order) kept isEntry
    obtain ⟨trial, isTrial, read, original, stored, rewrites, sameKey, value⟩ :=
      passing.rewrites isStep absent present
    cases eq_of_render (value.symm.trans renders)
    cases passing.reads_version isTrial rewrites succeeds sameKey onward before
    exact passing.rewrites_changes isTrial rewrites

end Passing

/-! ## Passes -/

section Announcing

variable {α : Type} {activity : Activity α} {completed : α → Prop}
  (announcing : surroundings.Announcing lifetimes (World.Sound [])
    (fun step => step.request.WritesGenuine) Route.Clean completed activity)
  (sound : world.Sound [])

include announcing sound

theorem Announcing.passing : ∃ trials working ending,
    surroundings.steps activity world = working ++ ending ∧
      surroundings.Concludes lifetimes Route.Clean
        (completed (surroundings.run activity world).1) trials working ending ∧
      surroundings.Passing lifetimes world trials working ending
        (surroundings.run activity world).2 := by
  obtain ⟨soundSteps, soundLast, trials, working, ending, steps, concludes⟩ :=
    announcing.alone sound fun _ sound writes => sound.step writes
  refine ⟨trials, working, ending, steps, concludes, ?_⟩
  rw [steps] at soundSteps
  refine ⟨?_, ?_, concludes.worksOff, concludes.aside⟩
  · rw [← steps]
    exact surroundings.linked activity
  · rw [List.forall_mem_append, List.forall_mem_map, List.forall_mem_singleton]
    exact ⟨soundSteps, soundLast⟩

theorem Announcing.announcesChanges
    (done : completed (surroundings.run activity world).1) :
    surroundings.AnnouncesChanges lifetimes activity world := by
  obtain ⟨trials, working, ending, steps, concludes, passing⟩ :=
    announcing.passing sound
  have announces : Announces (trials.map Trial.attempt) (published ending) := by
    rw [concludes.announces done]
    exact announcements_announces _
  constructor
  case closing =>
    exact ⟨trials, working, ending, steps, concludes.worksOff, concludes.aside,
      announces⟩
  case named =>
    rw [steps]
    intro address id earlier later batch batch' succeeds
    apply (passing.succeeds_changes succeeds).mono
    rintro hash ⟨owner, isOwner, accounts⟩
    exact ⟨owner, isOwner, accounts.names announces⟩

theorem Announcing.breaksOff
    (broken : ¬completed (surroundings.run activity world).1) :
    surroundings.BreaksOff lifetimes activity world := by
  obtain ⟨trials, working, ending, steps, concludes, passing⟩ :=
    announcing.passing sound
  refine ⟨trials, working, ending, steps, concludes.worksOff, concludes.aside,
    concludes.breaksOff broken, ?_⟩
  rw [steps]
  exact fun _ _ _ _ _ _ => passing.succeeds_changes

end Announcing

theorem AnnouncesChanges.published_ne_nil {α : Type} {activity : Activity α}
    (announces : surroundings.AnnouncesChanges lifetimes activity world)
    (sound : ∀ reached ∈ (surroundings.steps activity world).map Step.world ++
      [(surroundings.run activity world).2], reached.Sound []) {entry : Entry}
    (absent : (Records.key address id, entry) ∉ world.cache.entries)
    (present : (Records.key address id, entry) ∈
      (surroundings.run activity world).2.cache.entries) :
    published (surroundings.steps activity world) ≠ [] := by
  obtain ⟨trials, working, ending, steps, worksOff, aside, closing⟩ :=
    announces.closing
  have linked : surroundings.Linked world _ _ := surroundings.linked activity
  rw [steps] at linked sound ⊢
  have passing : surroundings.Passing lifetimes world trials working ending
      (surroundings.run activity world).2 := ⟨linked, sound, worksOff, aside⟩
  obtain ⟨step, isStep, -, notYet, now⟩ := linked.exists_step
    (fun reached => (Records.key address id, entry) ∈ reached.cache.entries)
    (List.mem_append_right _ (List.mem_singleton_self _)) absent present
  obtain ⟨trial, isTrial, _, _, _, rewrites, -⟩ :=
    passing.rewrites isStep notYet now
  have isChanged := mem_changedHashes isTrial rewrites.result
  have announced := (closing.mem_iff ⟨_, _, _⟩).2
    ⟨rfl, List.ne_nil_of_mem isChanged⟩
  exact List.ne_nil_of_mem
    (published_subset (List.subset_append_right working ending) announced)

theorem published_eq_nil {α : Type} {activity : Activity α}
    {happenings : List Happening}
    (grows : (surroundings.run activity world).2.journal =
      happenings ++ world.journal)
    (silent : ∀ event, .published event ∉ happenings) :
    published (surroundings.steps activity world) = [] := by
  have linked : surroundings.Linked world _ _ := surroundings.linked activity
  rw [linked.journal_eq, List.append_cancel_right_eq] at grows
  rw [published, List.filterMap_eq_nil_iff]
  rintro ⟨reached, request⟩ member
  cases request with
  | publish event =>
      refine absurd ?_ (silent event)
      rw [← grows]
      exact List.mem_flatMap.2 ⟨_, List.mem_reverse.2 member,
        List.mem_singleton_self _⟩
  | _ => rfl

end Surroundings

/-- After any run a sweep announces all that it changes, and so does a tick, unless
it finds a checkpoint after which there is no nonce: then it breaks off. -/
theorem Run.changes_announced (run : Run) :
    (∀ settings,
      let tick := Watch.tick run.lifetimes settings
      let found := run.surroundings.FindsLast
        (run.surroundings.steps tick run.final)
      (¬found ∧ (∃ ran, (run.surroundings.run tick run.final).1 = .ok ran) ∧
        run.surroundings.AnnouncesChanges run.lifetimes tick run.final) ∨
      (found ∧ (run.surroundings.run tick run.final).1 = .error .nonce ∧
        run.surroundings.BreaksOff run.lifetimes tick run.final)) ∧
    ∀ settings now, run.surroundings.AnnouncesChanges run.lifetimes
      (Sweep.runAt run.lifetimes settings now) run.final := by
  have reliance := run.surroundings.reliance_sound run.lifetimes
  have sound := run.sound_final.1
  constructor
  · intro settings tick found
    have announcing := reliance.announcing_tick settings
    have performs := run.surroundings.steps_performs tick run.final
    cases result : (run.surroundings.run tick run.final).1 with
    | ok ran =>
        refine .inl ⟨fun isFound => ?_, ⟨ran, rfl⟩,
          announcing.announcesChanges sound ⟨ran, result⟩⟩
        have overflows := performs.tick_eq_error_iff.2 ⟨isFound, rfl⟩
        rw [result] at overflows
        cases overflows
    | error overflow =>
        obtain ⟨isFound, rfl⟩ := performs.tick_eq_error_iff.1 result
        refine .inr ⟨isFound, rfl, announcing.breaksOff sound ?_⟩
        rintro ⟨ran, isRan⟩
        rw [result] at isRan
        cases isRan
  · intro settings now
    exact (reliance.announcing_sweepAt settings now).announcesChanges sound trivial

/-! ## A tick that breaks off -/

/-- Two transactions that a network takes at any time, in surroundings where nothing
fails. -/
structure Couple (surroundings : Surroundings) (address id : String)
    (one other : HashedTransaction) : Prop where
  works : ∀ moment access, surroundings.fault moment access = none
  clean : Address.Clean address
  named : id ≠ "" ∧ ';' ∉ id.toList
  oneValid : one.Valid address
  otherValid : other.Valid address
  distinct : one.hash ≠ other.hash
  takesOne : ∀ moment, surroundings.send moment one.payload = .ok one.hash
  takesOther : ∀ moment, surroundings.send moment other.payload = .ok other.hash

namespace Couple

open Surroundings

/-- A batch of one group with both transactions. -/
def batch (id : String) (one other : HashedTransaction) (first second : ItemStatus)
    (status : BatchStatus) : Batch :=
  ⟨id, [⟨[⟨one, first, none⟩, ⟨other, second, none⟩]⟩], status, none⟩

/-- The batch is submitted, and a tick follows. -/
def commands (id : String) (one other : HashedTransaction) (shard : UInt32) :
    List Command :=
  [.submit (.ofGroups id [[one, other]]) none, .tick ⟨[shard], 0⟩]

variable {address id : String} {one other : HashedTransaction}

theorem submits {surroundings : Surroundings} {world : World}
    (couple : Couple surroundings address id one other)
    (shows : world.Shows address id (fun _ => none) false []) :
    ∃ text? sendings since,
      (surroundings.run (submit .forever (.ofGroups id [[one, other]]) none)
          world).2.Shows address id text? false sendings ∧
      text? (Records.key address id) =
        some (batch id one other .pending .pending .pending).render ∧
      text? (Routes.key one.hash) = some (Route.encode ⟨id, address, since⟩) ∧
      text? (Routes.key other.hash) = some (Route.encode ⟨id, address, since⟩) ∧
      ∀ shard, text? (Checkpoints.key shard) = none := by
  have passes : (BatchRequest.ofGroups id [[one, other]]).Passes none address
      (batch id one other .pending .pending .pending) :=
    BatchRequest.passes_ofGroups couple.named (by simp) (by simp)
      (by simp [couple.oneValid, couple.otherValid])
  have taken : (batch id one other .pending .pending .pending).invalidHashesAt 0 =
      [] := by
    simp [Batch.invalidHashesAt, batch, Group.invalidHashes]
  have starts (opened : World)
      (opens : opened.Shows address id (fun _ => none) false []) :
      surroundings.Yields
        (startGroup .forever (batch id one other .pending .pending .pending) 0)
        opened (batch id one other .pending .pending .pending) address id
        (fun key => if key = Routes.key other.hash then
            some (Route.encode ⟨id, address, surroundings.now opened.moment⟩)
          else if key = Routes.key one.hash then
            some (Route.encode ⟨id, address, surroundings.now opened.moment⟩)
          else none) false
        [(⟨0, 1⟩, .ok other.hash), (⟨0, 0⟩, .ok one.hash)] := by
    refine yields_startGroup opens (congrArg some couple.oneValid.sender) rfl rfl ?_
    intro next _ nexts
    refine yields_sendItems_taken nexts couple.works ⟨rfl, rfl⟩
      (couple.takesOne _) ?_
    intro second _ seconds
    refine yields_sendItems_taken seconds couple.works ⟨rfl, rfl⟩
      (couple.takesOther _) ?_
    intro last _ lasts
    exact yields_sendItems_nil lasts
  have stored := shows.submit (batch id one other .pending .pending .pending)
    couple.works passes rfl rfl (fun opened moment opens => moment ▸ starts opened opens)
    rfl taken
  exact ⟨_, _, surroundings.now (world.moment + 1), stored, by simp,
    by simp, by simp, by simp⟩

section Runs

variable {run : Run} {shard last : UInt32} {latest height : UInt64}
  {transaction found : ObservedTransaction}
  (couple : Couple run.surroundings address id one other)
  (forever : run.lifetimes = .forever)
  (given : run.commands = commands id one other last)
  (confirms : run.surroundings.Confirms last height found)
  (isOther : found.hash = other.hash)

include couple forever given confirms isOther

theorem shows_commands : ∃ text? sendings since,
    run.final.Shows address id text? false sendings ∧
      text? (Records.key address id) =
        some (batch id one other .pending .success .pending).render ∧
      text? (Routes.key one.hash) = some (Route.encode ⟨id, address, since⟩) ∧
      text? (Checkpoints.key last) = some (Checkpoints.encode height) ∧
      ∀ shard, Checkpoints.key shard ≠ Checkpoints.key last →
        text? (Checkpoints.key shard) = none := by
  obtain ⟨text?, sendings, since, shows, stored, routedOne, routedOther,
    unvisited⟩ := couple.submits (run.shows_start address id)
  have located : (batch id one other .pending .pending .pending).locate
      found.hash = some ⟨0, 1⟩ := by
    simp [isOther, Batch.locate, Batch.locateFrom, batch, Item.hash,
      List.findIdx?_cons, couple.distinct]
  have ticked := shows.tick 0 couple.works rfl confirms (unvisited last)
    (isOther ▸ routedOther) ⟨couple.clean, couple.named.2⟩
    (batch id one other .pending .success .pending) stored located rfl rfl
    (fun _ _ opens => yields_follow_waiting rfl opens rfl) rfl
  rw [run.final_eq_worldAfter given, Run.worldAfter, forever]
  simp only [commands, run_performAll_cons, run_perform_submit, run_perform_tick]
  exact ⟨_, sendings, since, ticked, by simp, by
    simp [isOther, couple.distinct, routedOne], by simp [Checkpoints.encode], by
    simp +contextual [unvisited]⟩

theorem breaks_off (confirmsOne : run.surroundings.Confirms shard latest transaction)
    (isOne : transaction.hash = one.hash)
    (elsewhere : Checkpoints.key last ≠ Checkpoints.key shard)
    (overflows : Watch.startNonce (some height) height 0 = .error .nonce) :
    (run.surroundings.run (Watch.tick run.lifetimes ⟨[shard, last], 0⟩)
        run.final).1 = .error .nonce ∧
      ¬run.surroundings.AnnouncesChanges run.lifetimes
        (Watch.tick run.lifetimes ⟨[shard, last], 0⟩) run.final := by
  obtain ⟨text?, sendings, since, shows, stored, routed, visited, unvisited⟩ :=
    couple.shows_commands forever given confirms isOther
  let closed := batch id one other .success .success .success
  have located : (batch id one other .pending .success .pending).locate
      transaction.hash = some ⟨0, 0⟩ := by
    simp [isOne, Batch.locate, Batch.locateFrom, batch, Item.hash,
      List.findIdx?_cons]
  have reconciled (opened : World)
      (opens : opened.Shows address id text? true sendings) :=
    opens.reconciles closed couple.works stored located rfl rfl
      (fun _ _ shows => yields_follow_finished rfl rfl shows rfl) rfl
  obtain ⟨world, ticked, ending, isWorld⟩ := shows.tick_overflows 0 couple.works rfl
    confirmsOne (unvisited shard (Ne.symm elsewhere)) (isOne ▸ routed)
    ⟨couple.clean, couple.named.2⟩ (fun opened _ => reconciled opened) elsewhere
    (by simp [visited]) confirms.asked overflows
  have opens : (run.surroundings.afterAll run.final (Watch.opening shard latest
      transaction.hash)).Shows address id text? true sendings :=
    shows.opening shard latest transaction.hash
  have grows : world.journal = [.askedLatest last, .askedBlock shard latest,
      .askedLatest shard] ++ run.final.journal := by
    rw [isWorld, run_reconcile (couple.works _ _) (opens.stored? stored) located rfl
      rfl, run_follow_finished rfl rfl rfl]
    simp [afterAll, journal_after, happened, written, Step.writeRecord,
      Step.removeRoute, Step.readRecord, Watch.opening]
  have absent : (Records.key address id, ⟨closed.render, none⟩) ∉
      run.final.cache.entries := by
    rw [← shows.everlasting.text, stored]
    intro same
    have unchanged := eq_of_render (Option.some.inj same)
    simp [closed, batch] at unchanged
  have present : (Records.key address id, ⟨closed.render, none⟩) ∈
      world.cache.entries := by
    rw [← ending.everlasting.text]
    simp
  have reliance := run.surroundings.reliance_sound run.lifetimes
  obtain ⟨_, _, _, steps, -, passing⟩ :=
    (reliance.announcing_tick ⟨[shard, last], 0⟩).passing run.sound_final.1
  have sound := passing.sound
  rw [← steps] at sound
  rw [← forever] at ticked
  have result := congrArg Prod.fst ticked
  obtain rfl := congrArg Prod.snd ticked
  exact ⟨result, fun announces => announces.published_ne_nil sound absent present
    (published_eq_nil grows (by simp))⟩

end Runs

end Couple

namespace Sample

/-- A network whose first shard shows one transfer, and whose second shard shows
another one in the last block of all. -/
def ended : Surroundings :=
  { network third with
    latestNonce := fun _ shard => .ok (if shard = 0 then 5 else Watch.lastNonce)
    block := fun _ shard _ => .ok [seen (if shard = 0 then first else third)] }

theorem ended_send : ended.send = (network third).send := by
  simp only [ended]

theorem couple : Couple ended alice "b" first third where
  works _ _ := rfl
  clean := alice_clean
  named := by decide
  oneValid := first_valid
  otherValid := third_valid
  distinct := by decide
  takesOne moment := by
    rw [ended_send]
    exact (retry third).takesFirst moment
  takesOther moment := by
    rw [ended_send]
    exact (retry third).takesThird moment

/-- A run that has read the second shard to the last block of all. -/
def cutOff : Run :=
  ⟨ended, .forever, .memory .empty, Cache.entries_empty,
    Couple.commands "b" first third 1⟩

end Sample

/-- A change may be stored by a tick that is not announced: the tick overflows at a
later shard. -/
theorem Run.change_unannounced :
    let run := Sample.cutOff
    let tick := Watch.tick run.lifetimes ⟨[0, 1], 0⟩
    (run.surroundings.run tick run.final).1 = .error .nonce ∧
      ¬run.surroundings.AnnouncesChanges run.lifetimes tick run.final := by
  have couple : Couple Sample.cutOff.surroundings Sample.alice "b" Sample.first
      Sample.third := Sample.couple
  have confirms : Sample.cutOff.surroundings.Confirms 1 Watch.lastNonce
      (Sample.seen Sample.third) := ⟨fun _ => rfl, fun _ => rfl, rfl⟩
  have confirmsOne : Sample.cutOff.surroundings.Confirms 0 5
      (Sample.seen Sample.first) := ⟨fun _ => rfl, fun _ => rfl, rfl⟩
  exact couple.breaks_off rfl rfl confirms rfl confirmsOne rfl Sample.elsewhere
    (Watch.startNonce_last (by decide))

end BatchRelay
