import BatchRelay.Proofs.Engine.Resolutions
import BatchRelay.Proofs.Engine.Submissions
import BatchRelay.Proofs.Guarantees.AwaitedItems

/-!
# Outcomes that come during a submission

The routes of a new batch can be found before its record is stored, and passes
that go on meanwhile deal with every outcome for which they find a route.  An
outcome that is dealt with when the record is there is kept: the item has an
outcome from then on.  It is lost when its reconciliation looks for the record
too early: the route is removed all the same, and the item waits for ever.

An outcome can also be lost when two passes change the record at the same time
and the later one has not seen what the earlier one stored.
-/

namespace BatchRelay

namespace Trial

/-- A trial that removes the route of a hash after it was written and has not
found the record: it looked elsewhere, or before the record was stored. -/
structure Misses (trial : Trial) (address id hash : String)
    (indexed stored : World) : Prop where
  isHash : trial.hash = hash
  removes : ∃ removed, indexed.moment < removed.moment ∧
    .removeRoute removed hash ∈ trial.steps
  vainly : ¬trial.route.LeadsTo address id ∨
    trial.result = .ok .batchMissing ∧
      ∃ read, read.moment < stored.moment ∧
        .readRecord read address id ∈ trial.steps

/-- A trial that reads the record after it was stored, and changes it when
another trial has changed it in between. -/
def Overwrites (trial other : Trial) (address id : String) (stored : World) :
    Prop :=
  ∃ read, stored.moment < read.moment ∧
    .readRecord read address id ∈ trial.steps ∧
    ∃ between ∈ other.steps, ∃ write ∈ trial.steps,
      between.request.touched? = some (Records.key address id) ∧
      write.request.touched? = some (Records.key address id) ∧
      read.moment < between.world.moment ∧
      between.world.moment < write.world.moment

end Trial

namespace Surroundings

/-- Whether the item at a place of the first group of a stored batch, where its
hash is located, has an outcome. -/
def Ended (surroundings : Surroundings) (world : World) (address id hash : String)
    (place : Nat) : Prop :=
  ∃ batch item, surroundings.stored? world address id = some batch ∧
    batch.locate hash = some ⟨0, place⟩ ∧
    batch.item? ⟨0, place⟩ = some item ∧ item.status.isTerminal = true

variable {surroundings : Surroundings} {lifetimes : Lifetimes}
  {world last : World} {address id hash : String} {place : Nat}
  {batch batch' : Batch} {step : Step} {steps : List Step}

/-! ## A submission among passes -/

section Amid

variable {ι : Type} [DecidableEq ι]

/-- A submission that is taken on while passes go on, and their trials. -/
structure Amid (surroundings : Surroundings) (lifetimes : Lifetimes)
    (address : String) (request : BatchRequest) (world : World)
    (turns : List (ι × Step)) (last : World) (submitter : ι)
    (trials : ι → List Trial) (checked put : World) (batch : Batch) :
    Prop where
  proceeds : surroundings.Proceeds world (turns.map Prod.snd) last
  works : ∀ who, who ≠ submitter →
    surroundings.Works lifetimes (trials who) (ownSteps turns who)
  clean : ∀ who, who ≠ submitter → ∀ trial ∈ trials who, trial.route.Clean
  takenOn : ∃ result, TakenOn lifetimes address request checked put batch
    (ownSteps turns submitter) result
  absent : surroundings.stored? checked address request.id = none

variable {request : BatchRequest} {turns : List (ι × Step)}
  {submitter who other : ι} {trials : ι → List Trial} {trial : Trial}
  {checked put : World}

namespace Amid

variable (amid : surroundings.Amid lifetimes address request world turns last
  submitter trials checked put batch)

include amid

theorem checked_mem : .readRecord checked address request.id ∈
    turns.map Prod.snd := by
  rcases amid.takenOn with ⟨result, takenOn⟩
  exact mem_of_ownSteps takenOn.checked_mem

theorem put_mem : .writeRecord lifetimes put address batch ∈
    turns.map Prod.snd := by
  rcases amid.takenOn with ⟨result, takenOn⟩
  exact mem_of_ownSteps takenOn.stored_mem

theorem key : Records.key address batch.id = Records.key address request.id := by
  rcases amid.takenOn with ⟨result, takenOn⟩
  rw [takenOn.id]

theorem eq_put (own : step ∈ ownSteps turns submitter)
    (touched : step.request.touched? = some (Records.key address request.id)) :
    step = .writeRecord lifetimes put address batch := by
  rcases amid.takenOn with ⟨result, takenOn⟩
  exact takenOn.eq_of_touched own touched

theorem put_or_pass (member : step ∈ turns.map Prod.snd)
    (touched : step.request.touched? = some (Records.key address request.id)) :
    step = .writeRecord lifetimes put address batch ∨
      ∃ who, who ≠ submitter ∧ step ∈ ownSteps turns who := by
  rcases exists_ownSteps member with ⟨who, own⟩
  by_cases isSubmitter : who = submitter
  · subst isSubmitter
    exact .inl (amid.eq_put own touched)
  · exact .inr ⟨who, isSubmitter, own⟩

section Trials

variable (isOther : who ≠ submitter) (tried : trial ∈ trials who)

include isOther tried

theorem trial_sublist : trial.steps.Sublist (ownSteps turns who) := by
  rcases ((amid.works who isOther).split tried).2 with ⟨front, back, steps⟩
  rw [steps]
  exact ((List.sublist_append_left _ _).trans (List.sublist_append_right _ _))

theorem trial_mem (member : step ∈ trial.steps) : step ∈ turns.map Prod.snd :=
  mem_of_ownSteps ((amid.trial_sublist isOther tried).subset member)

theorem trial_ordered : trial.steps.Pairwise fun earlier later =>
    earlier.world.moment < later.world.moment :=
  amid.proceeds.linked.pairwise_moment.sublist
    ((amid.trial_sublist isOther tried).trans ownSteps_sublist)

theorem mem_trial_of_between {first final : Step} (isFirst : first ∈ trial.steps)
    (isFinal : final ∈ trial.steps) (own : step ∈ ownSteps turns who)
    (since : first.world.moment ≤ step.world.moment)
    (upTo : step.world.moment ≤ final.world.moment) : step ∈ trial.steps := by
  rcases ((amid.works who isOther).split tried).2 with ⟨front, back, steps⟩
  have ordered : (ownSteps turns who).Pairwise _ :=
    amid.proceeds.linked.pairwise_moment.sublist ownSteps_sublist
  rw [steps] at own ordered
  rcases List.pairwise_append.1 ordered with ⟨-, rest, before⟩
  rcases List.mem_append.1 own with inFront | inRest
  · have order := before step inFront first (List.mem_append_left _ isFirst)
    exact absurd since (Nat.not_le_of_lt order)
  rcases List.mem_append.1 inRest with inTrial | inBack
  · exact inTrial
  · have order := (List.pairwise_append.1 rest).2.2 final isFinal step inBack
    exact absurd upTo (Nat.not_le_of_lt order)

theorem resolves : surroundings.Resolves lifetimes trial := by
  have attempts := ((amid.works who isOther).split tried).1
  apply attempts.resolves (amid.clean who isOther trial tried)
  · intro step member
    exact (amid.proceeds.calm step (amid.trial_mem isOther tried member)).works
  · intro step member
    exact amid.proceeds.sound step (amid.trial_mem isOther tried member)

end Trials

theorem pass_touched {owner ownerId : String} (isOther : who ≠ submitter)
    (own : step ∈ ownSteps turns who)
    (touched : step.request.touched? = some (Records.key owner ownerId)) :
    ∃ trial ∈ trials who, ∃ read stored removed found changed,
      surroundings.Stores lifetimes trial read stored removed found changed ∧
      step = .writeRecord lifetimes stored trial.route.address changed ∧
      trial.route.LeadsTo owner ownerId := by
  rcases (amid.works who isOther).cases_of_mem own with
    isAside | ⟨trial, tried, member⟩
  · exact absurd touched
      (Request.touched?_of_isAside isAside (isTracked_recordKey _ _))
  refine ⟨trial, tried, ?_⟩
  cases amid.resolves isOther tried with
  | missing steps | left steps =>
      rw [steps] at member
      simp only [List.mem_cons, List.not_mem_nil, or_false] at member
      rcases member with rfl | rfl
      · cases touched
      · exact absurd (Option.some.inj touched).symm
          (Records.key_ne_routeKey _ _ _)
  | stored stores =>
      rcases stores.eq_of_touched member touched with ⟨rfl, leads⟩
      exact ⟨_, _, _, _, _, stores, rfl, leads⟩

theorem onlyStores :
    ∀ step ∈ turns.map Prod.snd, OnlyStores lifetimes address request.id step := by
  intro step member touched
  rcases amid.put_or_pass member touched with rfl | ⟨who, isOther, own⟩
  · exact ⟨address, batch, amid.key, rfl⟩
  · rcases amid.pass_touched isOther own touched with
      ⟨trial, -, _, _, _, _, changed, stores, rfl, leads⟩
    refine ⟨trial.route.address, changed, ?_, rfl⟩
    rw [stores.id]
    exact leads

/-! ## Before the record is stored -/

theorem absent_until : ∀ step ∈ turns.map Prod.snd,
    step.world.moment ≤ put.moment →
      surroundings.stored? step.world address request.id = none := by
  intro step member before
  rcases Nat.le_total step.world.moment checked.moment with early | late
  · refine Decidable.byContradiction fun found => ?_
    exact amid.proceeds.stays_stored_since amid.onlyStores member amid.checked_mem
      early found amid.absent
  rcases amid.proceeds.since amid.checked_mem with ⟨back, onwards, isBack⟩
  refine onwards.linked.keeps_at (fun reached => reached.moment ≤ put.moment →
    surroundings.stored? reached address request.id = none) (fun _ => amid.absent)
    ?_ step ((isBack step).2 ⟨member, late⟩) before
  intro step inBack missing reached
  rw [moment_after] at reached
  have isMember := ((isBack step).1 inBack).1
  have stillMissing := missing (by omega)
  -- Who stores a batch before must have found one, and there is none.
  have untouched : step.request.touched? ≠
      some (Records.key address request.id) := by
    intro touched
    rcases amid.put_or_pass isMember touched with rfl | ⟨who, isOther, own⟩
    · exact absurd reached (by simp [Step.writeRecord])
    · rcases amid.pass_touched isOther own touched with
        ⟨trial, tried, read, stored, _, found, _, stores, rfl, leads⟩
      have isRead := amid.trial_mem isOther tried stores.read_mem
      have order := (stores.ordered (amid.trial_ordered isOther tried)).1
      apply amid.proceeds.stays_stored_since amid.onlyStores isRead isMember
        (Nat.le_of_lt order) _ stillMissing
      have present := stores.found
      rw [stored?_congr leads] at present
      exact fun missing => Option.some_ne_none found (present.symm.trans missing)
  rw [stored?_after_untouched (onwards.calm step inBack)
    (onwards.sound step inBack) untouched]
  exact stillMissing

theorem put_before {read : World}
    (member : .readRecord read address request.id ∈ turns.map Prod.snd)
    (found : surroundings.stored? read address request.id ≠ none) :
    put.moment < read.moment :=
  Nat.lt_of_not_le fun early => found (amid.absent_until _ member early)

/-! ## After the record is stored -/

theorem stored?_after_changed {read stored removed : World}
    {found changed : Batch} (isOther : who ≠ submitter)
    (tried : trial ∈ trials who)
    (stores : surroundings.Stores lifetimes trial read stored removed found
      changed) (leads : trial.route.LeadsTo address request.id) :
    surroundings.stored?
      (surroundings.after
        (.writeRecord lifetimes stored trial.route.address changed))
      address request.id = some changed := by
  have isStored := amid.trial_mem isOther tried stores.stored_mem
  apply amid.proceeds.stored?_after_store isStored _ rfl
  rw [stores.id]
  exact leads

section Alone

variable (alone : ∀ who other, who ≠ submitter → other ≠ submitter →
  who ≠ other → ∀ trial ∈ trials who, ∀ earlier ∈ trials other,
    ¬trial.Overwrites earlier address request.id put)

include alone

section Stores

variable {read stored removed : World} {found changed : Batch}
  (isOther : who ≠ submitter) (tried : trial ∈ trials who)
  (stores : surroundings.Stores lifetimes trial read stored removed found changed)
  (leads : trial.route.LeadsTo address request.id)

include isOther tried stores leads

/-- What a trial changes is still there when it stores what it has become. -/
theorem stored?_current :
    surroundings.stored? stored address request.id = some found := by
  have isFound := stores.found
  rw [stored?_congr leads] at isFound
  have reads := stores.read_mem_of_leads leads
  have ordered := amid.trial_ordered isOther tried
  have isRead := amid.trial_mem isOther tried reads
  have late := amid.put_before isRead (by simp [isFound])
  rcases amid.proceeds.since isRead with ⟨back, onwards, isBack⟩
  have isStored := (isBack _).2
    ⟨amid.trial_mem isOther tried stores.stored_mem,
      Nat.le_of_lt (stores.ordered ordered).1⟩
  rw [← isFound]
  refine onwards.stored?_until stored.moment ?_ _ isStored (Nat.le_refl _)
  -- The submission has stored before, the trials of one pass do not overlap, and
  -- another pass would be overwritten.
  intro step inBack early touched
  rcases (isBack step).1 inBack with ⟨member, since⟩
  rcases amid.put_or_pass member touched with rfl | ⟨other, isAnother, own⟩
  · exact absurd since (Nat.not_le_of_lt late)
  by_cases same : other = who
  · subst same
    have inTrial := amid.mem_trial_of_between isOther tried reads stores.stored_mem
      own since (Nat.le_of_lt early)
    cases (stores.eq_of_touched inTrial touched).1
    exact Nat.lt_irrefl _ early
  · rcases amid.pass_touched isAnother own touched with
      ⟨earlier, triedEarlier, _, _, _, _, _, others, rfl, -⟩
    apply alone who other isOther isAnother (Ne.symm same) trial tried earlier
      triedEarlier
    refine ⟨read, late, reads, _, others.stored_mem, _, stores.stored_mem, touched, ?_,
      ?_, early⟩
    · rw [← leads, ← stores.id]
      rfl
    · rcases Nat.lt_or_eq_of_le since with strict | equal
      · exact strict
      · cases amid.proceeds.linked.eq_of_moment isRead member equal

end Stores

theorem changed_of_touched (isOther : who ≠ submitter)
    (own : step ∈ ownSteps turns who)
    (touched : step.request.touched? = some (Records.key address request.id)) :
    ∃ trial read stored removed found changed,
      surroundings.Stores lifetimes trial read stored removed found changed ∧
      surroundings.stored? step.world address request.id = some found ∧
      surroundings.stored? (surroundings.after step) address request.id =
        some changed := by
  rcases amid.pass_touched isOther own touched with
    ⟨trial, tried, read, stored, removed, found, changed, stores, rfl, leads⟩
  exact ⟨trial, read, stored, removed, found, changed, stores,
    amid.stored?_current alone isOther tried stores leads,
    amid.stored?_after_changed isOther tried stores leads⟩

theorem ended_after (member : step ∈ turns.map Prod.snd)
    (ended : surroundings.Ended step.world address request.id hash place) :
    surroundings.Ended (surroundings.after step) address request.id hash
      place := by
  rcases ended with ⟨found, item, isFound, located, present, final⟩
  by_cases touched :
    step.request.touched? = some (Records.key address request.id)
  · rcases amid.put_or_pass member touched with rfl | ⟨who, isOther, own⟩
    · have missing := amid.absent_until _ member (Nat.le_refl _)
      rw [isFound] at missing
      cases missing
    · rcases amid.changed_of_touched alone isOther own touched with
        ⟨trial, read, stored, removed, before, changed, stores, isBefore, isAfter⟩
      rw [isFound] at isBefore
      cases isBefore
      rcases stores.stays_ended present final with ⟨after, isPresent, isFinal⟩
      exact ⟨changed, after, isAfter, stores.locate located, isPresent, isFinal⟩
  · refine ⟨found, item, ?_, located, present, final⟩
    rw [stored?_after_untouched (amid.proceeds.calm step member)
      (amid.proceeds.sound step member) touched]
    exact isFound

theorem ended_since {first : Step} (member : first ∈ turns.map Prod.snd)
    (isMember : step ∈ turns.map Prod.snd)
    (later : first.world.moment < step.world.moment)
    (ended : surroundings.Ended (surroundings.after first) address request.id hash
      place) :
    surroundings.Ended step.world address request.id hash place := by
  rcases amid.proceeds.beyond member with ⟨back, onwards, isBack⟩
  refine onwards.linked.keeps_at
    (fun reached => surroundings.Ended reached address request.id hash place) ended
    ?_ step ((isBack step).2 ⟨isMember, later⟩)
  intro other inBack
  exact amid.ended_after alone ((isBack other).1 inBack).1

theorem located_beyond (located : batch.locate hash = some ⟨0, place⟩) :
    ∀ step ∈ turns.map Prod.snd, put.moment < step.world.moment →
      ∃ found, surroundings.stored? step.world address request.id = some found ∧
        found.locate hash = some ⟨0, place⟩ := by
  intro step member later
  rcases amid.proceeds.beyond amid.put_mem with ⟨back, onwards, isBack⟩
  refine onwards.linked.keeps_at (fun reached => ∃ found,
    surroundings.stored? reached address request.id = some found ∧
      found.locate hash = some ⟨0, place⟩) ?_ ?_ step
        ((isBack step).2 ⟨member, later⟩)
  · refine ⟨batch, ?_, located⟩
    exact amid.proceeds.stored?_after_store amid.put_mem amid.key rfl
  · rintro other inBack ⟨found, isFound, isLocated⟩
    rcases (isBack other).1 inBack with ⟨isMember, afterPut⟩
    by_cases touched :
      other.request.touched? = some (Records.key address request.id)
    · rcases amid.put_or_pass isMember touched with rfl | ⟨who, isOther, own⟩
      · exact absurd afterPut (Nat.lt_irrefl _)
      · rcases amid.changed_of_touched alone isOther own touched with
          ⟨trial, read, stored, removed, before, changed, stores, isBefore,
            isAfter⟩
        rw [isFound] at isBefore
        cases isBefore
        exact ⟨changed, isAfter, stores.locate isLocated⟩
    · refine ⟨found, ?_, isLocated⟩
      rw [stored?_after_untouched (onwards.calm other inBack)
        (onwards.sound other inBack) touched]
      exact isFound

section Reading

variable {read : World} (located : batch.locate hash = some ⟨0, place⟩)
  (isRead : .readRecord read address request.id ∈ turns.map Prod.snd)

include located isRead

theorem located_of_found {found : Batch}
    (isFound : surroundings.stored? read address request.id = some found) :
    found.locate hash = some ⟨0, place⟩ := by
  have late := amid.put_before isRead (by simp [isFound])
  rcases amid.located_beyond alone located _ isRead late with
    ⟨again, isAgain, isLocated⟩
  cases isFound.symm.trans isAgain
  exact isLocated

theorem before_put
    (absent : surroundings.stored? read address request.id = none) :
    read.moment < put.moment := by
  apply Nat.lt_of_not_le
  intro late
  rcases Nat.lt_or_eq_of_le late with strict | same
  · rcases amid.located_beyond alone located _ isRead strict with
      ⟨found, isFound, -⟩
    cases absent.symm.trans isFound
  · cases amid.proceeds.linked.eq_of_moment amid.put_mem isRead same

end Reading

section Spared

variable {indexed : World}
  (spared : ∀ who, who ≠ submitter → ∀ trial ∈ trials who,
    ¬trial.Misses address request.id hash indexed put)
  (located : batch.locate hash = some ⟨0, place⟩)

include spared located

theorem ended_at_removal {removed : World} (isOther : who ≠ submitter)
    (tried : trial ∈ trials who) (isHash : trial.hash = hash)
    (later : indexed.moment < removed.moment)
    (member : .removeRoute removed hash ∈ trial.steps) :
    surroundings.Ended removed address request.id hash place := by
  have hits := spared who isOther trial tried
  have removes : ∃ removed : World, indexed.moment < removed.moment ∧
      .removeRoute removed hash ∈ trial.steps := ⟨removed, later, member⟩
  have leads : trial.route.LeadsTo address request.id := by
    unfold Route.LeadsTo
    exact Decidable.byContradiction fun elsewhere =>
      hits ⟨isHash, removes, .inl elsewhere⟩
  have isRemoved := amid.trial_mem isOther tried member
  have ordered := amid.trial_ordered isOther tried
  cases amid.resolves isOther tried with
  | @missing read last steps absent result =>
      rw [leads.readRecord_eq] at steps
      rw [stored?_congr leads] at absent
      have isRead : .readRecord read address request.id ∈ trial.steps := by
        rw [steps]
        exact List.mem_cons_self
      have early := amid.before_put alone located
        (amid.trial_mem isOther tried isRead) absent
      exact absurd ⟨isHash, removes, .inr ⟨result, read, early, isRead⟩⟩ hits
  | @left read last found steps isFound ended =>
      rw [leads.readRecord_eq] at steps
      rw [stored?_congr leads] at isFound
      have isRead : .readRecord read address request.id ∈ trial.steps := by
        rw [steps]
        exact List.mem_cons_self
      have inTurns := amid.trial_mem isOther tried isRead
      have isLocated := amid.located_of_found alone located inTurns isFound
      rcases ended ⟨0, place⟩ (by rw [isHash]; exact isLocated) with
        ⟨item, present, final⟩
      rw [steps] at member ordered
      apply amid.ended_since alone inTurns isRemoved
      · rcases List.mem_cons.1 member with same | isLast
        · cases same
        · exact List.rel_of_pairwise_cons ordered isLast
      · exact amid.ended_after alone inTurns
          ⟨found, item, isFound, isLocated, present, final⟩
  | @stored read stored last found changed stores =>
      have isFound := stores.found
      rw [stored?_congr leads] at isFound
      have inTurns := amid.trial_mem isOther tried (stores.read_mem_of_leads leads)
      have isLocated := amid.located_of_found alone located inTurns isFound
      have isStored := amid.trial_mem isOther tried stores.stored_mem
      rcases stores.ends (by rw [isHash]; exact isLocated) with
        ⟨item, present, final⟩
      apply amid.ended_since alone isStored isRemoved
      · rw [stores.eq_of_removes member]
        exact (stores.ordered ordered).2
      · exact ⟨changed, item,
          amid.stored?_after_changed isOther tried stores leads,
          stores.locate isLocated, present, final⟩

/-- From when its route is written the item has a route or an outcome. -/
theorem ended_or_routed {since : Instant}
    (isIndexed : .writeRoute lifetimes indexed hash ⟨request.id, address, since⟩ ∈
      turns.map Prod.snd) :
    surroundings.Ended last address request.id hash place ∨
      surroundings.route? last hash ≠ none := by
  rcases amid.proceeds.beyond isIndexed with ⟨back, onwards, isBack⟩
  refine onwards.linked.keeps (fun reached =>
    surroundings.Ended reached address request.id hash place ∨
      surroundings.route? reached hash ≠ none) ?_ ?_
  · right
    rw [route?_after_calm_write (amid.proceeds.calm _ isIndexed)
      (amid.proceeds.sound _ isIndexed)]
    exact Option.some_ne_none _
  intro step inBack held
  rcases (isBack step).1 inBack with ⟨member, later⟩
  have calm := amid.proceeds.calm step member
  have sound := amid.proceeds.sound step member
  rcases held with ended | routed
  · exact .inl (amid.ended_after alone member ended)
  -- Only the end of a trial takes the route away.
  by_cases touched : step.request.touched? = some (Routes.key hash)
  · rcases exists_ownSteps member with ⟨who, own⟩
    by_cases isSubmitter : who = submitter
    · subst isSubmitter
      rcases amid.takenOn with ⟨result, takenOn⟩
      rcases takenOn.sends_of_touched own touched with ⟨group, sends⟩
      exact .inr (routed_after_sends calm sound sends routed)
    · rcases (amid.works who isSubmitter).cases_of_mem own with
        isAside | ⟨trial, tried, inTrial⟩
      · exact absurd touched
          (Request.touched?_of_isAside isAside (isTracked_routeKey _))
      · rcases (amid.resolves isSubmitter tried).removes_of_touched inTrial touched
          with ⟨group, sends⟩ | ⟨isHash, isRemoval⟩
        · exact .inr (routed_after_sends calm sound sends routed)
        · left
          apply amid.ended_after alone member
          rw [isRemoval] at inTrial
          exact amid.ended_at_removal alone spared located isSubmitter tried isHash
            later inTrial
  · right
    rwa [route?_after_untouched calm sound touched]

end Spared

end Alone

/-- From when its route is written the item has a route or an outcome, unless a
trial misses the record or overwrites what another one has stored. -/
theorem kept_or_lost {indexed : World} {since : Instant}
    (located : batch.locate hash = some ⟨0, place⟩)
    (isIndexed : .writeRoute lifetimes indexed hash ⟨request.id, address, since⟩ ∈
      turns.map Prod.snd) :
    surroundings.Ended last address request.id hash place ∨
      surroundings.route? last hash ≠ none ∨
      (∃ who, who ≠ submitter ∧ ∃ trial ∈ trials who,
        trial.Misses address request.id hash indexed put) ∨
      ∃ who other, who ≠ submitter ∧ other ≠ submitter ∧ who ≠ other ∧
        ∃ trial ∈ trials who, ∃ earlier ∈ trials other,
          trial.Overwrites earlier address request.id put := by
  by_cases missed : ∃ who, who ≠ submitter ∧ ∃ trial ∈ trials who,
      trial.Misses address request.id hash indexed put
  · exact .inr (.inr (.inl missed))
  by_cases overwritten : ∃ who other, who ≠ submitter ∧ other ≠ submitter ∧
      who ≠ other ∧ ∃ trial ∈ trials who, ∃ earlier ∈ trials other,
        trial.Overwrites earlier address request.id put
  · exact .inr (.inr (.inr overwritten))
  have alone (who other : ι) (isOther : who ≠ submitter)
      (isAnother : other ≠ submitter) (distinct : who ≠ other) (trial : Trial)
      (tried : trial ∈ trials who) (earlier : Trial)
      (triedEarlier : earlier ∈ trials other) :
      ¬trial.Overwrites earlier address request.id put := fun overwrites =>
    overwritten ⟨who, other, isOther, isAnother, distinct, trial, tried, earlier,
      triedEarlier, overwrites⟩
  have spared (who : ι) (isOther : who ≠ submitter) (trial : Trial)
      (tried : trial ∈ trials who) :
      ¬trial.Misses address request.id hash indexed put := fun misses =>
    missed ⟨who, isOther, trial, tried, misses⟩
  rcases amid.ended_or_routed alone spared located isIndexed with ended | routed
  · exact .inl ended
  · exact .inr (.inl routed)

end Amid

end Amid

section Passes

variable {ι : Type} [DecidableEq ι] {commands : ι → List Command}
  {submitter : ι} {request : BatchRequest} {sourceIp : Option String}
  {turns : List (ι × Step)} {put : World}
  (submits : commands submitter = [.submit request sourceIp])
  (passes : ∀ who, who ≠ submitter → ∀ command ∈ commands who,
    command.isPass = true)
  (interleaves : surroundings.Interleaves
    (fun who => performAll lifetimes (commands who)) world turns (fun _ => ())
    last)

include submits interleaves

theorem answers_of_submits :
    ∃ result, surroundings.Answers lifetimes request sourceIp
      (ownSteps turns submitter) result := by
  have performs := interleaves.performs submitter
  rw [submits] at performs
  exact performs.performSubmit

include passes

theorem Reliance.among {holds : World → Prop} {permitted : Step → Prop}
    {admits : Route → Prop}
    (reliance : surroundings.Reliance lifetimes holds permitted admits)
    (start : holds world)
    (kept : ∀ step, holds step.world → permitted step →
      holds (surroundings.after step))
    (allowed : ∀ steps result,
      surroundings.Answers lifetimes request sourceIp steps result →
        ∀ step ∈ steps, permitted step) :
    (∀ turn ∈ turns, holds turn.2.world ∧ permitted turn.2) ∧
      ∃ trials : ι → List Trial, ∀ who, who ≠ submitter →
        surroundings.Works lifetimes (trials who) (ownSteps turns who) ∧
          ∀ trial ∈ trials who, admits trial.route := by
  have heeds (who : ι) : surroundings.Heeds holds permitted
      (fun steps _ => ∃ trials, who ≠ submitter →
        surroundings.Works lifetimes trials steps ∧
          ∀ trial ∈ trials, admits trial.route)
      (performAll lifetimes (commands who)) := by
    by_cases isSubmitter : who = submitter
    · subst isSubmitter
      apply heeds_of_performs
      intro steps _ performs
      rw [submits] at performs
      rcases performs.performSubmit with ⟨result, answers⟩
      exact ⟨allowed steps result answers, [], absurd rfl⟩
    · have tries := reliance.traversal.performAll (passes who isSubmitter)
        fun _ member => by cases member
      apply tries.mono
      rintro steps _ ⟨trials, works⟩
      exact ⟨trials, fun _ => works⟩
  rcases interleaves.heeds start kept heeds with ⟨all, -, told⟩
  exact ⟨all, Classical.skolem.1 told⟩

variable (shaped : request.checkShape = .ok address) (sound : world.Sound [])
  (calm : ∀ turn ∈ turns, surroundings.Calm turn.2)
  (stores : (submitter, .writeRecord lifetimes put address batch) ∈ turns)

include shaped sound calm stores

theorem exists_amid :
    ∃ trials checked,
      surroundings.Amid lifetimes address request world turns last submitter trials
        checked put batch ∧
      ∀ hash place, batch.locate hash = some ⟨0, place⟩ → ∃ indexed since,
        (submitter, .writeRoute lifetimes indexed hash
          ⟨request.id, address, since⟩) ∈ turns := by
  rcases (surroundings.reliance_sound lifetimes).among submits passes interleaves
    sound (fun step sound writes => sound.step writes)
    (fun steps result answers => answers.writesGenuine) with
    ⟨all, trials, works⟩
  have proceeds : surroundings.Proceeds world (turns.map Prod.snd) last := by
    refine ⟨interleaves.linked, ?_, ?_⟩ <;> intro step member <;>
      rcases List.mem_map.1 member with ⟨turn, isTurn, rfl⟩
    · exact (all turn isTurn).1
    · exact calm turn isTurn
  have working (step : Step) (own : step ∈ ownSteps turns submitter) :=
    (proceeds.calm step (mem_of_ownSteps own)).works
  rcases answers_of_submits submits interleaves with ⟨result, answers⟩
  rcases answers.takenOn_of_store shaped working (mem_ownSteps.2 stores) with
    ⟨checked, takenOn, read, indexes⟩
  refine ⟨trials, checked, ⟨proceeds, fun who isOther => (works who isOther).1,
    fun who isOther => (works who isOther).2, ⟨result, takenOn⟩, ?_⟩, ?_⟩
  · have isRead := takenOn.checked_mem
    have reads : (surroundings.run (Records.get address request.id) checked).1 =
        .ok (surroundings.stored? checked address request.id) :=
      get_of_sound (proceeds.sound _ (mem_of_ownSteps isRead)) (working _ isRead _)
    rw [read] at reads
    exact (Except.ok.inj reads).symm
  · intro hash place located
    rcases Batch.item?_of_locate located with ⟨item, found, isHash⟩
    rcases indexes place item found with ⟨indexed, since, member⟩
    rw [isHash] at member
    exact ⟨indexed, since, mem_ownSteps.1 member⟩

end Passes

/-- A submission among ticks and sweeps.  When its batch is stored, every item of
the first group has got a route, and from then on it has a route or an outcome,
unless a trial misses the record or overwrites what another one has stored. -/
theorem early_outcomes_kept_or_lost {ι : Type} [DecidableEq ι]
    (surroundings : Surroundings) (lifetimes : Lifetimes) (submitter : ι)
    (commands : ι → List Command) (request : BatchRequest)
    (sourceIp : Option String) (address hash : String) (world last put : World)
    (turns : List (ι × Step)) (batch : Batch) (place : Nat)
    (submits : commands submitter = [.submit request sourceIp])
    (passes : ∀ who, who ≠ submitter → ∀ command ∈ commands who,
      command.isPass = true)
    (interleaves : surroundings.Interleaves
      (fun who => performAll lifetimes (commands who)) world turns (fun _ => ())
      last)
    (shaped : request.checkShape = .ok address) (sound : world.Sound [])
    (calm : ∀ turn ∈ turns, surroundings.Calm turn.2)
    (stores : (submitter, .writeRecord lifetimes put address batch) ∈ turns)
    (located : batch.locate hash = some ⟨0, place⟩) :
    ∃ (trials : ι → List Trial) (indexed : World) (since : Instant),
      (∀ who, who ≠ submitter →
        surroundings.Works lifetimes (trials who) (ownSteps turns who)) ∧
      (submitter, .writeRoute lifetimes indexed hash
        ⟨request.id, address, since⟩) ∈ turns ∧
      (surroundings.Ended last address request.id hash place ∨
        surroundings.route? last hash ≠ none ∨
        (∃ who, who ≠ submitter ∧ ∃ trial ∈ trials who,
          trial.Misses address request.id hash indexed put) ∨
        ∃ who other, who ≠ submitter ∧ other ≠ submitter ∧ who ≠ other ∧
          ∃ trial ∈ trials who, ∃ earlier ∈ trials other,
            trial.Overwrites earlier address request.id put) := by
  rcases exists_amid submits passes interleaves shaped sound calm stores with
    ⟨trials, checked, amid, routes⟩
  rcases routes hash place located with ⟨indexed, since, isIndexed⟩
  exact ⟨trials, indexed, since, amid.works, isIndexed,
    amid.kept_or_lost located (List.mem_map_of_mem isIndexed)⟩

/-! ## A tick before the record is stored -/

end Surroundings

namespace Willing

open Surroundings

/-- A batch of one item. -/
def single (id : String) (transaction : HashedTransaction) : Batch :=
  ⟨id, [⟨[.waiting transaction]⟩], .pending, none⟩

/-- One submits the batch, and another one makes a tick. -/
def overtaking (id : String) (transaction : HashedTransaction) (shard : UInt32)
    (who : Bool) : List Command :=
  bif who then [.submit (.ofGroups id [[transaction]]) none]
  else [.tick ⟨[shard], 0⟩]

theorem overtaking_passes {id : String} {transaction : HashedTransaction}
    {shard : UInt32} (who : Bool) (isOther : who ≠ true) :
    ∀ command ∈ overtaking id transaction shard who, command.isPass = true := by
  cases who with
  | false => exact List.forall_mem_singleton.2 rfl
  | true => exact absurd rfl isOther

theorem single_located (id : String) (transaction : HashedTransaction) :
    (single id transaction).locate transaction.hash = some ⟨0, 0⟩ := by
  simp [Batch.locate, Batch.locateFrom, single, Item.waiting, Item.hash]

section Single

variable {surroundings : Surroundings} {address id : String}
  {transaction : HashedTransaction}
  (willing : Willing surroundings address id transaction)

include willing

theorem single_passes : (BatchRequest.ofGroups id [[transaction]]).Passes none
    address (single id transaction) :=
  BatchRequest.passes_ofGroups willing.named (by simp) (by simp)
    (by simp [willing.valid])

theorem overtaken {world : World} {shard : UInt32} {latest : UInt64}
    {observed : ObservedTransaction}
    (shows : world.Shows address id (fun _ => none) false [])
    (confirms : surroundings.Confirms shard latest observed)
    (same : observed.hash = transaction.hash) :
    ∃ turns put last,
      surroundings.Interleaves
        (fun who => performAll .forever (overtaking id transaction shard who))
        world turns (fun _ => ()) last ∧
      (true, .writeRecord .forever put address (single id transaction)) ∈ turns ∧
      surroundings.stored? last address id = some (single id transaction) ∧
      surroundings.route? last transaction.hash = none := by
  have works := willing.works
  have taken : (single id transaction).invalidHashesAt 0 = [] := by
    simp [Batch.invalidHashesAt, single, Group.invalidHashes, Item.waiting]
  have opened : (surroundings.after (.readRecord world address id)).Shows address id
      (fun _ => none) false [] := shows.quiet rfl
  have starts : surroundings.Yields
      (startGroup .forever (single id transaction) 0) _ (single id transaction)
      address id _ false _ :=
    yields_startGroup_taken 0 (.waiting transaction) opened works
      (congrArg some willing.valid.sender) rfl rfl (willing.takes _)
  have ticked := starts.shows.tick_missing 0 works rfl confirms (by simp)
    (if_pos (by rw [same])) ⟨willing.clean, willing.named.2⟩ (by simp)
  have written := ticked.write (single id transaction).render
    (works _ (.write (Records.key address id)))
  have absent : surroundings.value? world (Records.key address id) = none :=
    value?_of_everlasting shows.everlasting
  have others (sent : World) : (surroundings.run (performAll .forever
      (overtaking id transaction shard false)) sent).2 =
        (surroundings.run (Watch.tick .forever ⟨[shard], 0⟩) sent).2 := by
    rw [show overtaking id transaction shard false = [.tick ⟨[shard], 0⟩] from rfl,
      run_performAll_cons, run_perform_tick]
    rfl
  rcases interleaves_before_store (overtaking id transaction shard) rfl
    willing.single_passes works absent (Prod.ext starts.result rfl) taken (others _)
    with ⟨turns, interleaves, stores⟩
  refine ⟨turns, _, _, interleaves, stores, ?_, ?_⟩
  · exact written.stored? (if_pos rfl)
  · refine written.route?.trans ?_
    simp [same]

end Single

end Willing

namespace Sample

/-- The transfer and the tick of the sample. -/
def overtaking : Bool → List Command :=
  Willing.overtaking "b" first 1

theorem overtaking_submits :
    overtaking true = [.submit (.ofGroups "b" [[first]]) none] :=
  rfl

theorem overtaking_passes : ∀ who, who ≠ true → ∀ command ∈ overtaking who,
    command.isPass = true :=
  Willing.overtaking_passes

theorem overtaken : ∃ turns put last,
    (network first).Interleaves
      (fun who => performAll .forever (overtaking who)) attempts.start turns
      (fun _ => ()) last ∧
    (true, .writeRecord .forever put alice (Willing.single "b" first)) ∈ turns ∧
    (network first).stored? last alice "b" = some (Willing.single "b" first) ∧
    (network first).route? last first.hash = none :=
  willing.overtaken (attempts.shows_start alice "b") (confirms_last first) rfl

theorem overtaking_calm {turns : List (Bool × Step)} {last : World}
    (interleaves : (network first).Interleaves
      (fun who => performAll .forever (overtaking who)) attempts.start turns
      (fun _ => ()) last) : ∀ turn ∈ turns, (network first).Calm turn.2 := by
  have all := ((network first).reliance_forever.among overtaking_submits
    overtaking_passes interleaves trivial (fun _ _ _ => trivial)
    (fun steps result answers => answers.writesForever rfl)).1
  have timeless : attempts.start.Timeless := by
    intro key entry member
    cases member
  have calm := interleaves.linked.calm_of_forever (fun _ _ => rfl) timeless (by
    intro step member
    rcases List.mem_map.1 member with ⟨turn, isTurn, rfl⟩
    exact (all turn isTurn).2)
  intro turn member
  exact calm turn.2 (List.mem_map_of_mem member)

end Sample

namespace Surroundings

theorem overtaken_outcome_kept_or_lost :
    Sample.overtaking true = [.submit (.ofGroups "b" [[Sample.first]]) none] ∧
      (∀ who, who ≠ true → ∀ command ∈ Sample.overtaking who,
        command.isPass = true) ∧
      (BatchRequest.ofGroups "b" [[Sample.first]]).checkShape =
        .ok Sample.alice ∧
      Sample.attempts.start.Sound [] ∧
      (Willing.single "b" Sample.first).locate Sample.first.hash =
        some ⟨0, 0⟩ ∧
      ∃ turns put last, (Sample.network Sample.first).Interleaves
          (fun who => performAll .forever (Sample.overtaking who))
          Sample.attempts.start turns (fun _ => ()) last ∧
        (∀ turn ∈ turns, (Sample.network Sample.first).Calm turn.2) ∧
        (true, .writeRecord .forever put Sample.alice
          (Willing.single "b" Sample.first)) ∈ turns ∧
        ∃ (trials : Bool → List Trial) (indexed : World) (since : Instant),
          (∀ who, who ≠ true → (Sample.network Sample.first).Works .forever
            (trials who) (ownSteps turns who)) ∧
          (true, .writeRoute .forever indexed Sample.first.hash
            ⟨"b", Sample.alice, since⟩) ∈ turns ∧
          ((Sample.network Sample.first).Ended last Sample.alice "b"
              Sample.first.hash 0 ∨
            (Sample.network Sample.first).route? last Sample.first.hash ≠ none ∨
            (∃ who, who ≠ true ∧ ∃ trial ∈ trials who,
              trial.Misses Sample.alice "b" Sample.first.hash indexed put) ∨
            ∃ who other, who ≠ true ∧ other ≠ true ∧ who ≠ other ∧
              ∃ trial ∈ trials who, ∃ earlier ∈ trials other,
                trial.Overwrites earlier Sample.alice "b" put) := by
  have shaped := Sample.willing.single_passes.shaped
  have located := Willing.single_located "b" Sample.first
  refine ⟨Sample.overtaking_submits, Sample.overtaking_passes, shaped,
    Sample.attempts.sound_start, located, ?_⟩
  rcases Sample.overtaken with ⟨turns, put, last, interleaves, stores, -, -⟩
  have calm := Sample.overtaking_calm interleaves
  exact ⟨turns, put, last, interleaves, calm, stores,
    early_outcomes_kept_or_lost (Sample.network Sample.first) .forever true
      Sample.overtaking (.ofGroups "b" [[Sample.first]]) none Sample.alice
      Sample.first.hash Sample.attempts.start last put turns
      (Willing.single "b" Sample.first) 0 Sample.overtaking_submits
      Sample.overtaking_passes interleaves shaped Sample.attempts.sound_start calm
      stores located⟩

/-- The tick has dealt with the outcome of the transfer, but when the batch is
stored the item still waits, and there is no route. -/
theorem early_outcome_lost :
    Sample.overtaking true = [.submit (.ofGroups "b" [[Sample.first]]) none] ∧
      Sample.overtaking false = [.tick ⟨[1], 0⟩] ∧
      ∃ turns put last, (Sample.network Sample.first).Interleaves
          (fun who => performAll .forever (Sample.overtaking who))
          Sample.attempts.start turns (fun _ => ()) last ∧
        (∀ turn ∈ turns, (Sample.network Sample.first).Calm turn.2) ∧
        (true, .writeRecord .forever put Sample.alice
          (Willing.single "b" Sample.first)) ∈ turns ∧
        (∃ trials indexed, (Sample.network Sample.first).Works .forever trials
            (ownSteps turns false) ∧
          ∃ trial ∈ trials, trial.Misses Sample.alice "b" Sample.first.hash
            indexed put) ∧
        (Sample.network Sample.first).stored? last Sample.alice "b" =
          some (Willing.single "b" Sample.first) ∧
        (Willing.single "b" Sample.first).item? ⟨0, 0⟩ =
          some (.waiting Sample.first) ∧
        (Sample.network Sample.first).route? last Sample.first.hash = none := by
  rcases Sample.overtaken with
    ⟨turns, put, last, interleaves, stores, stored, unrouted⟩
  have calm := Sample.overtaking_calm interleaves
  have located := Willing.single_located "b" Sample.first
  refine ⟨rfl, rfl, turns, put, last, interleaves, calm, stores, ?_, stored, rfl,
    unrouted⟩
  rcases exists_amid Sample.overtaking_submits Sample.overtaking_passes interleaves
    Sample.willing.single_passes.shaped Sample.attempts.sound_start calm stores with
    ⟨trials, checked, amid, routes⟩
  rcases routes Sample.first.hash 0 located with ⟨indexed, since, isIndexed⟩
  refine ⟨trials false, indexed, amid.works false (by decide), ?_⟩
  rcases amid.kept_or_lost located (List.mem_map_of_mem isIndexed) with
    ended | routed | ⟨who, isOther, misses⟩ | ⟨who, other, isOther, isAnother,
      distinct, -⟩
  · rcases ended with ⟨batch, item, isStored, -, found, final⟩
    have same := stored.symm.trans isStored
    cases same
    cases found
    cases final
  · exact absurd unrouted routed
  · rw [eq_false_of_ne_true isOther] at misses
    exact misses
  · rw [eq_false_of_ne_true isOther,
      eq_false_of_ne_true isAnother] at distinct
    exact absurd rfl distinct

end Surroundings

end BatchRelay
