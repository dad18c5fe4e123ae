import BatchRelay.Proofs.Engine.Leftovers
import BatchRelay.Proofs.Engine.Submissions
import Mathlib.Data.List.MinMax

/-!
# Submissions of one name at the same time

A submission looks for a record of its batch before it sends anything, and it
stores its own only after the whole first group.  Nothing keeps others of the
same name away in between.  So it is the first record that counts: whoever has
looked before it was stored sends its group and overwrites it, and whoever looks
after that is declined and sends nothing.
-/

namespace BatchRelay

namespace Surroundings

/-! ## One call -/

/-- A call that has found a record of its batch, and has sent nothing. -/
structure Declined (address : String) (request : BatchRequest) (checked : World)
    (steps : List Step) (result : Except BatchError Batch) : Prop where
  steps : steps = [.readRecord checked address request.id]
  result : result = .error (.duplicateBatch request.id address)

variable {surroundings : Surroundings} {lifetimes : Lifetimes}
  {request : BatchRequest} {sourceIp : Option String} {address id : String}
  {batch : Batch} {steps : List Step} {result : Except BatchError Batch}
  {world last checked stored : World}

theorem Answers.declined_or_takenOn
    (answers : surroundings.Answers lifetimes request sourceIp steps result)
    (passes : request.Passes sourceIp address batch)
    (takes : ∀ transaction ∈ request.transactions.headD [], ∀ moment, ∃ hash,
      surroundings.send moment transaction = .ok hash)
    (works : ∀ step ∈ steps, ∀ access,
      surroundings.fault step.world.moment access = none)
    (sound : ∀ step ∈ steps, step.world.Sound []) :
    ∃ checked,
      (surroundings.stored? checked address request.id ≠ none ∧
        Declined address request checked steps result) ∨
      (surroundings.stored? checked address request.id = none ∧
        ∃ stored batch, TakenOn lifetimes address request checked stored batch
          steps result) := by
  have reads {world : World} {owner : String}
      (member : .readRecord world owner request.id ∈ steps) :
      (surroundings.run (Records.get owner request.id) world).1 =
        .ok (surroundings.stored? world owner request.id) :=
    get_of_sound (sound _ member) (works _ member _)
  have sameOwner {owner : String} (shape : request.checkShape = .ok owner) :
      owner = address := by
    rw [passes.shaped] at shape
    cases shape
    rfl
  cases answers with
  | malformed shape =>
      rw [passes.shaped] at shape
      cases shape
  | unread shape read =>
      rw [reads List.mem_cons_self] at read
      cases read
  | @duplicate checked owner earlier shape read =>
      rw [reads List.mem_cons_self] at read
      cases sameOwner shape
      refine ⟨checked, .inl ⟨?_, rfl, rfl⟩⟩
      rw [Except.ok.inj read]
      exact Option.some_ne_none earlier
  | unsound shape check =>
      cases sameOwner shape
      rw [passes.checked] at check
      cases check
  | unmade made =>
      rw [passes.made] at made
      cases made
  | refused others read starts refused =>
      cases sameOwner others.shaped
      exact absurd (starts.firstTaken others.admits takes) refused
  | @stored checked later owner batch started middle others read starts taken =>
      rw [reads List.mem_cons_self] at read
      cases sameOwner others.shaped
      exact ⟨checked, .inr ⟨Except.ok.inj read, later, started,
        takenOn_of_starts others.admits starts taken⟩⟩
  | @unstored checked later owner batch started middle error _ _ _ _ fails =>
      exact absurd fails (not_fails_of_works lifetimes works (by simp))

/-! ## Many calls -/

theorem exists_least {α β : Type} [LinearOrder β] {values : List α}
    {holds : α → Prop} (rank : α → β) (found : ∃ value ∈ values, holds value) :
    ∃ first ∈ values, holds first ∧
      ∀ value ∈ values, holds value → rank first ≤ rank value := by
  classical
  rcases found with ⟨value, member, isSuch⟩
  cases least : (values.filter fun value => decide (holds value)).argmin rank with
  | none => simp_all [List.argmin_eq_none]
  | some first =>
      have isFirst := List.argmin_mem least
      simp only [List.mem_filter, decide_eq_true_eq] at isFirst
      refine ⟨first, isFirst.1, isFirst.2, ?_⟩
      intro other isMember isOne
      apply List.le_of_mem_argmin _ least
      simpa using ⟨isMember, isOne⟩

section Rivals

variable {ι : Type} [DecidableEq ι] {requests : ι → BatchRequest}
  {sources : ι → Option String} {turns : List (ι × Step)}
  {results : ι → Except BatchError Batch}

/-- Valid requests of one sender with one name, whose first groups the network
takes. -/
structure Rivals (surroundings : Surroundings) (address id : String)
    (requests : ι → BatchRequest) (sources : ι → Option String) : Prop where
  passes : ∀ who, ∃ batch, (requests who).Passes (sources who) address batch
  named : ∀ who, (requests who).id = id
  takes : ∀ who, ∀ transaction ∈ (requests who).transactions.headD [],
    ∀ moment, ∃ hash, surroundings.send moment transaction = .ok hash

/-- The record that is stored first decides about every call: those that have
looked before are taken on, and those that look later are declined.  The record
that is stored last stays. -/
structure Decided (surroundings : Surroundings) (lifetimes : Lifetimes)
    (address id : String) (requests : ι → BatchRequest)
    (turns : List (ι × Step)) (results : ι → Except BatchError Batch)
    (last first final : World) : Prop where
  opens : ∃ who checked batch, TakenOn lifetimes address (requests who) checked
    first batch (ownSteps turns who) (results who)
  ends : ∃ who checked batch, TakenOn lifetimes address (requests who) checked
      final batch (ownSteps turns who) (results who) ∧
    surroundings.stored? last address id = some batch
  calls : ∀ who, ∃ checked,
    (checked.moment < first.moment ∧ ∃ stored batch,
      TakenOn lifetimes address (requests who) checked stored batch
        (ownSteps turns who) (results who) ∧
      first.moment ≤ stored.moment ∧ stored.moment ≤ final.moment) ∨
    (first.moment < checked.moment ∧
      Declined address (requests who) checked (ownSteps turns who) (results who))

variable (rivals : surroundings.Rivals address id requests sources)
  (interleaves : surroundings.Interleaves
    (fun who => submit lifetimes (requests who) (sources who)) world turns results
    last)
  (sound : world.Sound []) (calm : ∀ turn ∈ turns, surroundings.Calm turn.2)

include interleaves

theorem answers_of_interleaves (who : ι) :
    surroundings.Answers lifetimes (requests who) (sources who)
      (ownSteps turns who) (results who) :=
  (interleaves.performs who).submit

theorem onlyStores_of_interleaves (owner id : String) :
    ∀ step ∈ turns.map Prod.snd, OnlyStores lifetimes owner id step := by
  intro step member
  rcases exists_ownSteps member with ⟨who, own⟩
  exact (answers_of_interleaves interleaves who).onlyStores owner id step own

include sound calm

theorem proceeds_of_interleaves :
    surroundings.Proceeds world (turns.map Prod.snd) last where
  linked := interleaves.linked
  sound := by
    apply sound.linked_at interleaves.linked
    intro step member
    rcases exists_ownSteps member with ⟨who, own⟩
    exact (answers_of_interleaves interleaves who).writesGenuine step own
  calm := by
    intro step member
    rcases List.mem_map.1 member with ⟨turn, isTurn, rfl⟩
    exact calm turn isTurn

include rivals

namespace Rivals

theorem declined_or_takenOn (who : ι) :
    ∃ checked,
      (surroundings.stored? checked address id ≠ none ∧
        Declined address (requests who) checked (ownSteps turns who)
          (results who)) ∨
      (surroundings.stored? checked address id = none ∧
        ∃ stored batch, TakenOn lifetimes address (requests who) checked stored
          batch (ownSteps turns who) (results who)) := by
  have proceeds := proceeds_of_interleaves interleaves sound calm
  rcases rivals.passes who with ⟨batch, passes⟩
  rw [← rivals.named who]
  apply (answers_of_interleaves interleaves who).declined_or_takenOn passes
    (rivals.takes who)
  · intro step own
    exact (proceeds.calm step (mem_of_ownSteps own)).works
  · intro step own
    exact proceeds.sound step (mem_of_ownSteps own)

omit interleaves sound calm in
theorem declined_mem {who : ι} (declined : Declined address (requests who) checked
    (ownSteps turns who) (results who)) :
    .readRecord checked address id ∈ turns.map Prod.snd := by
  have own : .readRecord checked address id ∈ ownSteps turns who := by
    rw [declined.steps, rivals.named who]
    exact List.mem_cons_self
  exact mem_of_ownSteps own

omit interleaves sound calm in
theorem takenOn_mem {who : ι} (takenOn : TakenOn lifetimes address (requests who)
    checked stored batch (ownSteps turns who) (results who)) :
    .readRecord checked address id ∈ turns.map Prod.snd ∧
      .writeRecord lifetimes stored address batch ∈ turns.map Prod.snd := by
  have reads := takenOn.checked_mem
  rw [rivals.named who] at reads
  exact ⟨mem_of_ownSteps reads, mem_of_ownSteps takenOn.stored_mem⟩

theorem takenOn_of_touched {step : Step} (member : step ∈ turns.map Prod.snd)
    (touched : step.request.touched? = some (Records.key address id)) :
    ∃ who checked batch, TakenOn lifetimes address (requests who) checked
        step.world batch (ownSteps turns who) (results who) ∧
      step = .writeRecord lifetimes step.world address batch := by
  rcases exists_ownSteps member with ⟨who, own⟩
  rcases rivals.declined_or_takenOn interleaves sound calm who with
    ⟨checked, ⟨-, declined⟩ | ⟨-, stored, batch, takenOn⟩⟩
  · rw [declined.steps] at own
    cases List.mem_singleton.1 own
    cases touched
  · rw [← rivals.named who] at touched
    cases takenOn.eq_of_touched own touched
    exact ⟨who, checked, batch, takenOn, rfl⟩

theorem takenOn_of_check {who : ι} {rest : List Step}
    (own : ownSteps turns who = .readRecord checked address id :: rest)
    (missing : surroundings.stored? checked address id = none) :
    ∃ stored batch, TakenOn lifetimes address (requests who) checked stored batch
      (ownSteps turns who) (results who) := by
  have begins {other : World} {later : List Step}
      (same : ownSteps turns who =
        .readRecord other address (requests who).id :: later) :
      other = checked := by
    rw [own] at same
    exact (congrArg Step.world (List.cons.inj same).1).symm
  rcases rivals.declined_or_takenOn interleaves sound calm who with
    ⟨other, ⟨found, declined⟩ | ⟨-, stored, batch, takenOn⟩⟩
  · rw [begins declined.steps] at found
    exact absurd missing found
  · rcases takenOn.steps with ⟨middle, -, steps⟩
    rw [begins steps] at takenOn
    exact ⟨stored, batch, takenOn⟩

theorem all_declined (found : surroundings.stored? world address id ≠ none) :
    surroundings.stored? last address id =
        surroundings.stored? world address id ∧
      ∀ who, ∃ checked, Declined address (requests who) checked
        (ownSteps turns who) (results who) := by
  have proceeds := proceeds_of_interleaves interleaves sound calm
  have present := proceeds.stays_stored
    (onlyStores_of_interleaves interleaves address id) found
  have declined (who : ι) : ∃ checked, Declined address (requests who) checked
      (ownSteps turns who) (results who) := by
    rcases rivals.declined_or_takenOn interleaves sound calm who with
      ⟨checked, ⟨-, declined⟩ | ⟨absent, stored, batch, takenOn⟩⟩
    · exact ⟨checked, declined⟩
    · exact absurd absent
        (present _ (rivals.takenOn_mem takenOn).1)
  refine ⟨proceeds.stored?_eq ?_, declined⟩
  intro step member touched
  rcases exists_ownSteps member with ⟨who, own⟩
  rcases declined who with ⟨checked, declined⟩
  rw [declined.steps] at own
  cases List.mem_singleton.1 own
  cases touched

section Absent

variable (absent : surroundings.stored? world address id = none)

include absent

theorem exists_touched [Nonempty ι] :
    ∃ step ∈ turns.map Prod.snd,
      step.request.touched? = some (Records.key address id) := by
  have proceeds := proceeds_of_interleaves interleaves sound calm
  by_contra untouched
  push Not at untouched
  rcases ‹Nonempty ι› with ⟨who⟩
  rcases rivals.declined_or_takenOn interleaves sound calm who with
    ⟨checked, ⟨found, declined⟩ | ⟨-, stored, batch, takenOn⟩⟩
  · apply found
    have member := rivals.declined_mem declined
    rw [← absent]
    exact proceeds.stored?_until checked.moment
      (fun step member _ => untouched step member) _ member (Nat.le_refl _)
  · rcases rivals.takenOn_mem takenOn with ⟨-, stores⟩
    apply untouched _ stores
    rw [← rivals.named who, ← takenOn.id]
    rfl

theorem decided [Nonempty ι] :
    ∃ first final, surroundings.Decided lifetimes address id requests turns results
      last first final := by
  have proceeds := proceeds_of_interleaves interleaves sound calm
  have stores := onlyStores_of_interleaves interleaves address id
  have touched := rivals.exists_touched interleaves sound calm absent
  rcases exists_least (fun step => step.world.moment) touched with
    ⟨first, isFirst, touches, isLeast⟩
  rcases exists_least (fun step => OrderDual.toDual step.world.moment) touched with
    ⟨final, isFinal, touchesLast, isGreatest⟩
  refine ⟨first.world, final.world, ?_, ?_, ?_⟩
  · rcases rivals.takenOn_of_touched interleaves sound calm isFirst touches with
      ⟨who, checked, batch, takenOn, -⟩
    exact ⟨who, checked, batch, takenOn⟩
  · rcases rivals.takenOn_of_touched interleaves sound calm isFinal touchesLast
      with ⟨who, checked, batch, takenOn, isStore⟩
    refine ⟨who, checked, batch, takenOn, ?_⟩
    apply proceeds.stored?_of_last isFinal _ isStore
    · intro other isMember later touchesOther
      have order := OrderDual.toDual_le_toDual.1
        (isGreatest other isMember touchesOther)
      omega
    · rw [takenOn.id, rivals.named who]
  · intro who
    rcases rivals.declined_or_takenOn interleaves sound calm who with
      ⟨checked, ⟨found, declined⟩ | ⟨missing, stored, batch, takenOn⟩⟩
    · have member := rivals.declined_mem declined
      refine ⟨checked, .inr ⟨?_, declined⟩⟩
      by_contra before
      apply found
      rw [← absent]
      refine proceeds.stored?_until first.world.moment ?_ _ member
        (Nat.le_of_not_lt before)
      intro step isMember early touchesEarly
      have order := isLeast step isMember touchesEarly
      omega
    · rcases rivals.takenOn_mem takenOn with ⟨reads, writes⟩
      have touchesOwn : (Step.writeRecord lifetimes stored address
          batch).request.touched? = some (Records.key address id) := by
        rw [← rivals.named who, ← takenOn.id]
        rfl
      refine ⟨checked, .inl ⟨?_, stored, batch, takenOn, ?_, ?_⟩⟩
      · by_contra late
        have order := Nat.le_of_not_lt late
        rcases Nat.lt_or_eq_of_le order with later | same
        · exact proceeds.stored_beyond stores isFirst reads later touches missing
        · cases proceeds.linked.eq_of_moment isFirst reads same
          cases touches
      · exact isLeast _ writes touchesOwn
      · exact OrderDual.toDual_le_toDual.1 (isGreatest _ writes touchesOwn)

end Absent

end Rivals

end Rivals

/-- Calls for batches of one name, at the same time.  When there is a record
already they are all declined; otherwise the first record that is stored decides
about every call. -/
theorem rival_submissions_decided {ι : Type} [DecidableEq ι] [Nonempty ι]
    (surroundings : Surroundings) (lifetimes : Lifetimes) (address id : String)
    (requests : ι → BatchRequest) (sources : ι → Option String)
    (world last : World) (turns : List (ι × Step))
    (results : ι → Except BatchError Batch)
    (rivals : surroundings.Rivals address id requests sources)
    (interleaves : surroundings.Interleaves
      (fun who => submit lifetimes (requests who) (sources who)) world turns
      results last)
    (sound : world.Sound []) (calm : ∀ turn ∈ turns, surroundings.Calm turn.2) :
    (surroundings.stored? world address id ≠ none →
      surroundings.stored? last address id =
          surroundings.stored? world address id ∧
        ∀ who, ∃ checked, Declined address (requests who) checked
          (ownSteps turns who) (results who)) ∧
    (surroundings.stored? world address id = none →
      ∃ first final, surroundings.Decided lifetimes address id requests turns
        results last first final) :=
  ⟨rivals.all_declined interleaves sound calm,
    fun absent => rivals.decided interleaves sound calm absent⟩

/-! ## Two calls that both look first -/

section Race

variable {requests : Bool → BatchRequest} {sources : Bool → Option String}
  (rivals : surroundings.Rivals address id requests sources)

include rivals

/-- The second call takes place as a whole between the check of the first one and
its sending. -/
theorem Rivals.race (lifetimes : Lifetimes) (world : World) :
    ∃ turns results last, surroundings.Interleaves
        (fun who => submit lifetimes (requests who) (sources who)) world turns
        results last ∧
      (∃ rest, ownSteps turns true = .readRecord world address id :: rest) ∧
      ∃ rest, ownSteps turns false = .readRecord
        (surroundings.after (.readRecord world address id)) address id ::
          rest := by
  have shaped (who : Bool) : (requests who).checkShape = .ok address := by
    rcases rivals.passes who with ⟨batch, passes⟩
    exact passes.shaped
  refine ⟨_, _, _, interleaves_around (requests true).validate _ rfl world, ?_, ?_⟩
  · rw [ownSteps_append, ownSteps_map_self,
      surroundings.steps_validate world (shaped true), rivals.named]
    exact ⟨_, rfl⟩
  · rw [ownSteps_append, ownSteps_append, ownSteps_map_of_ne (by decide),
      ownSteps_map_self, surroundings.world_validate world (shaped true)]
    rcases surroundings.steps_submit (surroundings.after (.readRecord world address
      (requests true).id)) (shaped false) lifetimes (sources false) with
      ⟨rest, steps⟩
    rw [steps, rivals.named, rivals.named]
    exact ⟨_, rfl⟩

end Race

end Surroundings

namespace Sample

/-- Two requests with one name. -/
def rival (who : Bool) : BatchRequest :=
  .ofGroups "b" [[bif who then first else third]]

theorem rivals :
    (network third).Rivals alice "b" rival fun _ => none where
  passes who := by
    refine ⟨_, BatchRequest.passes_ofGroups (by decide) (by simp) (by simp) ?_⟩
    intro group isGroup transaction member
    rw [List.mem_singleton.1 isGroup] at member
    rw [List.mem_singleton.1 member]
    cases who
    · exact third_valid
    · exact first_valid
  named _ := rfl
  takes who transaction member moment := by
    cases who with
    | false =>
        obtain same : transaction = third.payload := List.mem_singleton.1 member
        rw [same]
        exact ⟨_, (retry third).takesThird moment⟩
    | true =>
        obtain same : transaction = first.payload := List.mem_singleton.1 member
        rw [same]
        exact ⟨_, (retry third).takesFirst moment⟩

theorem race_calm {turns : List (Bool × Step)}
    {results : Bool → Except BatchError Batch} {last : World}
    (interleaves : (network third).Interleaves
      (fun who => submit .forever (rival who) none) attempts.start turns results
      last) : ∀ turn ∈ turns, (network third).Calm turn.2 := by
  have timeless : attempts.start.Timeless := by
    intro key entry member
    cases member
  have calm := interleaves.linked.calm_of_forever (fun _ _ => rfl) timeless (by
    intro step member
    rcases exists_ownSteps member with ⟨who, own⟩
    exact (Surroundings.answers_of_interleaves interleaves who).writesForever rfl
      step own)
  intro turn member
  exact calm turn.2 (List.mem_map_of_mem member)

end Sample

namespace Surroundings

theorem race_decided :
    (Sample.network Sample.third).Rivals Sample.alice "b" Sample.rival
        (fun _ => none) ∧
      Sample.attempts.start.Sound [] ∧
      ∃ turns results last, (Sample.network Sample.third).Interleaves
          (fun who => submit .forever (Sample.rival who) none)
          Sample.attempts.start turns results last ∧
        (∀ turn ∈ turns, (Sample.network Sample.third).Calm turn.2) ∧
        ∃ first final, (Sample.network Sample.third).Decided .forever Sample.alice
          "b" Sample.rival turns results last first final := by
  refine ⟨Sample.rivals, Sample.attempts.sound_start, ?_⟩
  rcases Sample.rivals.race .forever Sample.attempts.start with
    ⟨turns, results, last, interleaves, -, -⟩
  have calm := Sample.race_calm interleaves
  have decided := rival_submissions_decided (Sample.network Sample.third) .forever
    Sample.alice "b" Sample.rival (fun _ => none) Sample.attempts.start last turns
    results Sample.rivals interleaves Sample.attempts.sound_start calm
  exact ⟨turns, results, last, interleaves, calm,
    decided.2 (Sample.attempts.stored?_start Sample.alice "b")⟩

/-- Two calls of one sender with one name, each of which sends its transfer and
comes back without an error. -/
theorem both_rivals_sent :
    (∀ who, (Sample.rival who).id = "b") ∧
    (∀ who, (Sample.rival who).checkShape = .ok Sample.alice) ∧
    ∃ turns results last, (Sample.network Sample.third).Interleaves
        (fun who => submit .forever (Sample.rival who) none)
        Sample.attempts.start turns results last ∧
      (∀ turn ∈ turns, (Sample.network Sample.third).Calm turn.2) ∧
      ∀ who, (∃ batch, results who = .ok batch) ∧
        (ownSteps turns who).filterMap Step.sent? =
          [(bif who then Sample.first else Sample.third).payload] := by
  have rivals := Sample.rivals
  have sound := Sample.attempts.sound_start
  refine ⟨rivals.named, ?_, ?_⟩
  · intro who
    rcases rivals.passes who with ⟨batch, passes⟩
    exact passes.shaped
  rcases rivals.race .forever Sample.attempts.start with
    ⟨turns, results, last, interleaves, ⟨_, firstOwn⟩, ⟨_, secondOwn⟩⟩
  have calm := Sample.race_calm interleaves
  have absent : (Sample.network Sample.third).stored? Sample.attempts.start
      Sample.alice "b" = none := Sample.attempts.stored?_start Sample.alice "b"
  have stillAbsent : (Sample.network Sample.third).stored?
      ((Sample.network Sample.third).after
        (.readRecord Sample.attempts.start Sample.alice "b")) Sample.alice "b" =
      none := by
    have opening : (.readRecord Sample.attempts.start Sample.alice "b") ∈
        ownSteps turns true := by
      rw [firstOwn]
      exact List.mem_cons_self
    rw [stored?_readRecord (calm _ (mem_ownSteps.1 opening)) sound]
    exact absent
  have takenOn (who : Bool) : ∃ checked stored batch, TakenOn .forever Sample.alice
      (Sample.rival who) checked stored batch (ownSteps turns who)
      (results who) := by
    cases who with
    | false =>
        exact ⟨_, rivals.takenOn_of_check interleaves sound calm secondOwn
          stillAbsent⟩
    | true =>
        exact ⟨_, rivals.takenOn_of_check interleaves sound calm firstOwn absent⟩
  refine ⟨turns, results, last, interleaves, calm, ?_⟩
  intro who
  rcases takenOn who with ⟨checked, stored, batch, taken⟩
  exact ⟨⟨batch, taken.result⟩, taken.sent⟩

end Surroundings

end BatchRelay
