import BatchRelay.Proofs.Cache.Deadlines
import BatchRelay.Proofs.Engine.Interleaving
import BatchRelay.Proofs.Engine.Leases

/-!
# Calls on one lease

Any number of calls take turns on one lease, with tokens of their own, while
others leave its entry alone.  Some of them may have stopped half-way.

As long as the lease of a call lasts its entry stays in the cache, so nobody else
takes it.  Only a call that has run out of time can share the lease with another.
The cache in a table counts moments in 64 bits: a lease that would last beyond
them runs out at once.
-/

namespace BatchRelay

namespace Surroundings

variable {ι : Type} [DecidableEq ι] {α : ι → Type}

/-- Calls on one lease that take turns, with steps of others (`none`) in between.
A call may have more to do.  Neither the works nor the others touch the entry of
the lease, and no two calls have the same token. -/
structure Contends (surroundings : Surroundings) (lease : ι → Lease)
    (work : ∀ who, Activity (α who)) (key : String) (world : World)
    (turns : List (Option ι × Step)) (last : World) : Prop where
  unique : world.cache.entries.Unique
  linked : surroundings.Linked world (turns.map Prod.snd) last
  same : ∀ who, (lease who).key = key
  calls : ∀ who, ∃ more result, surroundings.Performs
    ((lease who).run (work who)) (ownSteps turns (some who) ++ more) result
  aside : ∀ who steps value, surroundings.Performs (work who) steps value →
    ∀ step ∈ steps, step.request.touched? ≠ some key
  others : ∀ step ∈ ownSteps turns none, step.request.touched? ≠ some key
  distinct : ∀ who other text, who ≠ other →
    surroundings.token? (ownSteps turns (some who)) = some text →
      surroundings.token? (ownSteps turns (some other)) ≠ some text

/-- A call has taken the lease in the world `taken`. -/
structure Acquires (surroundings : Surroundings) (lease : Lease) (steps : List Step)
    (taken : World) (token : String) : Prop where
  own : ⟨taken, .writeIfAbsent lease.key token lease.ttl⟩ ∈ steps
  granted : (surroundings.answer taken
    (.writeIfAbsent lease.key token lease.ttl)).1 = .ok true

/-- A call that took the lease in the world `taken` has not asked to give it back
before some moment. -/
structure AtWork (surroundings : Surroundings) (lease : Lease) (steps : List Step)
    (taken : World) (moment : Nat) : Prop where
  takes : ∃ token, surroundings.Acquires lease steps taken token
  begun : taken.moment < moment
  unreleased : ∀ step ∈ steps, ∀ token,
    step.request = .deleteIfEquals lease.key token → moment ≤ step.world.moment

/-- What calls on one lease can rely on. -/
structure LeaseSafe (surroundings : Surroundings) (lease : ι → Lease)
    (work : ∀ who, Activity (α who)) (key : String)
    (turns : List (Option ι × Step)) : Prop where
  /-- Two works go on at the same time only if the time of the earlier one had
  run out when the later one began. -/
  overlap : ∀ who other first second moment, who ≠ other →
    surroundings.AtWork (lease who) (ownSteps turns (some who)) first moment →
    surroundings.AtWork (lease other) (ownSteps turns (some other)) second moment →
    first.moment ≤ second.moment →
    first.cache.Reaches (surroundings.millis first) (lease who).ttl →
      surroundings.millis first + (lease who).ttl ≤ surroundings.millis second
  /-- A call that has not taken the lease goes no further than asking for it,
  has no result of its work, and leaves the entry as it is. -/
  idle : ∀ who, (∀ taken token,
      ¬surroundings.Acquires (lease who) (ownSteps turns (some who)) taken token) →
    (∃ asked taken token, ownSteps turns (some who) <+:
      [⟨asked, .token⟩,
        ⟨taken, .writeIfAbsent key token (lease who).ttl⟩]) ∧
    (∀ result value, surroundings.Performs ((lease who).run (work who))
      (ownSteps turns (some who)) result → result ≠ .ok (some value)) ∧
    ∀ step ∈ ownSteps turns (some who), ∀ entry,
      (key, entry) ∈ (surroundings.after step).cache.entries ↔
        (key, entry) ∈ step.world.cache.entries
  /-- A call that gives the lease back leaves an entry of another holder. -/
  spares : ∀ who, ∀ step ∈ ownSteps turns (some who), ∀ token,
    step.request = .deleteIfEquals key token →
    ∀ entry, (key, entry) ∈ step.world.cache.entries →
      surroundings.token? (ownSteps turns (some who)) ≠ some entry.value →
        (key, entry) ∈ (surroundings.after step).cache.entries
  /-- A call that has given the lease back no longer holds it. -/
  released : ∀ who released token deleted,
    ⟨released, .deleteIfEquals key token⟩ ∈ ownSteps turns (some who) →
    (surroundings.answer released (.deleteIfEquals key token)).1 = .ok deleted →
      surroundings.value?
          (surroundings.after ⟨released, .deleteIfEquals key token⟩) key ≠
        surroundings.token? (ownSteps turns (some who))

variable {surroundings : Surroundings} {lease : ι → Lease}
  {work : ∀ who, Activity (α who)} {key : String} {world last : World}
  {turns : List (Option ι × Step)}

namespace Contends

variable (contends : surroundings.Contends lease work key world turns last)

include contends

theorem unique_at {step : Step} (member : step ∈ turns.map Prod.snd) :
    step.world.cache.entries.Unique :=
  contends.linked.keeps_at (·.cache.entries.Unique) contends.unique
    (fun _ _ unique => unique_after unique) step member

theorem asks {who : ι} {step : Step} (own : step ∈ ownSteps turns (some who)) :
    ∃ token, surroundings.token? (ownSteps turns (some who)) = some token ∧
      (lease who).Asks token step.request := by
  obtain ⟨more, result, performs⟩ := contends.calls who
  apply (Lease.Calls.of_performs performs).asks _ step own
  rw [contends.same]
  exact contends.aside who

theorem token_of_takes {who : ι} {taken : World} {token : String}
    (takes : surroundings.Acquires (lease who) (ownSteps turns (some who)) taken
      token) :
    surroundings.token? (ownSteps turns (some who)) = some token := by
  obtain ⟨own, isOwn, asks⟩ := contends.asks takes.own
  cases asks with
  | aside untouched => exact absurd rfl untouched
  | acquires => exact isOwn

theorem token_of_release {who : ι} {step : Step} {token : String}
    (own : step ∈ ownSteps turns (some who))
    (gives : step.request = .deleteIfEquals key token) :
    surroundings.token? (ownSteps turns (some who)) = some token := by
  obtain ⟨own, isOwn, asks⟩ := contends.asks own
  rw [gives, ← contends.same who] at asks
  cases asks with
  | aside untouched => exact absurd rfl untouched
  | releases => exact isOwn

end Contends

/-! ## The entry of a holder -/

/-- What is left of a lease: its entry, unless it has run out. -/
def Kept (surroundings : Surroundings) (key token : String) (deadline : Int)
    (world : World) : Prop :=
  deadline ≤ surroundings.millis world ∨
    (key, ⟨token, some deadline⟩) ∈ world.cache.entries

theorem Kept.expired_of_taken {token other : String} {deadline : Int}
    {taken : World} {ttl : Nat}
    (kept : surroundings.Kept key token deadline taken)
    (unique : taken.cache.entries.Unique)
    (granted : (surroundings.answer taken (.writeIfAbsent key other ttl)).1 =
      .ok true) : deadline ≤ surroundings.millis taken := by
  rcases kept with expired | member
  · exact expired
  · have free := (writeIfAbsent_taken unique granted).1
    apply Int.not_lt.1
    intro live
    rw [(value?_eq_some_iff unique).2 ⟨_, member, by simpa [Entry.isLive], rfl⟩]
      at free
    cases free

/-- The step lemma: only the holder itself ends a lease before its time. -/
theorem Kept.after {token : String} {deadline : Int} {step : Step}
    (kept : surroundings.Kept key token deadline step.world)
    (forward : surroundings.Forward)
    (unique : step.world.cache.entries.Unique) {lease : Lease} {own : String}
    (same : lease.key = key) (asks : lease.Asks own step.request)
    (isOther : step.request = .deleteIfEquals key own → own ≠ token) :
    surroundings.Kept key token deadline (surroundings.after step) := by
  obtain ⟨world, request⟩ := step
  by_cases expired : deadline ≤ surroundings.millis world
  · exact .inl (Int.le_trans expired (forward.millis_after ⟨world, request⟩))
  · have member := kept.resolve_left expired
    refine .inr ?_
    subst same
    cases asks with
    | aside untouched =>
        exact mem_after_of_mem untouched member
          (by simpa [Entry.isLive] using Int.not_le.1 expired)
    | acquires =>
        apply (writeIfAbsent_refused unique _).2 member
        intro granted
        exact expired (kept.expired_of_taken unique granted)
    | releases =>
        exact deleteIfEquals_keeps unique member (isOther rfl).symm

namespace Contends

variable (contends : surroundings.Contends lease work key world turns last)

include contends

theorem kept_after (forward : surroundings.Forward) {who : ι} {token : String}
    {deadline : Int} {step : Step} (member : step ∈ turns.map Prod.snd)
    (isToken : surroundings.token? (ownSteps turns (some who)) = some token)
    (unreleased : step ∈ ownSteps turns (some who) →
      step.request ≠ .deleteIfEquals key token)
    (kept : surroundings.Kept key token deadline step.world) :
    surroundings.Kept key token deadline (surroundings.after step) := by
  have unique := contends.unique_at member
  obtain ⟨taker, own⟩ := exists_ownSteps member
  cases taker with
  | none =>
      have untouched := contends.others step own
      have asks : (lease who).Asks token step.request := by
        apply Lease.Asks.aside
        rw [contends.same]
        exact untouched
      apply kept.after forward unique (contends.same who) asks
      intro gives
      exact absurd (by rw [gives]; rfl) untouched
  | some taker =>
      obtain ⟨rival, isRival, asks⟩ := contends.asks own
      apply kept.after forward unique (contends.same taker) asks
      rintro gives rfl
      by_cases same : taker = who
      · subst same
        exact unreleased own gives
      · exact contends.distinct taker who _ same isRival isToken

theorem lt_of_takes {who other : ι} {first second : World} {token rival : String}
    (isOther : who ≠ other)
    (takes : surroundings.Acquires (lease who) (ownSteps turns (some who)) first token)
    (takesOther : surroundings.Acquires (lease other) (ownSteps turns (some other))
      second rival)
    (order : first.moment ≤ second.moment) : first.moment < second.moment := by
  apply Nat.lt_of_le_of_ne order
  intro same
  have sameStep := contends.linked.eq_of_moment (mem_of_ownSteps takes.own)
    (mem_of_ownSteps takesOther.own) same
  obtain ⟨-, sameRequest⟩ := Step.mk.inj sameStep
  obtain ⟨-, rfl, -⟩ := Request.writeIfAbsent.inj sameRequest
  exact contends.distinct who other _ isOther (contends.token_of_takes takes)
    (contends.token_of_takes takesOther)

/-- The run lemma: when another call takes the lease of a call that still works,
it has run out. -/
theorem expired_of_works (forward : surroundings.Forward) {who other : ι}
    {first second : World} {moment : Nat} (isOther : who ≠ other)
    (works : surroundings.AtWork (lease who) (ownSteps turns (some who)) first
      moment)
    (worksOther : surroundings.AtWork (lease other) (ownSteps turns (some other))
      second moment)
    (order : first.moment ≤ second.moment) :
    first.cache.deadline (surroundings.millis first) (lease who).ttl ≤
      surroundings.millis second := by
  obtain ⟨token, takes⟩ := works.takes
  obtain ⟨rival, takesOther⟩ := worksOther.takes
  have member := mem_of_ownSteps takes.own
  have isMember := mem_of_ownSteps takesOther.own
  have written := (writeIfAbsent_taken (contends.unique_at member) takes.granted).2
  have later := contends.lt_of_takes isOther takes takesOther order
  obtain ⟨back, onwards, isBack⟩ := contends.linked.beyond member
  simp only [contends.same] at written onwards
  have kept : second.moment ≤ second.moment →
      surroundings.Kept key token
        (first.cache.deadline (surroundings.millis first) (lease who).ttl)
        second := by
    -- Up to the moment at which the other call takes the lease.
    apply onwards.keeps_at (fun reached => reached.moment ≤ second.moment →
      surroundings.Kept key token _ reached) (fun _ => .inr written) ?_ _
      ((isBack _).2 ⟨isMember, later⟩)
    intro step inBack keeps before
    rw [moment_after] at before
    apply contends.kept_after forward ((isBack step).1 inBack).1
      (contends.token_of_takes takes) ?_ (keeps (Nat.le_of_lt before))
    intro own gives
    rw [← contends.same who] at gives
    have unreleased := works.unreleased step own _ gives
    have begun := worksOther.begun
    omega
  have granted := takesOther.granted
  rw [contends.same] at granted
  exact (kept (Nat.le_refl _)).expired_of_taken (contends.unique_at isMember)
    granted

theorem idle {who : ι}
    (never : ∀ taken token,
      ¬surroundings.Acquires (lease who) (ownSteps turns (some who)) taken token) :
    (∃ asked taken token, ownSteps turns (some who) <+:
      [⟨asked, .token⟩,
        ⟨taken, .writeIfAbsent key token (lease who).ttl⟩]) ∧
    (∀ result value, surroundings.Performs ((lease who).run (work who))
      (ownSteps turns (some who)) result → result ≠ .ok (some value)) ∧
    ∀ step ∈ ownSteps turns (some who), ∀ entry,
      (key, entry) ∈ (surroundings.after step).cache.entries ↔
        (key, entry) ∈ step.world.cache.entries := by
  have refused (taken : World) (token : String)
      (own : ⟨taken, .writeIfAbsent (lease who).key token (lease who).ttl⟩ ∈
        ownSteps turns (some who)) :
      (surroundings.answer taken
        (.writeIfAbsent (lease who).key token (lease who).ttl)).1 ≠ .ok true :=
    fun granted => never taken token ⟨own, granted⟩
  obtain ⟨more, result, performs⟩ := contends.calls who
  have stops := (Lease.Calls.of_performs performs).stops refused
  rw [contends.same] at stops refused
  refine ⟨stops, ?_, ?_⟩
  · intro result value performs
    rw [← contends.same who] at refused
    exact (Lease.Calls.of_performs performs).idle refused value
  · intro step own entry
    have unique := contends.unique_at (mem_of_ownSteps own)
    obtain ⟨asked, taken, token, begins⟩ := stops
    rcases List.mem_cons.1 (begins.subset own) with rfl | isSecond
    · rw [cache_after_untouched rfl]
    · cases List.mem_singleton.1 isSecond
      exact writeIfAbsent_refused unique (refused taken token own)

end Contends

/-- Leases are safe, except that in a table a lease that would last beyond the
moments of 64 bits does not last. -/
theorem leases_safe (contends : surroundings.Contends lease work key world turns last)
    (forward : surroundings.Forward) :
    surroundings.LeaseSafe lease work key turns where
  overlap who other first second moment isOther works worksOther order reaches := by
    rw [← reaches.deadline_eq]
    exact contends.expired_of_works forward isOther works worksOther order
  idle who never := contends.idle never
  spares who step own token gives entry member isOther := by
    have unique := contends.unique_at (mem_of_ownSteps own)
    rw [contends.token_of_release own gives] at isOther
    obtain ⟨world, request⟩ := step
    cases gives
    exact deleteIfEquals_keeps unique member fun same => isOther (same ▸ rfl)
  released who released token deleted own works := by
    rw [contends.token_of_release own rfl]
    exact deleteIfEquals_clears (contends.unique_at (mem_of_ownSteps own))
      (forward.millis_after _) works

/-! ## A lease that is taken over -/

/-- Requests that are answered one after the other, each with who asks. -/
def takeTurns {κ : Type} (surroundings : Surroundings) :
    World → List (κ × Request) → List (κ × Step)
  | _, [] => []
  | world, (who, request) :: rest =>
      (who, ⟨world, request⟩) ::
        surroundings.takeTurns (surroundings.after ⟨world, request⟩) rest

theorem linked_takeTurns {κ : Type} (surroundings : Surroundings) (world : World)
    (requests : List (κ × Request)) :
    ∃ last, surroundings.Linked world
      ((surroundings.takeTurns world requests).map Prod.snd) last := by
  induction requests generalizing world with
  | nil => exact ⟨world, .nil⟩
  | cons turn rest induction =>
      obtain ⟨last, links⟩ := induction (surroundings.after ⟨world, turn.2⟩)
      exact ⟨last, .cons links⟩

end Surroundings

namespace Sample

/-- Surroundings with a clock, in which nothing fails. -/
def timed (clock : Nat → Instant) : Surroundings where
  fault _ _ := none
  send _ _ := .ok ""
  latestNonce _ _ := .ok 0
  block _ _ _ := .ok []
  lookup _ _ := .ok none
  now := clock
  token moment := if moment = 0 then "first" else "second"

/-- The lease of the sweep, for some milliseconds. -/
def sweepLease (ttl : Nat) : Lease :=
  ⟨"sweep", ttl⟩

/-- Calls with nothing to do. -/
def idle (_ : Bool) : Activity Unit :=
  pure ()

/-- Two calls on a table: the first one takes the lease, then the second one does,
and then both give it back. -/
def takeover (clock : Nat → Instant) (ttl : Nat) : List (Option Bool × Step) :=
  (timed clock).takeTurns (World.start (.table .empty))
    [(some true, .token),
      (some true, .writeIfAbsent "lock:sweep" "first" ttl),
      (some false, .token),
      (some false, .writeIfAbsent "lock:sweep" "second" ttl),
      (some true, .deleteIfEquals "lock:sweep" "first"),
      (some false, .deleteIfEquals "lock:sweep" "second")]

variable {clock : Nat → Instant} {ttl : Nat}

/-- The world in which a turn is taken. -/
def takeoverAt (clock : Nat → Instant) (ttl index : Nat) : World :=
  match (takeover clock ttl)[index]? with
  | some turn => turn.2.world
  | none => World.start (.table .empty)

theorem first_granted :
    ((timed clock).answer (takeoverAt clock ttl 1)
      (.writeIfAbsent "lock:sweep" "first" ttl)).1 = .ok true :=
  rfl

theorem second_granted
    (expired : TableCache.deadline (clock 1).toMillis ttl ≤ (clock 3).toMillis) :
    ((timed clock).answer (takeoverAt clock ttl 3)
      (.writeIfAbsent "lock:sweep" "second" ttl)).1 = .ok true := by
  have entries : (takeoverAt clock ttl 3).cache = .table ⟨[("lock:sweep",
      ⟨"first", some (TableCache.deadline (clock 1).toMillis ttl)⟩)]⟩ :=
    rfl
  apply Surroundings.writeIfAbsent_free _ rfl
  · have moment : (takeoverAt clock ttl 3).moment = 3 := rfl
    simp [Surroundings.value?, Surroundings.millis, entries, moment, Cache.get,
      TableCache.get, Entries.findLive?, Entries.find?, Entry.isLive, timed, expired]
  · rw [entries]
    simp [Cache.entries, Entries.Unique]

/-- The token of a call. -/
def tokenOf (who : Bool) : String :=
  if who then "first" else "second"

theorem tokenOf_injective :
    ∀ who other, tokenOf who = tokenOf other → who = other := by
  decide

theorem ownSteps_takeover (who : Bool) :
    ownSteps (takeover clock ttl) (some who) =
      [⟨takeoverAt clock ttl (if who then 0 else 2), .token⟩,
        ⟨takeoverAt clock ttl (if who then 1 else 3),
          .writeIfAbsent "lock:sweep" (tokenOf who) ttl⟩,
        ⟨takeoverAt clock ttl (if who then 4 else 5),
          .deleteIfEquals "lock:sweep" (tokenOf who)⟩] := by
  cases who <;> rfl

theorem token?_takeover (who : Bool) :
    (timed clock).token? (ownSteps (takeover clock ttl) (some who)) =
      some (tokenOf who) := by
  cases who <;> rfl

theorem takeover_takes
    (expired : TableCache.deadline (clock 1).toMillis ttl ≤ (clock 3).toMillis)
    (who : Bool) :
    (timed clock).Acquires (sweepLease ttl) (ownSteps (takeover clock ttl) (some who))
      (takeoverAt clock ttl (if who then 1 else 3)) (tokenOf who) where
  own := by
    rw [ownSteps_takeover]
    exact List.mem_cons_of_mem _ List.mem_cons_self
  granted := by
    cases who with
    | true => exact first_granted
    | false => exact second_granted expired

theorem takeover_works
    (expired : TableCache.deadline (clock 1).toMillis ttl ≤ (clock 3).toMillis)
    (who : Bool) :
    (timed clock).AtWork (sweepLease ttl) (ownSteps (takeover clock ttl) (some who))
      (takeoverAt clock ttl (if who then 1 else 3)) 4 where
  takes := ⟨tokenOf who, takeover_takes expired who⟩
  begun := by
    cases who <;> exact Nat.le_of_ble_eq_true rfl
  unreleased := by
    intro step own token gives
    rw [ownSteps_takeover] at own
    simp only [List.mem_cons, List.not_mem_nil, or_false] at own
    rcases own with rfl | rfl | rfl
    · cases gives
    · cases gives
    · cases who <;> exact Nat.le_of_ble_eq_true rfl

theorem takeover_contends
    (expired : TableCache.deadline (clock 1).toMillis ttl ≤ (clock 3).toMillis) :
    ∃ last, (timed clock).Contends (fun _ => sweepLease ttl) idle "lock:sweep"
      (World.start (.table .empty)) (takeover clock ttl) last := by
  obtain ⟨last, links⟩ :=
    (timed clock).linked_takeTurns (World.start (.table .empty)) _
  refine ⟨last, List.nodup_nil, links, fun _ => rfl, ?_, ?_, nofun, ?_⟩
  case refine_1 =>
    intro who
    refine ⟨[], .ok (some ()), ?_⟩
    apply Lease.Calls.performs
    cases who with
    | true => exact .worked (takeover_takes expired true).granted .done
    | false => exact .worked (takeover_takes expired false).granted .done
  case refine_2 =>
    intro _ steps _ performs
    obtain ⟨rfl, -⟩ := Surroundings.performs_pure.1 performs
    exact nofun
  case refine_3 =>
    intro who other text isOther isToken isSame
    rw [token?_takeover] at isToken isSame
    have same := Option.some.inj (isToken.trans isSame.symm)
    exact isOther (tokenOf_injective who other same)

/-- The clock goes on by a second with every request, so that a lease of one
second has run out when the second call asks for it. -/
theorem takeover_safe :
    let clock (moment : Nat) : Instant := ⟨moment, 0⟩
    (∃ last, (timed clock).Contends (fun _ => sweepLease 1000) idle "lock:sweep"
      (World.start (.table .empty)) (takeover clock 1000) last) ∧
    (timed clock).Forward ∧
    (timed clock).LeaseSafe (fun _ => sweepLease 1000) idle "lock:sweep"
      (takeover clock 1000) := by
  intro clock
  obtain ⟨last, contends⟩ : ∃ last, (timed clock).Contends
      (fun _ => sweepLease 1000) idle "lock:sweep" (World.start (.table .empty))
      (takeover clock 1000) last :=
    takeover_contends (by decide)
  have forward : (timed clock).Forward := by
    intro earlier later order
    simp only [timed, clock, Instant.toMillis]
    omega
  exact ⟨⟨last, contends⟩, forward, Surroundings.leases_safe contends forward⟩

/-- The first number of milliseconds with more than 63 bits. -/
def endless : Nat :=
  9223372036854775808

/-- In a table such a lease has run out at once: the clock stands still, and both
works go on at the same time. -/
theorem endless_lease_shared :
    let clock (_ : Nat) : Instant := ⟨0, 0⟩
    let first := takeoverAt clock endless 1
    let second := takeoverAt clock endless 3
    (∃ last, (timed clock).Contends (fun _ => sweepLease endless) idle "lock:sweep"
      (World.start (.table .empty)) (takeover clock endless) last) ∧
    (timed clock).Forward ∧
    (timed clock).AtWork (sweepLease endless)
      (ownSteps (takeover clock endless) (some true)) first 4 ∧
    (timed clock).AtWork (sweepLease endless)
      (ownSteps (takeover clock endless) (some false)) second 4 ∧
    first.moment ≤ second.moment ∧
    ¬(timed clock).millis first + endless ≤ (timed clock).millis second := by
  intro clock first second
  have expired :
      TableCache.deadline (clock 1).toMillis endless ≤ (clock 3).toMillis := by
    decide
  refine ⟨takeover_contends expired, fun _ _ _ => Int.le_refl _, ?_, ?_,
    by decide, by decide⟩
  · exact takeover_works expired true
  · exact takeover_works expired false

end Sample

end BatchRelay
