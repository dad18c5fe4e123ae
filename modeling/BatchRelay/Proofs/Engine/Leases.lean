import BatchRelay.Proofs.Cache.Operations
import BatchRelay.Proofs.Engine.Contents
import BatchRelay.Proofs.Engine.Interference

/-!
# Leases, step by step

A call asks for a token, takes the lease, works, and gives the lease back.  What
taking and giving back do to the entry of the lease is the same for both kinds
of cache, as far as the entry counts.
-/

namespace BatchRelay

/-! ## The entry of a lease -/

namespace Cache

variable {cache : Cache} {now later : Int} {key value : String} {entry : Entry}
  {ttl : Nat} (unique : cache.entries.Unique)

include unique

theorem mem_setIfAbsent_of_refused
    (refused : (cache.setIfAbsent now key value ttl).1 = false) :
    (key, entry) ∈ (cache.setIfAbsent now key value ttl).2.entries ↔
      (key, entry) ∈ cache.entries := by
  rw [setIfAbsent_answer unique, Option.isNone_eq_false_iff,
    get_isSome_iff unique] at refused
  obtain ⟨holder, member, live⟩ := refused
  have kept : (key, holder) ∈ (cache.setIfAbsent now key value ttl).2.entries :=
    (mem_setIfAbsent_of_get_eq_some unique (get_of_mem unique member live)
      live).2 member
  constructor
  · intro after
    exact (unique_setIfAbsent unique).eq_of_mem after kept ▸ member
  · intro before
    exact unique.eq_of_mem before member ▸ kept

omit unique in
theorem deleteIfEquals_of_refused
    (refused : (cache.deleteIfEquals now key value).1 = false) :
    (cache.deleteIfEquals now key value).2 = cache := by
  cases cache with
  | memory cache =>
      simp only [deleteIfEquals, MemoryCache.deleteIfEquals] at refused ⊢
      split at refused
      case isTrue => cases refused
      case isFalse differs => rw [if_neg differs]
  | table cache =>
      simp only [deleteIfEquals, TableCache.deleteIfEquals] at refused ⊢
      split at refused
      case isTrue => cases refused
      case isFalse differs => rw [if_neg differs]

theorem mem_deleteIfEquals_of_ne (member : (key, entry) ∈ cache.entries)
    (differs : entry.value ≠ value) :
    (key, entry) ∈ (cache.deleteIfEquals now key value).2.entries := by
  cases deleted : (cache.deleteIfEquals now key value).1 with
  | false =>
      rw [deleteIfEquals_of_refused deleted]
      exact member
  | true =>
      obtain ⟨holder, isHolder, valued⟩ := mem_of_deleteIfEquals unique deleted
      cases unique.eq_of_mem member isHolder
      exact absurd valued differs

theorem get_deleteIfEquals_ne (order : now ≤ later) :
    (cache.deleteIfEquals now key value).2.get later key ≠ some value := by
  intro found
  obtain ⟨entry, member, live, valued⟩ :=
    (get_eq_some_iff (unique_deleteIfEquals unique)).1 found
  have liveNow := Entry.isLive_mono order live
  by_cases present : cache.get now key = some value
  · rw [(deleteIfEquals_of_get_eq unique present).2] at member
    exact (mem_delete.1 member).2 rfl
  · have before := (mem_deleteIfEquals_of_get_ne unique present liveNow).1 member
    exact present (valued ▸ get_of_mem unique before liveNow)

end Cache

namespace Surroundings

variable {surroundings : Surroundings} {world : World} {key token : String}
  {ttl : Nat} {entry : Entry} (unique : world.cache.entries.Unique)

include unique

theorem writeIfAbsent_free (works : surroundings.fault world.moment (.write key) = none)
    (free : surroundings.value? world key = none) :
    (surroundings.answer world (.writeIfAbsent key token ttl)).1 = .ok true := by
  simp only [answer, access_works works, Cache.setIfAbsent_answer unique]
  exact congrArg Except.ok (Option.isNone_iff_eq_none.2 free)

/-- A lease that is taken was free, and its entry is written. -/
theorem writeIfAbsent_taken
    (taken : (surroundings.answer world (.writeIfAbsent key token ttl)).1 =
      .ok true) :
    surroundings.value? world key = none ∧
      (key, ⟨token, some (world.cache.deadline (surroundings.millis world) ttl)⟩) ∈
        (surroundings.after ⟨world, .writeIfAbsent key token ttl⟩).cache.entries := by
  simp only [after, answer, Surroundings.access] at taken ⊢
  split at taken
  case h_1 => cases taken
  case h_2 =>
    have free : world.cache.get (surroundings.millis world) key = none := by
      simpa [Cache.setIfAbsent_answer unique] using taken
    refine ⟨free, ?_⟩
    simp only [World.withCache]
    exact (Cache.mem_setIfAbsent_of_get_eq_none unique free).2 (.inl ⟨rfl, rfl⟩)

theorem writeIfAbsent_refused
    (refused : (surroundings.answer world (.writeIfAbsent key token ttl)).1 ≠
      .ok true) :
    (key, entry) ∈
        (surroundings.after ⟨world, .writeIfAbsent key token ttl⟩).cache.entries ↔
      (key, entry) ∈ world.cache.entries := by
  simp only [after, answer, Surroundings.access] at refused ⊢
  split at refused
  case h_1 => exact Iff.rfl
  case h_2 =>
    simp only [World.withCache]
    apply Cache.mem_setIfAbsent_of_refused unique
    simpa using refused

theorem deleteIfEquals_keeps (member : (key, entry) ∈ world.cache.entries)
    (differs : entry.value ≠ token) :
    (key, entry) ∈
      (surroundings.after ⟨world, .deleteIfEquals key token⟩).cache.entries := by
  simp only [after, answer, Surroundings.access]
  split
  case h_1 => exact member
  case h_2 => exact Cache.mem_deleteIfEquals_of_ne unique member differs

theorem deleteIfEquals_clears {later : Int}
    (order : surroundings.millis world ≤ later)
    {deleted : Bool}
    (works : (surroundings.answer world (.deleteIfEquals key token)).1 =
      .ok deleted) :
    (surroundings.after ⟨world, .deleteIfEquals key token⟩).cache.get later key ≠
      some token := by
  simp only [after, answer, Surroundings.access] at works ⊢
  split at works
  case h_1 => cases works
  case h_2 => exact Cache.get_deleteIfEquals_ne unique order

end Surroundings

/-! ## Calls -/

/-- The token of a call, which is what a call asks for first. -/
def Surroundings.token? (surroundings : Surroundings) (steps : List Step) :
    Option String :=
  steps.head?.map fun first => surroundings.token first.world.moment

namespace Lease

variable {α : Type}

/-- The steps of a call with its result: the lease cannot be asked for, is held
by another, or is taken for the time of the work. -/
inductive Calls (surroundings : Surroundings) (lease : Lease) (work : Activity α) :
    List Step → Except CacheError (Option α) → Prop
  | failed {asked taken : World} {error : CacheError}
      (fails : (surroundings.answer taken (.writeIfAbsent lease.key
        (surroundings.token asked.moment) lease.ttl)).1 = .error error) :
      Calls surroundings lease work
        [⟨asked, .token⟩, ⟨taken, .writeIfAbsent lease.key
          (surroundings.token asked.moment) lease.ttl⟩] (.error error)
  | refused {asked taken : World}
      (held : (surroundings.answer taken (.writeIfAbsent lease.key
        (surroundings.token asked.moment) lease.ttl)).1 = .ok false) :
      Calls surroundings lease work
        [⟨asked, .token⟩, ⟨taken, .writeIfAbsent lease.key
          (surroundings.token asked.moment) lease.ttl⟩] (.ok none)
  | worked {asked taken released : World} {steps : List Step} {value : α}
      (free : (surroundings.answer taken (.writeIfAbsent lease.key
        (surroundings.token asked.moment) lease.ttl)).1 = .ok true)
      (performs : surroundings.Performs work steps value) :
      Calls surroundings lease work
        (⟨asked, .token⟩ :: ⟨taken, .writeIfAbsent lease.key
          (surroundings.token asked.moment) lease.ttl⟩ ::
          (steps ++ [⟨released, .deleteIfEquals lease.key
            (surroundings.token asked.moment)⟩])) (.ok (some value))

variable {surroundings : Surroundings} {lease : Lease} {work : Activity α}
  {steps : List Step} {result : Except CacheError (Option α)}

theorem Calls.of_performs
    (performs : surroundings.Performs (lease.run work) steps result) :
    Calls surroundings lease work steps result := by
  obtain ⟨_, token, _, rfl, asks, performs⟩ := Surroundings.performs_bind.1 performs
  obtain ⟨asked, rfl, rfl⟩ := Surroundings.performs_request.1 asks
  obtain ⟨_, answer, _, rfl, takes, performs⟩ :=
    Surroundings.performs_bind.1 performs
  obtain ⟨taken, rfl, same⟩ := Surroundings.performs_request.1 takes
  match answer, same with
  | .error error, fails =>
      obtain ⟨rfl, rfl⟩ := Surroundings.performs_pure.1 performs
      exact .failed fails.symm
  | .ok false, held =>
      obtain ⟨rfl, rfl⟩ := Surroundings.performs_pure.1 performs
      exact .refused held.symm
  | .ok true, free =>
      obtain ⟨_, value, _, rfl, works, performs⟩ :=
        Surroundings.performs_bind.1 performs
      obtain ⟨_, _, _, rfl, gives, ends⟩ := Surroundings.performs_bind.1 performs
      obtain ⟨released, rfl, -⟩ := Surroundings.performs_request.1 gives
      obtain ⟨rfl, rfl⟩ := Surroundings.performs_pure.1 ends
      exact .worked free.symm works

theorem Calls.performs (calls : Calls surroundings lease work steps result) :
    surroundings.Performs (lease.run work) steps result := by
  have asks (asked : World) :
      surroundings.Performs (Activity.request .token) [⟨asked, .token⟩]
        (surroundings.token asked.moment) :=
    .ask .done
  have takes {taken : World} {token : String} {answer : Except CacheError Bool}
      (answers : (surroundings.answer taken
        (.writeIfAbsent lease.key token lease.ttl)).1 = answer) :
      surroundings.Performs (lease.acquire token)
        [⟨taken, .writeIfAbsent lease.key token lease.ttl⟩] answer :=
    Surroundings.performs_request.2 ⟨taken, rfl, answers.symm⟩
  cases calls with
  | failed fails =>
      exact Surroundings.performs_bind.2 ⟨_, _, _, rfl, asks _,
        Surroundings.performs_bind.2 ⟨_, _, [], rfl, takes fails, .done⟩⟩
  | refused held =>
      exact Surroundings.performs_bind.2 ⟨_, _, _, rfl, asks _,
        Surroundings.performs_bind.2 ⟨_, _, [], rfl, takes held, .done⟩⟩
  | worked free works =>
      exact Surroundings.performs_bind.2 ⟨_, _, _, rfl, asks _,
        Surroundings.performs_bind.2 ⟨_, _, _, rfl, takes free,
          Surroundings.performs_bind.2 ⟨_, _, _, rfl, works, .ask .done⟩⟩⟩

/-- What a call asks for: the lease with its own token, or something that leaves
the entry of the lease alone. -/
inductive Asks (lease : Lease) (token : String) : Request → Prop
  | aside {request : Request} (untouched : request.touched? ≠ some lease.key) :
      Asks lease token request
  | acquires : Asks lease token (.writeIfAbsent lease.key token lease.ttl)
  | releases : Asks lease token (.deleteIfEquals lease.key token)

variable {own more : List Step}

theorem Calls.asks (calls : Calls surroundings lease work (own ++ more) result)
    (aside : ∀ steps value, surroundings.Performs work steps value →
      ∀ step ∈ steps, step.request.touched? ≠ some lease.key) :
    ∀ step ∈ own, ∃ token, surroundings.token? own = some token ∧
      Asks lease token step.request := by
  have all {steps : List Step} (calls : Calls surroundings lease work steps result) :
      ∀ step ∈ steps, ∃ token, surroundings.token? steps = some token ∧
        Asks lease token step.request := by
    cases calls with
    | failed | refused =>
        simp only [List.forall_mem_cons]
        exact ⟨⟨_, rfl, .aside nofun⟩, ⟨_, rfl, .acquires⟩, nofun⟩
    | worked _ performs =>
        simp only [List.forall_mem_cons, List.forall_mem_append]
        refine ⟨⟨_, rfl, .aside nofun⟩, ⟨_, rfl, .acquires⟩, ?_,
          ⟨_, rfl, .releases⟩, nofun⟩
        intro step member
        exact ⟨_, rfl, .aside (aside _ _ performs step member)⟩
  intro step member
  obtain ⟨token, isToken, asks⟩ := all calls step (List.mem_append_left _ member)
  cases own with
  | nil => cases member
  | cons => exact ⟨token, isToken, asks⟩

theorem Calls.stops (calls : Calls surroundings lease work (own ++ more) result)
    (never : ∀ taken token,
      ⟨taken, .writeIfAbsent lease.key token lease.ttl⟩ ∈ own →
        (surroundings.answer taken
          (.writeIfAbsent lease.key token lease.ttl)).1 ≠ .ok true) :
    ∃ asked taken token, own <+:
      [⟨asked, .token⟩, ⟨taken, .writeIfAbsent lease.key token lease.ttl⟩] := by
  generalize split : own ++ more = steps at calls
  cases calls with
  | failed | refused => exact ⟨_, _, _, more, split⟩
  | @worked asked taken _ _ _ free =>
      match own with
      | [] => exact ⟨asked, taken, "", List.nil_prefix⟩
      | [first] =>
          cases split
          exact ⟨asked, taken, "", _, rfl⟩
      | _ :: _ :: rest =>
          simp only [List.cons_append, List.cons.injEq] at split
          obtain ⟨-, rfl, -⟩ := split
          exact absurd free (never _ _ (by simp))

theorem Calls.idle (calls : Calls surroundings lease work steps result)
    (never : ∀ taken token,
      ⟨taken, .writeIfAbsent lease.key token lease.ttl⟩ ∈ steps →
        (surroundings.answer taken
          (.writeIfAbsent lease.key token lease.ttl)).1 ≠ .ok true)
    (value : α) : result ≠ .ok (some value) := by
  cases calls with
  | failed | refused => nofun
  | worked free => exact absurd free (never _ _ (by simp))

end Lease

end BatchRelay
