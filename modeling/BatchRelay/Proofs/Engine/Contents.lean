import BatchRelay.Proofs.Cache.Contents
import BatchRelay.Proofs.Engine.Steps
import BatchRelay.Proofs.Registry.Keys

/-!
# What a step does to the cache

A request writes or deletes at most one key.  What is found afterwards under a
key that it did not write was found there before, unless the clock goes back.
What was found under a key that it did not touch is still found, unless its time
has run out.
-/

namespace BatchRelay

/-- The key and the value that a request writes. -/
def Request.written? : Request → Option (String × String)
  | .write key value _ => some (key, value)
  | .writeIfAbsent key value _ => some (key, value)
  | _ => none

/-- The key that a request writes or deletes. -/
def Request.touched? : Request → Option String
  | .write key _ _ => some key
  | .writeIfAbsent key _ _ => some key
  | .delete key => some key
  | .deleteIfEquals key _ => some key
  | _ => none

theorem Request.touched?_of_written? {request : Request} {key value : String}
    (written : request.written? = some (key, value)) :
    request.touched? = some key := by
  cases request with
  | write | writeIfAbsent =>
      cases written
      rfl
  | _ => cases written

/-- Whether a key belongs to a record or a route. -/
def isTracked (key : String) : Bool :=
  Records.isKey key || Routes.isKey key

@[simp] theorem isTracked_recordKey (address id : String) :
    isTracked (Records.key address id) = true := by
  simp [isTracked]

@[simp] theorem isTracked_routeKey (hash : String) :
    isTracked (Routes.key hash) = true := by
  simp [isTracked]

/-- Whether no entry is left under a key, not even one that no longer counts. -/
def World.Clears (world : World) (key : String) : Prop :=
  ∀ entry, (key, entry) ∉ world.cache.entries

theorem World.Clears.get {world : World} {key : String}
    (clears : world.Clears key) (now : Int) : world.cache.get now key = none := by
  rw [Cache.get_eq, Entries.findLive?, Entries.find?, List.lookup_eq_none_iff.2]
  · rfl
  · rintro ⟨other, entry⟩ member
    rw [bne_iff_ne]
    rintro rfl
    exact clears entry member

namespace Surroundings

variable (surroundings : Surroundings)

/-- The value that a read of a key finds. -/
def value? (world : World) (key : String) : Option String :=
  world.cache.get (surroundings.millis world) key

/-- The batch stored under an address and an identifier. -/
def stored? (world : World) (address id : String) : Option Batch :=
  (surroundings.value? world (Records.key address id)).bind fun text =>
    (Batch.parse text).toOption

/-- The route stored for a hash. -/
def route? (world : World) (hash : String) : Option Route :=
  (surroundings.value? world (Routes.key hash)).map Route.decode

/-- The clock never goes back. -/
def Forward : Prop :=
  ∀ earlier later, earlier ≤ later →
    (surroundings.now earlier).toMillis ≤ (surroundings.now later).toMillis

/-- No record and no route has run out of time. -/
def Lasting (world : World) : Prop :=
  ∀ key entry, (key, entry) ∈ world.cache.entries → isTracked key = true →
    entry.isLive (surroundings.millis world) = true

/-- What is stored under a key has not run out of time. -/
def Endures (key : String) (world : World) : Prop :=
  ∀ entry, (key, entry) ∈ world.cache.entries →
    entry.isLive (surroundings.millis world) = true

/-- Whether no record and no route that is stored in one of these worlds runs out on the
way to another. -/
def Steady (worlds : List World) : Prop :=
  ∀ first ∈ worlds, ∀ second ∈ worlds, ∀ key entry,
    (key, entry) ∈ first.cache.entries → isTracked key = true →
    entry.isLive (surroundings.millis second) = entry.isLive (surroundings.millis first)

/-- No record and no route counts again after a step when it did not before. -/
def Settled (step : Step) : Prop :=
  ∀ key entry, (key, entry) ∈ step.world.cache.entries →
    isTracked key = true →
    entry.isLive (surroundings.millis (surroundings.after step)) = true →
    entry.isLive (surroundings.millis step.world) = true

variable {surroundings} {world : World} {step : Step} {request : Request}
  {key value : String}

theorem Lasting.endures (lasting : surroundings.Lasting world)
    (tracked : isTracked key = true) : surroundings.Endures key world :=
  fun entry member => lasting key entry member tracked

theorem Lasting.settled (lasting : surroundings.Lasting step.world) :
    surroundings.Settled step :=
  fun key entry member tracked _ => lasting key entry member tracked

section Access

variable {α : Type} {access : Access} {perform : Cache → α × Cache}

theorem access_fails {error : CacheError}
    (fault : surroundings.fault world.moment access = some error) :
    surroundings.access world access perform = (.error error, world.pass) := by
  simp [Surroundings.access, fault]

theorem access_works (works : surroundings.fault world.moment access = none) :
    surroundings.access world access perform =
      (.ok (perform world.cache).1, world.withCache (perform world.cache).2) := by
  simp [Surroundings.access, works]

theorem access_cache (keeps : ∀ cache, (perform cache).2 = cache) :
    (surroundings.access world access perform).2.cache = world.cache := by
  unfold Surroundings.access
  split
  · rfl
  · exact keeps _

theorem access_moment :
    (surroundings.access world access perform).2.moment = world.moment + 1 := by
  unfold Surroundings.access
  split <;> rfl

end Access

theorem answer_write {ttl : Option Nat} :
    (surroundings.answer world (.write key value ttl)).1 =
      match surroundings.fault world.moment (.write key) with
      | some error => .error error
      | none => .ok () := by
  simp only [answer]
  cases fault : surroundings.fault world.moment (.write key) with
  | some error => simp only [access_fails fault]
  | none => simp only [access_works fault]

theorem answer_write_eq_ok_iff {ttl : Option Nat} :
    (surroundings.answer world (.write key value ttl)).1 = .ok () ↔
      surroundings.fault world.moment (.write key) = none := by
  rw [answer_write]
  split <;> simp [*]

theorem answer_write_eq_error_iff {ttl : Option Nat} {error : CacheError} :
    (surroundings.answer world (.write key value ttl)).1 = .error error ↔
      surroundings.fault world.moment (.write key) = some error := by
  rw [answer_write]
  split <;> simp [*]

theorem moment_after (step : Step) :
    (surroundings.after step).moment = step.world.moment + 1 := by
  obtain ⟨world, request⟩ := step
  cases request with
  | readMany keys =>
      simp only [after, answer]
      split <;> rfl
  | read | write | writeIfAbsent | delete | deleteIfEquals | scan =>
      exact access_moment
  | _ => rfl

theorem Forward.millis_after (forward : surroundings.Forward) (step : Step) :
    surroundings.millis step.world ≤
      surroundings.millis (surroundings.after step) := by
  unfold millis
  rw [moment_after]
  exact forward _ _ (Nat.le_succ _)

theorem Forward.settled (forward : surroundings.Forward) (step : Step) :
    surroundings.Settled step :=
  fun _ _ _ _ live => Entry.isLive_mono (forward.millis_after step) live

theorem cache_after_untouched (untouched : request.touched? = none) :
    (surroundings.after ⟨world, request⟩).cache = world.cache := by
  cases request with
  | readMany keys =>
      simp only [after, answer]
      split <;> rfl
  | read | scan => exact access_cache fun _ => rfl
  | write | writeIfAbsent | delete | deleteIfEquals => cases untouched
  | _ => rfl

theorem cache_after_write {ttl : Option Nat}
    (works : surroundings.fault world.moment (.write key) = none) :
    (surroundings.after ⟨world, .write key value ttl⟩).cache =
      world.cache.set (surroundings.millis world) key value ttl := by
  simp only [after, answer, access_works works]
  rfl

theorem cache_after_failed_write {ttl : Option Nat} {error : CacheError}
    (fails : surroundings.fault world.moment (.write key) = some error) :
    (surroundings.after ⟨world, .write key value ttl⟩).cache = world.cache := by
  simp only [after, answer, access_fails fails]
  rfl

theorem cache_after_delete
    (works : surroundings.fault world.moment (.delete key) = none) :
    (surroundings.after ⟨world, .delete key⟩).cache = world.cache.delete key := by
  simp only [after, answer, access_works works]
  rfl

theorem cache_after_failed_delete {error : CacheError}
    (fails : surroundings.fault world.moment (.delete key) = some error) :
    (surroundings.after ⟨world, .delete key⟩).cache = world.cache := by
  simp only [after, answer, access_fails fails]
  rfl

theorem unique_after (unique : step.world.cache.entries.Unique) :
    (surroundings.after step).cache.entries.Unique := by
  obtain ⟨world, request⟩ := step
  cases request with
  | write key value ttl =>
      simp only [after, answer, Surroundings.access]
      split
      · exact unique
      · exact Cache.unique_set unique
  | writeIfAbsent key value ttl =>
      simp only [after, answer, Surroundings.access]
      split
      · exact unique
      · exact Cache.unique_setIfAbsent unique
  | delete key =>
      simp only [after, answer, Surroundings.access]
      split
      · exact unique
      · exact Cache.unique_delete unique
  | deleteIfEquals key value =>
      simp only [after, answer, Surroundings.access]
      split
      · exact unique
      · exact Cache.unique_deleteIfEquals unique
  | _ => rwa [cache_after_untouched rfl]

theorem mem_after_cases {entry : Entry}
    (member : (key, entry) ∈ (surroundings.after step).cache.entries) :
    (key, entry) ∈ step.world.cache.entries ∨
      step.request.written? = some (key, entry.value) := by
  obtain ⟨world, request⟩ := step
  cases request with
  | write other value ttl =>
      simp only [after, answer, Surroundings.access] at member
      split at member
      · exact .inl member
      · obtain ⟨rfl, rfl⟩ | ⟨⟨before, -⟩, -⟩ := Cache.mem_set.1 member
        · exact .inr rfl
        · exact .inl before
  | writeIfAbsent other value ttl =>
      simp only [after, answer, Surroundings.access] at member
      split at member
      · exact .inl member
      · obtain before | ⟨rfl, rfl⟩ := Cache.mem_of_mem_setIfAbsent member
        · exact .inl before
        · exact .inr rfl
  | delete other =>
      simp only [after, answer, Surroundings.access] at member
      split at member
      · exact .inl member
      · exact .inl (Cache.mem_delete.1 member).1
  | deleteIfEquals other value =>
      simp only [after, answer, Surroundings.access] at member
      split at member
      · exact .inl member
      · exact .inl (Cache.mem_of_mem_deleteIfEquals member)
  | _ => exact .inl (by rwa [cache_after_untouched rfl] at member)

theorem clears_after (clears : step.world.Clears key)
    (unwritten : ∀ value, step.request.written? ≠ some (key, value)) :
    (surroundings.after step).Clears key := by
  intro entry member
  rcases mem_after_cases member with before | written
  · exact clears entry before
  · exact unwritten _ written

/-- An entry that still counts stays under a key that a step did not touch. -/
theorem mem_after_of_mem {entry : Entry}
    (untouched : step.request.touched? ≠ some key)
    (member : (key, entry) ∈ step.world.cache.entries)
    (live : entry.isLive (surroundings.millis step.world) = true) :
    (key, entry) ∈ (surroundings.after step).cache.entries := by
  obtain ⟨world, request⟩ := step
  cases request with
  | write other value ttl =>
      have isOther : key ≠ other := fun same => untouched (same ▸ rfl)
      simp only [after, answer, Surroundings.access]
      split
      · exact member
      · exact Cache.mem_set.2 (.inr ⟨⟨member, live⟩, isOther⟩)
  | writeIfAbsent other value ttl =>
      have isOther : key ≠ other := fun same => untouched (same ▸ rfl)
      simp only [after, answer, Surroundings.access]
      split
      · exact member
      · exact (Cache.mem_setIfAbsent isOther).2 member
  | delete other =>
      have isOther : key ≠ other := fun same => untouched (same ▸ rfl)
      simp only [after, answer, Surroundings.access]
      split
      · exact member
      · exact Cache.mem_delete.2 ⟨member, isOther⟩
  | deleteIfEquals other value =>
      have isOther : key ≠ other := fun same => untouched (same ▸ rfl)
      simp only [after, answer, Surroundings.access]
      split
      · exact member
      · exact (Cache.mem_deleteIfEquals isOther).2 member
  | _ => rwa [cache_after_untouched rfl]

/-! ## What reads find -/

/-- Values are found for all keys, unless one of them cannot be read. -/
theorem answer_readMany (world : World) (keys : List String) :
    (∃ error, (surroundings.answer world (.readMany keys)).1 = .error error) ∨
      (surroundings.answer world (.readMany keys)).1 =
        .ok (keys.map (surroundings.value? world)) := by
  simp only [Surroundings.answer]
  split
  case h_1 error _ => exact .inl ⟨error, rfl⟩
  case h_2 => exact .inr (congrArg Except.ok (Cache.getMany_eq _ _ _))

theorem value?_eq_some_iff (unique : world.cache.entries.Unique) :
    surroundings.value? world key = some value ↔
      ∃ entry, (key, entry) ∈ world.cache.entries ∧
        entry.isLive (surroundings.millis world) = true ∧ entry.value = value :=
  Cache.get_eq_some_iff unique

variable (unique : step.world.cache.entries.Unique)
  (tracked : isTracked key = true)

include unique tracked

theorem value?_after_cases (settled : surroundings.Settled step)
    (found : surroundings.value? (surroundings.after step) key = some value) :
    surroundings.value? step.world key = some value ∨
      step.request.written? = some (key, value) := by
  obtain ⟨entry, member, live, rfl⟩ :=
    (value?_eq_some_iff (unique_after unique)).1 found
  obtain before | written := mem_after_cases member
  · exact .inl ((value?_eq_some_iff unique).2
      ⟨entry, before, settled key entry before tracked live, rfl⟩)
  · exact .inr written

omit tracked in
/-- What was found under a key that a step did not touch is found again, unless it has
run out. -/
theorem value?_after_enduring (endures : surroundings.Endures key (surroundings.after step))
    (untouched : step.request.touched? ≠ some key)
    (found : surroundings.value? step.world key = some value) :
    surroundings.value? (surroundings.after step) key = some value := by
  obtain ⟨entry, member, live, held⟩ := (value?_eq_some_iff unique).1 found
  have later := mem_after_of_mem untouched member live
  exact (value?_eq_some_iff (unique_after unique)).2
    ⟨entry, later, endures entry later, held⟩

/-- While nothing runs out, what was found under a key that a step did not
touch is found again. -/
theorem value?_after (lasting : surroundings.Lasting (surroundings.after step))
    (untouched : step.request.touched? ≠ some key)
    (found : surroundings.value? step.world key = some value) :
    surroundings.value? (surroundings.after step) key = some value :=
  value?_after_enduring unique (lasting.endures tracked) untouched found

omit unique tracked

theorem value?_of_after_write {ttl : Option Nat} {found : String}
    (unique : world.cache.entries.Unique)
    (works : surroundings.fault world.moment (.write key) = none)
    (read : surroundings.value?
      (surroundings.after ⟨world, .write key value ttl⟩) key = some found) :
    found = value := by
  obtain ⟨entry, member, -, held⟩ :=
    (value?_eq_some_iff (unique_after unique)).1 read
  rw [cache_after_write works, Cache.mem_set] at member
  obtain ⟨-, same⟩ | ⟨-, isOther⟩ := member
  · rw [← held, same]
  · exact absurd rfl isOther

theorem value?_after_write_enduring {ttl : Option Nat}
    (unique : world.cache.entries.Unique)
    (works : surroundings.fault world.moment (.write key) = none)
    (endures : surroundings.Endures key
      (surroundings.after ⟨world, .write key value ttl⟩)) :
    surroundings.value? (surroundings.after ⟨world, .write key value ttl⟩) key =
      some value := by
  have member : (key, ⟨value,
      ttl.map (world.cache.deadline (surroundings.millis world))⟩) ∈
      (surroundings.after ⟨world, .write key value ttl⟩).cache.entries := by
    rw [cache_after_write works]
    exact Cache.mem_set.2 (.inl ⟨rfl, rfl⟩)
  exact (value?_eq_some_iff (unique_after unique)).2 ⟨_, member, endures _ member, rfl⟩

/-- A written value is found, unless it runs out at once. -/
theorem value?_after_write {ttl : Option Nat}
    (unique : world.cache.entries.Unique) (tracked : isTracked key = true)
    (works : surroundings.fault world.moment (.write key) = none)
    (lasting : surroundings.Lasting
      (surroundings.after ⟨world, .write key value ttl⟩)) :
    surroundings.value? (surroundings.after ⟨world, .write key value ttl⟩) key =
      some value :=
  value?_after_write_enduring unique works (lasting.endures tracked)

theorem value?_of_failed_write {ttl : Option Nat} {error : CacheError}
    {found : String} (unique : world.cache.entries.Unique)
    (tracked : isTracked key = true)
    (settled : surroundings.Settled ⟨world, .write key value ttl⟩)
    (fails : surroundings.fault world.moment (.write key) = some error)
    (read : surroundings.value?
      (surroundings.after ⟨world, .write key value ttl⟩) key = some found) :
    surroundings.value? world key = some found := by
  obtain ⟨entry, member, live, held⟩ :=
    (value?_eq_some_iff (unique_after unique)).1 read
  rw [cache_after_failed_write fails] at member
  exact (value?_eq_some_iff unique).2
    ⟨entry, member, settled key entry member tracked live, held⟩

theorem value?_after_failed_write {ttl : Option Nat} {error : CacheError}
    {found : String} (unique : world.cache.entries.Unique)
    (tracked : isTracked key = true)
    (fails : surroundings.fault world.moment (.write key) = some error)
    (lasting : surroundings.Lasting
      (surroundings.after ⟨world, .write key value ttl⟩))
    (read : surroundings.value? world key = some found) :
    surroundings.value? (surroundings.after ⟨world, .write key value ttl⟩) key =
      some found := by
  obtain ⟨entry, member, -, held⟩ := (value?_eq_some_iff unique).1 read
  rw [← cache_after_failed_write fails] at member
  exact (value?_eq_some_iff (unique_after unique)).2
    ⟨entry, member, lasting key entry member tracked, held⟩

theorem value?_after_delete
    (works : surroundings.fault world.moment (.delete key) = none) :
    surroundings.value? (surroundings.after ⟨world, .delete key⟩) key = none := by
  rw [value?, cache_after_delete works, Cache.get_delete]

end Surroundings

end BatchRelay
