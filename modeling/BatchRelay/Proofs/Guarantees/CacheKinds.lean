import BatchRelay.Proofs.Cache.Operations

/-!
# Both kinds of cache agree

The same operations at the same moments are performed on an empty cache of each
kind.  Which entries that no longer count are still there may differ all the
time; `Matches` leaves them out, and is kept by every operation.
-/

namespace BatchRelay

namespace Cache

/-- What is asked of a cache. -/
inductive Operation where
  | get (key : String)
  | getMany (asked : List String)
  | set (key value : String) (ttl : Option Nat)
  | setIfAbsent (key value : String) (ttl : Nat)
  | delete (key : String)
  | deleteIfEquals (key value : String)
  | scan (leading : String)
  deriving DecidableEq

/-- What a cache answers. -/
inductive Reply where
  | done
  | value (found : Option String)
  | values (found : List (Option String))
  | decided (answer : Bool)
  | keys (found : List String)
  deriving DecidableEq

namespace Operation

/-- The texts of an operation. -/
def texts : Operation → List String
  | .get key => [key]
  | .getMany asked => asked
  | .set key value _ => [key, value]
  | .setIfAbsent key value _ => [key, value]
  | .delete key => [key]
  | .deleteIfEquals key value => [key, value]
  | .scan leading => [leading]

/-- The time to live of what an operation writes. -/
def ttl? : Operation → Option Nat
  | .set _ _ ttl => ttl
  | .setIfAbsent _ _ ttl => some ttl
  | _ => none

/-- No text holds a NUL character, and every deadline is a 64 bit integer. -/
structure Fits (now : Int) (operation : Operation) : Prop where
  plain : ∀ text ∈ operation.texts, '\x00' ∉ text.toList
  moments : ∀ ttl ∈ operation.ttl?, TableCache.IsMoment (now + ttl)

end Operation

/-- Performs an operation at a moment. -/
def perform (cache : Cache) (now : Int) : Operation → Reply × Cache
  | .get key => (.value (cache.get now key), cache)
  | .getMany asked => (.values (cache.getMany now asked), cache)
  | .set key value ttl => (.done, cache.set now key value ttl)
  | .setIfAbsent key value ttl =>
      (.decided (cache.setIfAbsent now key value ttl).1,
        (cache.setIfAbsent now key value ttl).2)
  | .delete key => (.done, cache.delete key)
  | .deleteIfEquals key value =>
      (.decided (cache.deleteIfEquals now key value).1,
        (cache.deleteIfEquals now key value).2)
  | .scan leading => (.keys (cache.keys now leading), cache)

/-- The cache after operations, each at its moment. -/
def performAll (cache : Cache) : List (Int × Operation) → Cache
  | [] => cache
  | (now, operation) :: later =>
      performAll (cache.perform now operation).2 later

/-- Operations at moments that never go back, none of which leaves the domain on
which the kinds can be compared. -/
structure Comparable (operations : List (Int × Operation)) : Prop where
  inOrder : operations.Pairwise fun earlier later => earlier.1 ≤ later.1
  fits : ∀ timed ∈ operations, timed.2.Fits timed.1

/-- Whether an operation is to delete the value of a row that is still there
although it has expired. -/
def DeletesExpired (cache : Cache) (now : Int) (operation : Operation) : Prop :=
  ∃ key row, operation = .deleteIfEquals key row.value ∧
    (key, row) ∈ cache.entries ∧ row.isLive now = false

variable {cache : Cache} {now later : Int} {operation : Operation}

theorem unique_perform (unique : cache.entries.Unique) :
    (cache.perform now operation).2.entries.Unique := by
  cases operation with
  | set key value ttl => exact unique_set unique
  | setIfAbsent key value ttl => exact unique_setIfAbsent unique
  | delete key => exact unique_delete unique
  | deleteIfEquals key value => exact unique_deleteIfEquals unique
  | get | getMany | scan => exact unique

theorem perform_memory (cache : MemoryCache) (now : Int) (operation : Operation) :
    ∃ next, ((Cache.memory cache).perform now operation).2 = .memory next := by
  cases operation <;> exact ⟨_, rfl⟩

theorem perform_table (cache : TableCache) (now : Int) (operation : Operation) :
    ∃ next, ((Cache.table cache).perform now operation).2 = .table next := by
  cases operation <;> exact ⟨_, rfl⟩

/-! ## What counts is the same -/

/-- A cache in memory and a table with the same entries that count at a moment. -/
structure Matches (now : Int) (memory table : Cache) : Prop where
  isMemory : ∃ cache, memory = .memory cache
  isTable : ∃ cache, table = .table cache
  memoryUnique : memory.entries.Unique
  tableUnique : table.entries.Unique
  same : ∀ key entry, entry.isLive now = true →
    ((key, entry) ∈ memory.entries ↔ (key, entry) ∈ table.entries)

namespace Matches

variable {memory table : Cache}

theorem empty (now : Int) : Matches now (.memory .empty) (.table .empty) where
  isMemory := ⟨_, rfl⟩
  isTable := ⟨_, rfl⟩
  memoryUnique := List.nodup_nil
  tableUnique := List.nodup_nil
  same _ _ _ := Iff.rfl

variable (matching : Matches now memory table)

include matching

theorem mono (order : now ≤ later) : Matches later memory table where
  isMemory := matching.isMemory
  isTable := matching.isTable
  memoryUnique := matching.memoryUnique
  tableUnique := matching.tableUnique
  same key entry live := matching.same key entry (Entry.isLive_mono order live)

theorem get (key : String) : memory.get now key = table.get now key := by
  apply Option.ext
  intro value
  rw [get_eq_some_iff matching.memoryUnique, get_eq_some_iff matching.tableUnique]
  apply exists_congr
  intro entry
  rw [← and_assoc, ← and_assoc]
  apply and_congr_left
  intro _
  apply and_congr_left
  exact matching.same key entry

theorem deadline {ttl : Nat} (isMoment : TableCache.IsMoment (now + ttl)) :
    memory.deadline now ttl = table.deadline now ttl := by
  obtain ⟨_, isMemory⟩ := matching.isMemory
  obtain ⟨_, isTable⟩ := matching.isTable
  subst isMemory isTable
  exact (TableCache.deadline_eq isMoment).symm

theorem set {key value : String} {ttl : Option Nat}
    (deadline : ttl.map (memory.deadline now) = ttl.map (table.deadline now))
    {other : String} {entry : Entry} (live : entry.isLive now = true) :
    (other, entry) ∈ (memory.set now key value ttl).entries ↔
      (other, entry) ∈ (table.set now key value ttl).entries := by
  rw [mem_set, mem_set, matching.same other entry live, deadline]

theorem setIfAbsent {key value : String} {ttl : Nat}
    (deadline : memory.deadline now ttl = table.deadline now ttl)
    {other : String} {entry : Entry} (live : entry.isLive now = true) :
    (other, entry) ∈ (memory.setIfAbsent now key value ttl).2.entries ↔
      (other, entry) ∈ (table.setIfAbsent now key value ttl).2.entries := by
  have same := matching.same other entry live
  cases found : memory.get now key with
  | none =>
      have foundRow := (matching.get key).symm.trans found
      rw [mem_setIfAbsent_of_get_eq_none matching.memoryUnique found,
        mem_setIfAbsent_of_get_eq_none matching.tableUnique foundRow, same,
        deadline]
  | some holder =>
      have foundRow := (matching.get key).symm.trans found
      rw [mem_setIfAbsent_of_get_eq_some matching.memoryUnique found live,
        mem_setIfAbsent_of_get_eq_some matching.tableUnique foundRow live, same]

theorem deleteIfEquals {key value other : String} {entry : Entry}
    (live : entry.isLive now = true) :
    (other, entry) ∈ (memory.deleteIfEquals now key value).2.entries ↔
      (other, entry) ∈ (table.deleteIfEquals now key value).2.entries := by
  have same := matching.same other entry live
  by_cases found : memory.get now key = some value
  · have foundRow := (matching.get key).symm.trans found
    rw [(deleteIfEquals_of_get_eq matching.memoryUnique found).2,
      (deleteIfEquals_of_get_eq matching.tableUnique foundRow).2, mem_delete,
      mem_delete, same]
  · have notFound : table.get now key ≠ some value := fun foundRow =>
      found ((matching.get key).trans foundRow)
    rw [mem_deleteIfEquals_of_get_ne matching.memoryUnique found live,
      mem_deleteIfEquals_of_get_ne matching.tableUnique notFound live, same]

theorem answer_deleteIfEquals (key value : String) :
    (memory.perform now (.deleteIfEquals key value)).1 =
        (table.perform now (.deleteIfEquals key value)).1 ∨
      (memory.perform now (.deleteIfEquals key value)).1 = .decided false ∧
        (table.perform now (.deleteIfEquals key value)).1 = .decided true ∧
          table.DeletesExpired now (.deleteIfEquals key value) := by
  simp only [Cache.perform, Reply.decided.injEq]
  by_cases found : memory.get now key = some value
  · have foundRow := (matching.get key).symm.trans found
    apply Or.inl
    rw [(deleteIfEquals_of_get_eq matching.memoryUnique found).1,
      (deleteIfEquals_of_get_eq matching.tableUnique foundRow).1]
  · have notFound : table.get now key ≠ some value := fun foundRow =>
      found ((matching.get key).trans foundRow)
    have left : (memory.deleteIfEquals now key value).1 = false := by
      obtain ⟨cache, isMemory⟩ := matching.isMemory
      subst isMemory
      exact deleteIfEquals_memory_of_get_ne found
    cases deleted : (table.deleteIfEquals now key value).1 with
    | false => exact .inl left
    | true =>
        obtain ⟨row, member, valued⟩ :=
          mem_of_deleteIfEquals matching.tableUnique deleted
        subst valued
        have expired : row.isLive now = false := by
          rw [← Bool.not_eq_true]
          intro live
          exact notFound (get_of_mem matching.tableUnique member live)
        exact .inr ⟨left, rfl, key, row, rfl, member, expired⟩

theorem perform (fits : operation.Fits now) :
    Matches now (memory.perform now operation).2 (table.perform now operation).2 where
  isMemory := by
    obtain ⟨cache, isMemory⟩ := matching.isMemory
    subst isMemory
    exact perform_memory cache now operation
  isTable := by
    obtain ⟨cache, isTable⟩ := matching.isTable
    subst isTable
    exact perform_table cache now operation
  memoryUnique := unique_perform matching.memoryUnique
  tableUnique := unique_perform matching.tableUnique
  same key entry live := by
    cases operation with
    | set other value ttl =>
        apply matching.set _ live
        cases ttl with
        | none => rfl
        | some ttl =>
            exact congrArg some
              (matching.deadline (fits.moments ttl rfl))
    | setIfAbsent other value ttl =>
        exact matching.setIfAbsent
          (matching.deadline (fits.moments ttl rfl)) live
    | delete other =>
        exact mem_delete.trans
          ((and_congr_left fun _ => matching.same key entry live).trans
            mem_delete.symm)
    | deleteIfEquals other value => exact matching.deleteIfEquals live
    | get | getMany | scan => exact matching.same key entry live

/-- Both answer the same, unless the table deletes an expired row. -/
theorem answer (fits : operation.Fits now) :
    (memory.perform now operation).1 = (table.perform now operation).1 ∨
      (memory.perform now operation).1 = .decided false ∧
        (table.perform now operation).1 = .decided true ∧
          table.DeletesExpired now operation := by
  cases operation with
  | get key => exact .inl (congrArg Reply.value (matching.get key))
  | getMany asked =>
      apply Or.inl
      simp only [Cache.perform, getMany_eq]
      exact congrArg Reply.values (List.map_congr_left fun key _ => matching.get key)
  | set | delete => exact .inl rfl
  | setIfAbsent key value ttl =>
      apply Or.inl
      simp only [Cache.perform, setIfAbsent_answer matching.memoryUnique,
        setIfAbsent_answer matching.tableUnique, matching.get key]
  | deleteIfEquals key value => exact matching.answer_deleteIfEquals key value
  | scan leading =>
      have plain := fits.plain leading (List.mem_singleton_self leading)
      exact .inl (congrArg Reply.keys
        (keys_congr matching.memoryUnique matching.tableUnique plain matching.get))

theorem performAll {operations : List (Int × Operation)}
    (comparable : Comparable operations)
    (after : ∀ timed ∈ operations, now ≤ timed.1) (order : now ≤ later)
    (before : ∀ timed ∈ operations, timed.1 ≤ later) :
    Matches later (performAll memory operations) (performAll table operations) := by
  induction operations generalizing memory table now with
  | nil => exact matching.mono order
  | cons head tail induction =>
      obtain ⟨moment, operation⟩ := head
      obtain ⟨inOrder, rest⟩ := List.pairwise_cons.1 comparable.inOrder
      obtain ⟨fits, fitsRest⟩ := List.forall_mem_cons.1 comparable.fits
      obtain ⟨beforeHead, beforeRest⟩ := List.forall_mem_cons.1 before
      have reached := matching.mono (after _ List.mem_cons_self)
      exact induction (reached.perform fits) ⟨rest, fitsRest⟩ inOrder beforeHead
        beforeRest

end Matches

/-! ## Whole runs -/

theorem Comparable.of_prefix {operations front : List (Int × Operation)}
    (comparable : Comparable operations) (begins : front <+: operations) :
    Comparable front where
  inOrder := comparable.inOrder.sublist begins.sublist
  fits timed member := comparable.fits timed (begins.subset member)

theorem Comparable.matches {operations : List (Int × Operation)}
    (comparable : Comparable operations)
    (before : ∀ timed ∈ operations, timed.1 ≤ now) :
    Matches now (performAll (.memory .empty) operations)
      (performAll (.table .empty) operations) := by
  cases operations with
  | nil => exact .empty now
  | cons head tail =>
      obtain ⟨inOrder, -⟩ := List.pairwise_cons.1 comparable.inOrder
      exact (Matches.empty head.1).performAll comparable
        (List.forall_mem_cons.2 ⟨Int.le_refl _, inOrder⟩) (before _ List.mem_cons_self)
        before

theorem unique_performAll (unique : cache.entries.Unique)
    (operations : List (Int × Operation)) :
    (performAll cache operations).entries.Unique := by
  induction operations generalizing cache with
  | nil => exact unique
  | cons head tail induction => exact induction (unique_perform unique)

/-- What holds of the caches that any of the operations lead to, from an empty
cache of each kind on. -/
structure Agreement (operations : List (Int × Operation)) : Prop where
  /-- Both have the same values from then on. -/
  values : ∀ front, front <+: operations → ∀ now,
    (∀ timed ∈ front, timed.1 ≤ now) → ∀ key,
      (performAll (.memory .empty) front).get now key =
        (performAll (.table .empty) front).get now key
  /-- Both answer the next operation the same, except that the table may also
  report the deletion of a row that has expired. -/
  answers : ∀ front now operation, front ++ [(now, operation)] <+: operations →
    let memory := performAll (.memory .empty) front
    let table := performAll (.table .empty) front
    (memory.perform now operation).1 = (table.perform now operation).1 ∨
      (memory.perform now operation).1 = .decided false ∧
        (table.perform now operation).1 = .decided true ∧
          table.DeletesExpired now operation
  /-- Asking for many keys finds what asking for each of them finds. -/
  many : ∀ front, front <+: operations →
    ∀ start ∈ [Cache.memory .empty, Cache.table .empty], ∀ now asked,
      (performAll start front).getMany now asked =
        asked.map ((performAll start front).get now)
  /-- The keys that start with a text are those that have a value, each once and
  in the order of their bytes. -/
  keys : ∀ front, front <+: operations →
    ∀ start ∈ [Cache.memory .empty, Cache.table .empty], ∀ now leading,
      '\x00' ∉ leading.toList →
        (∀ key, key ∈ (performAll start front).keys now leading ↔
          ((performAll start front).get now key).isSome = true ∧
            Pieces.leads leading key = true) ∧
        ((performAll start front).keys now leading).Pairwise fun left right =>
          Utf8.encode left < Utf8.encode right

/-- Whatever is done to them, as long as it can be compared, both kinds of cache
agree. -/
theorem kinds_agree {operations : List (Int × Operation)}
    (comparable : Comparable operations) : Agreement operations where
  values front begins now before key :=
    ((comparable.of_prefix begins).matches before).get key
  answers front now operation begins := by
    have reached := comparable.of_prefix begins
    obtain ⟨-, -, inOrder⟩ := List.pairwise_append.1 reached.inOrder
    have before (timed : Int × Operation) (member : timed ∈ front) : timed.1 ≤ now :=
      inOrder timed member (now, operation) (List.mem_singleton_self _)
    have fits := reached.fits (now, operation)
      (List.mem_append_right _ (List.mem_singleton_self _))
    exact ((reached.of_prefix (List.prefix_append _ _)).matches before).answer fits
  many front _ start _ now asked := getMany_eq _ now asked
  keys front _ start isStart now leading plain := by
    have startUnique : start.entries.Unique := by
      simp only [List.mem_cons, List.not_mem_nil, or_false] at isStart
      obtain isStart | isStart := isStart <;>
        exact isStart ▸ List.nodup_nil
    have unique := unique_performAll startUnique front
    exact ⟨fun key => mem_keys unique plain, pairwise_keys unique⟩

/-- A value that expires before it is looked up and deleted. -/
def expiring : List (Int × Operation) :=
  [(0, .set "key" "value" (some 5)), (3, .getMany ["key", "other", "key"]),
    (9, .get "key"), (9, .deleteIfEquals "key" "value"), (9, .scan "k")]

theorem kinds_agree_expiring : Comparable expiring ∧ Agreement expiring := by
  have comparable : Comparable expiring := by
    refine ⟨by decide, ?_⟩
    simp only [expiring, List.forall_mem_cons, List.not_mem_nil, false_imp_iff,
      implies_true, and_true]
    refine ⟨⟨?_, ?_⟩, ⟨?_, ?_⟩, ⟨?_, ?_⟩, ⟨?_, ?_⟩, ⟨?_, ?_⟩⟩ <;> decide
  exact ⟨comparable, kinds_agree comparable⟩

/-- The table reports the deletion of the row that has expired. -/
example :
    ((performAll (.memory .empty) (expiring.take 3)).perform 9
        (.deleteIfEquals "key" "value")).1 = .decided false ∧
      ((performAll (.table .empty) (expiring.take 3)).perform 9
        (.deleteIfEquals "key" "value")).1 = .decided true := by
  decide

end Cache

end BatchRelay
