import BatchRelay.Cache.Basic

/-!
# Contents of a cache

Both kinds of cache hold entries of which no two have the same key, and then a
key finds exactly the entry that is there.  Every operation is described by the
entries that it leaves behind.
-/

namespace BatchRelay

theorem Entry.isLive_mono {earlier later : Int} (order : earlier ≤ later)
    {entry : Entry} (live : entry.isLive later = true) :
    entry.isLive earlier = true := by
  unfold isLive at live ⊢
  split at live
  case h_1 deadline _ =>
    simp only [decide_eq_true_eq] at live ⊢
    omega
  case h_2 => rfl

namespace Entries

variable {entries : Entries} {key other : String} {entry found : Entry}

/-- No two entries have the same key. -/
def Unique (entries : Entries) : Prop :=
  (entries.map Prod.fst).Nodup

theorem Unique.filter (unique : entries.Unique) (keep : String × Entry → Bool) :
    Unique (List.filter keep entries) :=
  unique.sublist (List.filter_sublist.map Prod.fst)

@[simp] theorem mem_erase :
    (other, found) ∈ entries.erase key ↔
      (other, found) ∈ entries ∧ other ≠ key := by
  simp [erase]

@[simp] theorem mem_live {now : Int} :
    (other, found) ∈ entries.live now ↔
      (other, found) ∈ entries ∧ found.isLive now = true := by
  simp [live]

@[simp] theorem mem_put :
    (other, found) ∈ entries.put key entry ↔
      other = key ∧ found = entry ∨ (other, found) ∈ entries ∧ other ≠ key := by
  simp [put]

theorem Unique.put (unique : entries.Unique) : (entries.put key entry).Unique := by
  simp only [Unique, Entries.put, List.map_cons, List.nodup_cons]
  refine ⟨?_, unique.filter _⟩
  simp [erase]

theorem find?_eq_some_iff (unique : entries.Unique) :
    entries.find? key = some entry ↔ (key, entry) ∈ entries := by
  induction entries with
  | nil => simp [find?]
  | cons head tail induction =>
      obtain ⟨name, value⟩ := head
      simp only [Unique, List.map_cons, List.nodup_cons] at unique
      obtain ⟨fresh, unique⟩ := unique
      by_cases same : key = name
      · subst same
        have absent : (key, entry) ∉ tail := fun member =>
          fresh (List.mem_map_of_mem member)
        simp [find?, absent, eq_comm]
      · simp only [find?, List.lookup_cons, beq_false_of_ne same, List.mem_cons,
          Prod.mk.injEq, same, false_and, false_or]
        exact induction unique

theorem Unique.eq_of_mem (unique : entries.Unique)
    (member : (key, entry) ∈ entries) (other : (key, found) ∈ entries) :
    entry = found := by
  have isFound := (find?_eq_some_iff unique).2 member
  rw [(find?_eq_some_iff unique).2 other] at isFound
  exact (Option.some.inj isFound).symm

theorem find?_put :
    (entries.put key entry).find? other =
      if other = key then some entry else entries.find? other := by
  by_cases same : other = key
  · subst same
    simp [put, find?]
  · simp only [put, find?, List.lookup_cons, beq_false_of_ne same, if_neg same]
    induction entries with
    | nil => rfl
    | cons head tail induction =>
        obtain ⟨name, value⟩ := head
        by_cases erased : name = key
        · subst erased
          simpa [erase, List.lookup_cons, beq_false_of_ne same] using induction
        · by_cases found : other = name
          · subst found
            simp [erase, erased]
          · simpa [erase, erased, List.lookup_cons, beq_false_of_ne found]
              using induction

theorem putAll_append (front back : Entries) :
    entries.putAll (front ++ back) = (entries.putAll front).putAll back :=
  List.foldl_append

end Entries

/-! ## Queries for many keys -/

namespace TableCache

variable {cache : TableCache} {now : Int}

theorem flatMap_range_take_drop {α : Type} (items : List α) (size count : Nat) :
    ((List.range count).flatMap fun index =>
      (items.drop (index * size)).take size) = items.take (count * size) := by
  induction count with
  | zero => simp
  | succ count induction =>
      rw [List.range_succ, List.flatMap_append, induction, Nat.succ_mul,
        List.take_add]
      simp

/-- A moment that is a 64 bit integer with a sign. -/
def IsMoment (moment : Int) : Prop :=
  Int64.minValue.toInt ≤ moment ∧ moment ≤ Int64.maxValue.toInt

instance (moment : Int) : Decidable (IsMoment moment) :=
  inferInstanceAs (Decidable (_ ∧ _))

/-- While it is a 64 bit integer, a deadline does not wrap around. -/
theorem deadline_eq {ttl : Nat} (isMoment : IsMoment (now + ttl)) :
    deadline now ttl = now + ttl := by
  obtain ⟨low, high⟩ := isMoment
  rw [Int64.toInt_minValue] at low
  rw [Int64.toInt_maxValue] at high
  rw [deadline, Int64.toInt_add, Int64.toInt_ofInt, Int64.toInt_ofNat']
  simp only [Int64.size, Int.bmod_add_bmod, Int.add_bmod_bmod]
  exact Int.bmod_eq_of_le (by omega) (by omega)

/-- The queries ask for all keys, in their order. -/
theorem flatten_queries (keys : List String) : (queries keys).flatten = keys := by
  rw [queries, ← List.flatMap_def, flatMap_range_take_drop, List.take_of_length_le]
  unfold keysPerQuery
  omega

theorem select_cons (head : String) (tail : List String) :
    cache.select now (head :: tail) =
      ((cache.rows.findLive? now head).map fun row => (head, row)).toList ++
        cache.select now tail := by
  simp only [select, List.filterMap_cons]
  cases cache.rows.findLive? now head <;> rfl

/-- A row that counts is found by any query for its key, whatever was found
before. -/
theorem find?_putAll_select (keys : List String) (found : Entries) (key : String) :
    (found.putAll (cache.select now keys)).find? key =
      if key ∈ keys then
        (cache.rows.findLive? now key).or (found.find? key)
      else
        found.find? key := by
  induction keys generalizing found with
  | nil => simp [select, Entries.putAll]
  | cons head tail induction =>
      rw [select_cons, Entries.putAll_append, induction]
      by_cases same : key = head
      · subst same
        cases cache.rows.findLive? now key <;>
          simp [Entries.putAll, Entries.find?_put]
      · cases cache.rows.findLive? now head <;>
          simp [Entries.putAll, Entries.find?_put, same]

/-- Cutting the keys into queries makes no difference. -/
theorem collect_eq (keys : List String) :
    cache.collect now keys = Entries.putAll [] (cache.select now keys) := by
  have all : (queries keys).flatMap (cache.select now) = cache.select now keys := by
    have each : cache.select now = List.filterMap fun key =>
        (cache.rows.findLive? now key).map fun row => (key, row) := rfl
    rw [List.flatMap_def, each, ← List.filterMap_flatten, flatten_queries]
  rw [← all, Entries.putAll, List.foldl_flatMap]
  rfl

/-- Many keys find what each of them finds. -/
theorem getMany_eq (keys : List String) :
    cache.getMany now keys = keys.map (cache.get now) := by
  apply List.map_congr_left
  intro key asked
  rw [collect_eq, find?_putAll_select, if_pos asked]
  simp [get, Entries.find?]

end TableCache

namespace Cache

variable {cache : Cache} {now : Int} {key other value : String} {entry : Entry}

/-- All entries, also those that no longer count. -/
def entries : Cache → Entries
  | .memory cache => cache.entries
  | .table cache => cache.rows

/-- The moment from which an entry written now no longer counts. -/
def deadline : Cache → Int → Nat → Int
  | .memory _ => MemoryCache.deadline
  | .table _ => TableCache.deadline

theorem entries_empty : (Cache.memory .empty).entries = [] :=
  rfl

theorem get_eq (cache : Cache) (now : Int) (key : String) :
    cache.get now key = (cache.entries.findLive? now key).map Entry.value := by
  cases cache <;> rfl

/-- A value is found under a key if an entry with it still counts. -/
theorem get_eq_some_iff (unique : cache.entries.Unique) :
    cache.get now key = some value ↔
      ∃ entry, (key, entry) ∈ cache.entries ∧ entry.isLive now = true ∧
        entry.value = value := by
  simp only [get_eq, Entries.findLive?, Option.map_eq_some_iff,
    Option.filter_eq_some_iff, Entries.find?_eq_some_iff unique, and_assoc]

theorem getMany_eq (cache : Cache) (now : Int) (keys : List String) :
    cache.getMany now keys = keys.map (cache.get now) := by
  cases cache with
  | memory => rfl
  | table => exact TableCache.getMany_eq keys

theorem entries_set (ttl : Option Nat) :
    (cache.set now key value ttl).entries =
      (cache.entries.live now).put key
        ⟨value, ttl.map (cache.deadline now)⟩ := by
  cases cache <;> rfl

theorem entries_delete :
    (cache.delete key).entries = cache.entries.erase key := by
  cases cache <;> rfl

theorem get_delete : (cache.delete key).get now key = none := by
  rw [get_eq, entries_delete, Entries.findLive?, Entries.find?,
    List.lookup_eq_none_iff.2]
  · rfl
  · intro entry member
    have isOther : entry.1 ≠ key := by
      simpa [Entries.erase] using (List.mem_filter.1 member).2
    simpa using Ne.symm isOther

theorem mem_set {ttl : Option Nat} :
    (other, entry) ∈ (cache.set now key value ttl).entries ↔
      other = key ∧ entry = ⟨value, ttl.map (cache.deadline now)⟩ ∨
        ((other, entry) ∈ cache.entries ∧ entry.isLive now = true) ∧
          other ≠ key := by
  rw [entries_set, Entries.mem_put, Entries.mem_live]

theorem mem_delete :
    (other, entry) ∈ (cache.delete key).entries ↔
      (other, entry) ∈ cache.entries ∧ other ≠ key := by
  rw [entries_delete, Entries.mem_erase]

/-- A conditional write leaves all other keys alone. -/
theorem mem_setIfAbsent {ttl : Nat} (isOther : other ≠ key) :
    (other, entry) ∈ (cache.setIfAbsent now key value ttl).2.entries ↔
      (other, entry) ∈ cache.entries := by
  cases cache with
  | memory cache =>
      simp only [setIfAbsent, MemoryCache.setIfAbsent]
      split <;> simp [entries, isOther]
  | table cache =>
      simp only [setIfAbsent, TableCache.setIfAbsent]
      split <;> simp [entries, isOther, TableCache.reclaim]

theorem mem_of_mem_setIfAbsent {ttl : Nat}
    (member : (other, entry) ∈ (cache.setIfAbsent now key value ttl).2.entries) :
    (other, entry) ∈ cache.entries ∨ other = key ∧ entry.value = value := by
  cases cache with
  | memory cache =>
      simp only [setIfAbsent, MemoryCache.setIfAbsent] at member
      split at member
      · exact .inl member
      · obtain ⟨same, rfl⟩ | ⟨before, -⟩ := Entries.mem_put.1 member
        · exact .inr ⟨same, rfl⟩
        · exact .inl before
  | table cache =>
      simp only [setIfAbsent, TableCache.setIfAbsent] at member
      split at member
      · exact .inl (List.mem_filter.1 member).1
      · obtain ⟨same, rfl⟩ | ⟨before, -⟩ := Entries.mem_put.1 member
        · exact .inr ⟨same, rfl⟩
        · exact .inl (List.mem_filter.1 before).1

/-- A conditional deletion leaves all other keys alone. -/
theorem mem_deleteIfEquals (isOther : other ≠ key) :
    (other, entry) ∈ (cache.deleteIfEquals now key value).2.entries ↔
      (other, entry) ∈ cache.entries := by
  cases cache with
  | memory cache =>
      simp only [deleteIfEquals, MemoryCache.deleteIfEquals]
      split <;> simp [entries, isOther, MemoryCache.delete]
  | table cache =>
      simp only [deleteIfEquals, TableCache.deleteIfEquals]
      split <;> simp [entries, isOther, TableCache.delete]

theorem mem_of_mem_deleteIfEquals
    (member : (other, entry) ∈ (cache.deleteIfEquals now key value).2.entries) :
    (other, entry) ∈ cache.entries := by
  cases cache with
  | memory cache =>
      simp only [deleteIfEquals, MemoryCache.deleteIfEquals] at member
      split at member
      · exact (Entries.mem_erase.1 member).1
      · exact member
  | table cache =>
      simp only [deleteIfEquals, TableCache.deleteIfEquals] at member
      split at member
      · exact (Entries.mem_erase.1 member).1
      · exact member

theorem unique_set (unique : cache.entries.Unique) {ttl : Option Nat} :
    (cache.set now key value ttl).entries.Unique := by
  rw [entries_set]
  exact (unique.filter _).put

theorem unique_delete (unique : cache.entries.Unique) :
    (cache.delete key).entries.Unique := by
  rw [entries_delete]
  exact unique.filter _

theorem unique_setIfAbsent (unique : cache.entries.Unique) {ttl : Nat} :
    (cache.setIfAbsent now key value ttl).2.entries.Unique := by
  cases cache with
  | memory cache =>
      simp only [setIfAbsent, MemoryCache.setIfAbsent]
      split
      · exact unique
      · exact unique.put
  | table cache =>
      simp only [setIfAbsent, TableCache.setIfAbsent]
      split
      · exact unique.filter _
      · exact (unique.filter _).put

theorem unique_deleteIfEquals (unique : cache.entries.Unique) :
    (cache.deleteIfEquals now key value).2.entries.Unique := by
  cases cache with
  | memory cache =>
      simp only [deleteIfEquals, MemoryCache.deleteIfEquals]
      split
      · exact unique.filter _
      · exact unique
  | table cache =>
      simp only [deleteIfEquals, TableCache.deleteIfEquals]
      split
      · exact unique.filter _
      · exact unique

end Cache

end BatchRelay
