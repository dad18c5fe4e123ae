import BatchRelay.Proofs.Cache.Contents
import BatchRelay.Proofs.Text.ByteOrder

/-!
# What operations do to what counts

Entries that no longer count stay in a cache until some operation removes them,
and the two kinds of cache remove them on different occasions.  Here operations
are described by the entries that count alone: what each of them answers and
which entries that count it leaves behind are the same for both kinds.  The
deletion of a value is the one exception, for a table also compares the value of
a row that no longer counts.
-/

namespace BatchRelay

namespace Entries

variable {entries : Entries} {key : String}

theorem sortedKeys_perm (entries : Entries) :
    entries.sortedKeys.Perm (entries.map Prod.fst) :=
  List.mergeSort_perm _ _

theorem mem_sortedKeys :
    key ∈ entries.sortedKeys ↔ ∃ entry, (key, entry) ∈ entries := by
  rw [(sortedKeys_perm entries).mem_iff]
  simp

theorem pairwise_sortedKeys (entries : Entries) :
    entries.sortedKeys.Pairwise (· ≤ ·) := by
  have sorted : entries.sortedKeys.Pairwise fun left right =>
      decide (left ≤ right) = true :=
    List.pairwise_mergeSort
      (by simpa only [decide_eq_true_eq] using fun _ _ _ => String.le_trans)
      (by simpa only [Bool.or_eq_true, decide_eq_true_eq] using String.le_total)
      (entries.map Prod.fst)
  exact sorted.imp of_decide_eq_true

/-- Sorted keys are all different, and the bytes of each one come after those of
the ones before it. -/
theorem Unique.sortedKeys (unique : entries.Unique) :
    entries.sortedKeys.Pairwise fun left right =>
      Utf8.encode left < Utf8.encode right := by
  have different : entries.sortedKeys.Nodup :=
    (sortedKeys_perm entries).nodup_iff.2 unique
  apply ((pairwise_sortedKeys entries).and different).imp
  intro left right order
  exact Utf8.encode_lt_encode (Std.lt_of_le_of_ne order.1 order.2)

end Entries

namespace TableCache

variable {rows : Entries} {now : Int} {key other : String} {row : Entry}

theorem mem_reclaim :
    (other, row) ∈ reclaim rows now key ↔
      (other, row) ∈ rows ∧ (other ≠ key ∨ row.isLive now = true) := by
  simp [reclaim]

/-- Reclaiming a key leaves its row only if that counts. -/
theorem find?_reclaim (unique : rows.Unique) :
    (reclaim rows now key).find? key = rows.findLive? now key := by
  have reclaimed : (reclaim rows now key).Unique := unique.filter _
  apply Option.ext
  intro row
  rw [Entries.find?_eq_some_iff reclaimed, mem_reclaim]
  simp [Entries.findLive?, Option.filter_eq_some_iff,
    Entries.find?_eq_some_iff unique]

end TableCache

namespace Cache

variable {cache : Cache} {now : Int} {key other value found leading : String}
  {entry : Entry} {ttl : Nat}

theorem get_of_mem (unique : cache.entries.Unique)
    (member : (key, entry) ∈ cache.entries) (live : entry.isLive now = true) :
    cache.get now key = some entry.value :=
  (get_eq_some_iff unique).2 ⟨entry, member, live, rfl⟩

theorem get_isSome_iff (unique : cache.entries.Unique) :
    (cache.get now key).isSome = true ↔
      ∃ entry, (key, entry) ∈ cache.entries ∧ entry.isLive now = true := by
  rw [get_eq, Option.isSome_map, Option.isSome_iff_exists]
  simp only [Entries.findLive?, Option.filter_eq_some_iff,
    Entries.find?_eq_some_iff unique]

/-! ## Conditional writes -/

/-- A conditional write is done where nothing counts. -/
theorem setIfAbsent_answer (unique : cache.entries.Unique) :
    (cache.setIfAbsent now key value ttl).1 = (cache.get now key).isNone := by
  rw [get_eq, Option.isNone_map]
  cases cache with
  | memory cache =>
      simp only [setIfAbsent, MemoryCache.setIfAbsent, entries]
      cases cache.entries.findLive? now key <;> rfl
  | table cache =>
      have reclaimed : (TableCache.reclaim cache.rows now key).find? key =
          cache.rows.findLive? now key :=
        TableCache.find?_reclaim unique
      simp only [setIfAbsent, TableCache.setIfAbsent, entries, reclaimed]
      cases cache.rows.findLive? now key <;> rfl

theorem mem_setIfAbsent_of_get_eq_none (unique : cache.entries.Unique)
    (absent : cache.get now key = none) :
    (other, entry) ∈ (cache.setIfAbsent now key value ttl).2.entries ↔
      other = key ∧ entry = ⟨value, some (cache.deadline now ttl)⟩ ∨
        (other, entry) ∈ cache.entries ∧ other ≠ key := by
  rw [get_eq, Option.map_eq_none_iff] at absent
  cases cache with
  | memory cache =>
      have free : cache.entries.findLive? now key = none := absent
      simp only [setIfAbsent, MemoryCache.setIfAbsent, free]
      exact Entries.mem_put
  | table cache =>
      have free : (TableCache.reclaim cache.rows now key).find? key = none :=
        (TableCache.find?_reclaim unique).trans absent
      simp only [setIfAbsent, TableCache.setIfAbsent, free]
      refine Entries.mem_put.trans (or_congr_right ?_)
      rw [TableCache.mem_reclaim, and_assoc]
      exact and_congr_right fun _ => and_iff_right_of_imp .inl

/-- A conditional write that is left out leaves what counts alone. -/
theorem mem_setIfAbsent_of_get_eq_some (unique : cache.entries.Unique)
    (present : cache.get now key = some found) (live : entry.isLive now = true) :
    (other, entry) ∈ (cache.setIfAbsent now key value ttl).2.entries ↔
      (other, entry) ∈ cache.entries := by
  rw [get_eq, Option.map_eq_some_iff] at present
  obtain ⟨holder, present, -⟩ := present
  cases cache with
  | memory cache =>
      have taken : cache.entries.findLive? now key = some holder := present
      simp only [setIfAbsent, MemoryCache.setIfAbsent, taken]
      exact Iff.rfl
  | table cache =>
      have taken : (TableCache.reclaim cache.rows now key).find? key = some holder :=
        (TableCache.find?_reclaim unique).trans present
      simp only [setIfAbsent, TableCache.setIfAbsent, taken]
      refine TableCache.mem_reclaim.trans ?_
      simp [entries, live]

/-! ## Deletions of a value -/

/-- A deletion of a value that counts is done. -/
theorem deleteIfEquals_of_get_eq (unique : cache.entries.Unique)
    (present : cache.get now key = some value) :
    (cache.deleteIfEquals now key value).1 = true ∧
      (cache.deleteIfEquals now key value).2 = cache.delete key := by
  cases cache with
  | memory cache =>
      simp only [get] at present
      simp [deleteIfEquals, MemoryCache.deleteIfEquals, present, delete]
  | table cache =>
      obtain ⟨row, member, -, rfl⟩ := (get_eq_some_iff unique).1 present
      have stored : cache.rows.find? key = some row :=
        (Entries.find?_eq_some_iff unique).2 member
      simp [deleteIfEquals, TableCache.deleteIfEquals, stored, delete]

/-- In memory, a deletion of a value that does not count is not done. -/
theorem deleteIfEquals_memory_of_get_ne {cache : MemoryCache}
    (differs : (Cache.memory cache).get now key ≠ some value) :
    ((Cache.memory cache).deleteIfEquals now key value).1 = false := by
  simp only [get] at differs
  simp [deleteIfEquals, MemoryCache.deleteIfEquals, differs]

/-- Only a value that is there is deleted. -/
theorem mem_of_deleteIfEquals (unique : cache.entries.Unique)
    (deleted : (cache.deleteIfEquals now key value).1 = true) :
    ∃ entry, (key, entry) ∈ cache.entries ∧ entry.value = value := by
  cases cache with
  | memory cache =>
      simp only [deleteIfEquals, MemoryCache.deleteIfEquals] at deleted
      split at deleted
      case isTrue present =>
        have found : (memory cache).get now key = some value := present
        obtain ⟨entry, member, -, valued⟩ := (get_eq_some_iff unique).1 found
        exact ⟨entry, member, valued⟩
      case isFalse => cases deleted
  | table cache =>
      simp only [deleteIfEquals, TableCache.deleteIfEquals] at deleted
      split at deleted
      case isTrue present =>
        obtain ⟨row, stored, valued⟩ := Option.map_eq_some_iff.1 present
        exact ⟨row, (Entries.find?_eq_some_iff unique).1 stored, valued⟩
      case isFalse => cases deleted

/-- A deletion of a value that does not count leaves what counts alone. -/
theorem mem_deleteIfEquals_of_get_ne (unique : cache.entries.Unique)
    (differs : cache.get now key ≠ some value) (live : entry.isLive now = true) :
    (other, entry) ∈ (cache.deleteIfEquals now key value).2.entries ↔
      (other, entry) ∈ cache.entries := by
  cases cache with
  | memory cache =>
      simp only [get] at differs
      simp [deleteIfEquals, MemoryCache.deleteIfEquals, differs]
  | table cache =>
      simp only [deleteIfEquals, TableCache.deleteIfEquals]
      split
      case isFalse => exact Iff.rfl
      case isTrue stored =>
        refine Entries.mem_erase.trans (and_iff_left_of_imp ?_)
        intro member same
        subst same
        have holder : cache.rows.find? other = some entry :=
          (Entries.find?_eq_some_iff unique).2 member
        have counts : (table cache).get now other = some entry.value :=
          get_of_mem unique member live
        rw [holder] at stored
        exact differs (counts.trans stored)

/-! ## Keys -/

/-- Only keys that count and start with the text are found. -/
theorem of_mem_keys (unique : cache.entries.Unique)
    (found : key ∈ cache.keys now leading) :
    (cache.get now key).isSome = true ∧ Pieces.leads leading key = true := by
  rw [get_isSome_iff unique]
  cases cache with
  | memory cache =>
      simpa [keys, MemoryCache.keys, Entries.mem_sortedKeys, entries] using found
  | table cache =>
      have both : (∃ entry, (key, entry) ∈ cache.rows ∧ entry.isLive now = true) ∧
          TableCache.matchesLeading leading key = true := by
        simpa [keys, TableCache.keys, Entries.mem_sortedKeys] using found
      exact ⟨both.1, (Bool.and_eq_true_iff.1 both.2).2⟩

/-- All of them are found, unless a table is asked for a text that holds a NUL
character. -/
theorem mem_keys (unique : cache.entries.Unique)
    (plain : '\x00' ∉ leading.toList) :
    key ∈ cache.keys now leading ↔
      (cache.get now key).isSome = true ∧ Pieces.leads leading key = true := by
  refine ⟨of_mem_keys unique, ?_⟩
  rw [get_isSome_iff unique]
  cases cache with
  | memory cache =>
      simp [keys, MemoryCache.keys, Entries.mem_sortedKeys, entries]
  | table cache =>
      simp [keys, TableCache.keys, Entries.mem_sortedKeys, entries,
        TableCache.matchesLeading, plain]

theorem pairwise_keys (unique : cache.entries.Unique) :
    (cache.keys now leading).Pairwise fun left right =>
      Utf8.encode left < Utf8.encode right := by
  cases cache <;> exact ((unique.filter _).filter _).sortedKeys

theorem keys_congr {first second : Cache} (unique : first.entries.Unique)
    (secondUnique : second.entries.Unique) (plain : '\x00' ∉ leading.toList)
    (same : ∀ key, first.get now key = second.get now key) :
    first.keys now leading = second.keys now leading := by
  have ordered : (first.keys now leading).Pairwise _ := pairwise_keys unique
  have secondOrdered : (second.keys now leading).Pairwise _ :=
    pairwise_keys secondUnique
  have different {left right : String}
      (order : Utf8.encode left < Utf8.encode right) : left ≠ right := by
    intro same
    subst same
    exact List.lt_irrefl _ order
  apply List.Perm.eq_of_pairwise
    (fun _ _ _ _ less greater => (List.lt_asymm less greater).elim)
    ordered secondOrdered
  apply (List.perm_ext_iff_of_nodup (ordered.imp different)
    (secondOrdered.imp different)).2
  intro key
  rw [mem_keys unique plain, mem_keys secondUnique plain, same]

end Cache

end BatchRelay
