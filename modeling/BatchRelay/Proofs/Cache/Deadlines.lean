import BatchRelay.Proofs.Cache.Contents

/-!
# Deadlines

Whether a cache can keep the end of a time to live, and whether the sum that makes
its deadline has room.  These are two questions in a table: it cuts the time to
live down to 64 bits before it adds the clock.
-/

namespace BatchRelay

theorem MemoryCache.fits_iff {now : Int} {ttl : Nat} :
    fits now ttl = true ↔ (now + ttl) / 1000 ≤ Int64.maxValue.toInt :=
  decide_eq_true_iff

theorem TableCache.fits_iff {now : Int} {ttl : Nat} : fits now ttl = true ↔
    IsMoment ((Int64.ofInt now).toInt + (Int64.ofNat ttl).toInt) := by
  simp only [fits, Bool.and_eq_true, decide_eq_true_eq, IsMoment]

namespace Cache

/-- Whether the end of a time to live that begins now is a moment of the
cache. -/
def Reaches (cache : Cache) (now : Int) (ttl : Nat) : Prop :=
  match cache with
  | .memory _ => True
  | .table _ => TableCache.IsMoment (now + ttl)

/-- Whether the sum that makes a deadline has room.  A process counts seconds in 64
bits with a sign, and a table counts milliseconds in as many. -/
def Fits (cache : Cache) (now : Int) (ttl : Nat) : Prop :=
  match cache with
  | .memory _ => (now + ttl) / 1000 ≤ Int64.maxValue.toInt
  | .table _ =>
      TableCache.IsMoment ((Int64.ofInt now).toInt + (Int64.ofNat ttl).toInt)

theorem Reaches.deadline_eq {cache : Cache} {now : Int} {ttl : Nat}
    (reaches : cache.Reaches now ttl) : cache.deadline now ttl = now + ttl := by
  cases cache with
  | memory => rfl
  | table => exact TableCache.deadline_eq reaches

/-- A write is done if there is room for its deadline, and overflows otherwise. -/
theorem set?_cases (cache : Cache) (now : Int) (key value : String)
    (ttl : Option Nat) :
    (∀ span ∈ ttl, cache.Fits now span) ∧
        cache.set? now key value ttl = .ok (cache.set now key value ttl) ∨
      (∃ span ∈ ttl, ¬cache.Fits now span) ∧
        cache.set? now key value ttl = .error .deadline := by
  cases ttl with
  | none => exact .inl ⟨nofun, by cases cache <;> rfl⟩
  | some span =>
      simp only [Option.mem_some_iff, forall_eq', exists_eq_left']
      cases cache with
      | memory cache =>
          by_cases room : MemoryCache.fits now span = true
          · refine .inl ⟨MemoryCache.fits_iff.1 room, ?_⟩
            simp [set?, set, MemoryCache.set?, room, Except.map]
          · refine .inr ⟨fun fits => room (MemoryCache.fits_iff.2 fits), ?_⟩
            simp [set?, MemoryCache.set?, room, Except.map]
      | table cache =>
          by_cases room : TableCache.fits now span = true
          · refine .inl ⟨TableCache.fits_iff.1 room, ?_⟩
            simp [set?, set, TableCache.set?, room, Except.map]
          · refine .inr ⟨fun fits => room (TableCache.fits_iff.2 fits), ?_⟩
            simp [set?, TableCache.set?, room, Except.map]

/-- A conditional write for whose deadline there is no room overflows, unless it is
found before that there is nothing to write. -/
theorem setIfAbsent?_cases (cache : Cache) (now : Int) (key value : String)
    (ttl : Nat) :
    (cache.Fits now ttl ∨ (cache.setIfAbsent now key value ttl).1 = false) ∧
        cache.setIfAbsent? now key value ttl =
          .ok (cache.setIfAbsent now key value ttl) ∨
      ¬cache.Fits now ttl ∧
        cache.setIfAbsent? now key value ttl = .error .deadline := by
  cases cache with
  | memory cache =>
      by_cases room : MemoryCache.fits now ttl = true
      · refine .inl ⟨.inl (MemoryCache.fits_iff.1 room), ?_⟩
        simp [setIfAbsent?, setIfAbsent, MemoryCache.setIfAbsent?, room, Except.map]
      · by_cases held : (cache.entries.findLive? now key).isSome = true
        · refine .inl ⟨.inr ?_, ?_⟩
          · simp [setIfAbsent, MemoryCache.setIfAbsent, held]
          · simp [setIfAbsent?, setIfAbsent, MemoryCache.setIfAbsent?, held, Except.map]
        · refine .inr ⟨fun fits => room (MemoryCache.fits_iff.2 fits), ?_⟩
          simp [setIfAbsent?, MemoryCache.setIfAbsent?, room, held, Except.map]
  | table cache =>
      by_cases room : TableCache.fits now ttl = true
      · refine .inl ⟨.inl (TableCache.fits_iff.1 room), ?_⟩
        simp [setIfAbsent?, setIfAbsent, TableCache.setIfAbsent?, room, Except.map]
      · refine .inr ⟨fun fits => room (TableCache.fits_iff.2 fits), ?_⟩
        simp [setIfAbsent?, TableCache.setIfAbsent?, room, Except.map]

end Cache

end BatchRelay
