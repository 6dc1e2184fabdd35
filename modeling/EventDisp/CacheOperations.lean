import EventDisp.Cache

/-! What the cache operations do to the slots, stated through lookups: one
lemma for each helper, and the rule for the loop of `cleanup`. -/
namespace EventDisp.Cache

variable {κ δ β ω : Type} [DecidableEq κ]
variable {cache next : Cache κ δ β} {key other : κ} {entry : CacheEntry δ β} {ptr : EntryPtr κ}

/-- The stored sizes summed over all slots. -/
def storedSize (cache : Cache κ δ β) : Nat :=
  FiniteMap.total (fun _ entry => entry.size) cache.cacheMap

@[simp] theorem find_store :
    (cache.store key entry).find other = if other = key then some entry else cache.find other :=
  FiniteMap.lookup_insert_eq ..

theorem find_store_same : (cache.store key entry).find key = some entry :=
  FiniteMap.lookup_insert_same ..

/-- Of two assignments to one slot the second stays. -/
theorem store_store (first second : CacheEntry δ β) :
    (cache.store key first).store key second = cache.store key second := by
  simp only [store, AList.insert_insert]

@[simp] theorem find_insertNew {new : Nat → CacheEntry δ β} :
    (cache.insertNew key new).find other =
      if other = key then some (new cache.nextRef) else cache.find other :=
  FiniteMap.lookup_insert_eq ..

/-- Lookups do not depend on the counter. -/
theorem find_resized (size : Nat) :
    find { cache with currentSize := size } other = cache.find other := rfl

@[simp] theorem find_evict {freeList : FastFifo (EntryPtr κ)} :
    (cache.evict ptr freeList).find other = if other = ptr.name then none else cache.find other :=
  FiniteMap.lookup_erase_eq ..

omit [DecidableEq κ] in
@[simp] theorem calling_live (host : Host κ δ β ω) : host.calling 0 = host := rfl

omit [DecidableEq κ] in
@[simp] theorem calling_client (host : Host κ δ β ω) (deleted : Nat) :
    (host.calling deleted).client = host.client := rfl

/-- Where one slot is overwritten, all are there, the others as they were. -/
theorem overwritten_kept {changed : κ} {old new kept : CacheEntry δ β}
    (relates : CacheEntry δ β → CacheEntry δ β → Prop) (refl : ∀ entry, relates entry entry)
    (find : ∀ other, next.find other = if other = changed then some new else cache.find other)
    (holds : cache.find changed = some old) (related : relates old new)
    (held : cache.find key = some kept) :
    ∃ stays, next.find key = some stays ∧ relates kept stays := by
  rw [find]
  split
  · rename_i here
    subst here
    rw [held] at holds
    cases holds
    exact ⟨new, rfl, related⟩
  · exact ⟨kept, held, refl kept⟩

/-- A slot that is inserted overwrites none. -/
theorem inserted_kept {changed : κ} {new : CacheEntry δ β} (absent : cache.find changed = none)
    (find : ∀ other, next.find other = if other = changed then some new else cache.find other)
    (held : cache.find key = some entry) : next.find key = some entry := by
  rw [find, if_neg ?_, held]
  rintro rfl
  rw [held] at absent
  cases absent

@[simp] theorem store_currentSize : (cache.store key entry).currentSize = cache.currentSize := rfl

@[simp] theorem store_freeList : (cache.store key entry).freeList = cache.freeList := rfl

theorem storedSize_store {old : CacheEntry δ β} (held : cache.find key = some old)
    (entry : CacheEntry δ β) : (cache.store key entry).storedSize + old.size = cache.storedSize +
    entry.size :=
  FiniteMap.total_replace _ entry held

theorem storedSize_insertNew (new : Nat → CacheEntry δ β) (absent : cache.find key = none) :
    (cache.insertNew key new).storedSize = (new cache.nextRef).size + cache.storedSize :=
  FiniteMap.total_insert_absent _ _ absent

theorem storedSize_evict (freeList : FastFifo (EntryPtr κ))
    (held : cache.find ptr.name = some entry) :
    (cache.evict ptr freeList).storedSize + entry.size = cache.storedSize :=
  FiniteMap.total_erase _ held

/-- The stored sizes depend only on what the lookups find. -/
theorem storedSize_congr (same : ∀ key, next.find key = cache.find key) :
    next.storedSize = cache.storedSize :=
  FiniteMap.total_congr _ same

theorem deref_eq_ok : cache.deref ptr = .ok entry ↔ cache.find ptr.name = some entry ∧
    entry.ref = ptr.ref := by
  unfold deref
  split
  · rename_i found lookup
    split
    · rename_i same
      simp only [lookup, Except.ok.injEq, Option.some.injEq]
      constructor
      · rintro rfl
        exact ⟨rfl, same⟩
      · exact And.left
    · rename_i stale
      simp only [lookup, reduceCtorEq, Option.some.injEq, false_iff, not_and]
      rintro rfl
      exact stale
  · rename_i lookup
    simp [lookup]

theorem modify_eq_ok {change : CacheEntry δ β → CacheEntry δ β} :
    cache.modify ptr change = .ok next ↔
      ∃ entry, cache.find ptr.name = some entry ∧ entry.ref = ptr.ref ∧
        next = cache.store ptr.name (change entry) := by
  unfold modify
  cases found : cache.deref ptr with
  | error fault =>
    simp only [bind, Except.bind, reduceCtorEq, false_iff, not_exists, not_and]
    intro entry held same
    rw [deref_eq_ok.mpr ⟨held, same⟩] at found
    cases found
  | ok entry =>
    obtain ⟨held, same⟩ := deref_eq_ok.mp found
    simp [bind, Except.bind, pure, Except.pure, held, same, eq_comm]

theorem modifyHost_eq_ok {change : CacheEntry δ β → CacheEntry δ β} {host after : Host κ δ β ω} :
    modifyHost ptr change host = .ok after ↔
      ∃ entry, host.cache.find ptr.name = some entry ∧ entry.ref = ptr.ref ∧
        after = { host with cache := host.cache.store ptr.name (change entry) } := by
  unfold modifyHost
  cases ran : host.cache.modify ptr change with
  | error fault =>
    simp only [bind, Except.bind, reduceCtorEq, false_iff, not_exists, not_and]
    intro entry held same
    rw [modify_eq_ok.mpr ⟨entry, held, same, rfl⟩] at ran
    cases ran
  | ok cache =>
    obtain ⟨entry, held, same, rfl⟩ := modify_eq_ok.mp ran
    simp [bind, Except.bind, pure, Except.pure, held, same, eq_comm]

theorem modifyHost_held (ptr : EntryPtr κ) (host : Host κ δ β ω)
    (held : host.cache.find ptr.name = some entry) (same : entry.ref = ptr.ref)
    (change : CacheEntry δ β → CacheEntry δ β) :
    modifyHost ptr change host =
      .ok { host with cache := host.cache.store ptr.name (change entry) } :=
  modifyHost_eq_ok.mpr ⟨entry, held, same, rfl⟩

/-- What survives every round of `cleanup` holds when it is over. -/
theorem cleanupLoop_rule {space freed freed' rounds : Nat} (holds : Nat → Cache κ δ β → Prop)
    (round : ∀ freed cache ptr freeList entry, holds freed cache → freed < space →
      cache.freeList.pop = some (ptr, freeList) → cache.find ptr.name = some entry →
      entry.ref = ptr.ref → entry.refCount = 0 →
      holds (addSize freed entry.size) (cache.evict ptr freeList))
    (start : holds freed cache)
    (ran : cleanupLoop space rounds freed cache = .ok (freed', next)) : holds freed' next := by
  induction rounds generalizing freed cache with
  | zero =>
    cases ran
    exact start
  | succ rounds ih =>
    simp only [cleanupLoop] at ran
    split at ran
    · rename_i more
      split at ran
      · cases ran
        exact start
      · rename_i ptr freeList popped
        cases found : cache.deref ptr with
        | error fault => simp [found, bind, Except.bind] at ran
        | ok entry =>
          obtain ⟨held, same⟩ := deref_eq_ok.mp found
          simp only [found, bind, Except.bind] at ran
          split at ran
          · cases ran
          · rename_i unreferenced
            exact ih (round _ _ _ _ _ start more popped held same (not_not.mp unreferenced)) ran
    · cases ran
      exact start

/-- When `cleanup` is given a round for each node, it stops only with enough
space freed or nothing left to evict. -/
theorem cleanupLoop_stops {space freed freed' rounds : Nat}
    (enough : cache.freeList.nodes.length ≤ rounds)
    (ran : cleanupLoop space rounds freed cache = .ok (freed', next)) :
    space ≤ freed' ∨ next.freeList.nodes = [] := by
  induction rounds generalizing freed cache with
  | zero =>
    cases ran
    exact .inr (List.length_eq_zero_iff.mp (by omega))
  | succ rounds ih =>
    simp only [cleanupLoop] at ran
    split at ran
    · split at ran
      · rename_i empty
        cases ran
        exact .inr (FastFifo.pop_eq_none.mp empty)
      · rename_i ptr freeList popped
        cases found : cache.deref ptr with
        | error fault => simp [found, bind, Except.bind] at ran
        | ok entry =>
          simp only [found, bind, Except.bind] at ran
          split at ran
          · cases ran
          · obtain ⟨address, shape⟩ := FastFifo.pop_eq_some popped
            refine ih ?_ ran
            simp only [shape, List.length_cons] at enough
            simpa [evict] using enough
    · cases ran
      exact .inl (by omega)

theorem cleanup_eq_ok {space : Nat} (ran : cache.cleanup space = .ok next) :
    ∃ freed left, cleanupLoop space cache.freeList.nodes.length 0 cache = .ok (freed, left) ∧
      next = { left with currentSize := subSize left.currentSize freed } := by
  unfold cleanup at ran
  cases loop : cleanupLoop space cache.freeList.nodes.length 0 cache with
  | error fault => simp [loop, bind, Except.bind] at ran
  | ok result =>
    simp only [loop, bind, Except.bind, pure, Except.pure, Except.ok.injEq] at ran
    exact ⟨result.1, result.2, rfl, ran.symm⟩

/-- Dropping a reference keeps the slot, and lists it when it was the last one. -/
theorem release_cases (ran : cache.release key = .ok next) :
    ∃ entry, cache.find key = some entry ∧
      ((1 < entry.refCount ∧ next = cache.store key { entry with refCount := entry.refCount - 1 }) ∨
        (entry.refCount = 1 ∧
          next = { cache with freeList := (cache.freeList.push ⟨key, entry.ref⟩).2 }.store key
            { entry with refCount := 0, freeListRef := some cache.freeList.nextNode })) := by
  unfold release at ran
  split at ran
  · cases ran
  · rename_i entry held
    refine ⟨entry, held, ?_⟩
    split at ran
    · cases ran
    · split at ran
      · rename_i last
        cases ran
        exact .inr ⟨last, rfl⟩
      · rename_i some notLast
        cases ran
        exact .inl ⟨by omega, rfl⟩

theorem doneWith_cases (ran : cache.doneWith key = .ok next) :
    ∃ released, cache.release key = .ok released ∧
      ((released.currentSize ≤ released.sizeQuota ∧ next = released) ∨
        (released.sizeQuota < released.currentSize ∧
          released.cleanup (released.currentSize - released.sizeQuota) = .ok next)) := by
  unfold doneWith at ran
  cases step : cache.release key with
  | error fault => simp [step, bind, Except.bind] at ran
  | ok released =>
    simp only [step, bind, Except.bind] at ran
    refine ⟨released, rfl, ?_⟩
    split at ran
    · rename_i exceeds
      exact .inr ⟨exceeds, ran⟩
    · rename_i within
      cases ran
      exact .inl ⟨by omega, rfl⟩

/-- What a slot keeps through `doneWith`: everything but its reference count and
its place on the free list. -/
structure SameSlot (before after : CacheEntry δ β) : Prop where
  ref : after.ref = before.ref
  data : after.data = before.data
  size : after.size = before.size
  isReserved : after.isReserved = before.isReserved
  queue : after.queue = before.queue

theorem release_find (ran : cache.release key = .ok next) {entry : CacheEntry δ β}
    (found : next.find other = some entry) :
    ∃ before, cache.find other = some before ∧ SameSlot before entry := by
  obtain ⟨held, holds, ⟨_, rfl⟩ | ⟨_, rfl⟩⟩ := release_cases ran <;>
    rw [find_store] at found <;> split at found
  · rename_i same
    subst same
    cases found
    exact ⟨held, holds, ⟨rfl, rfl, rfl, rfl, rfl⟩⟩
  · exact ⟨entry, found, ⟨rfl, rfl, rfl, rfl, rfl⟩⟩
  · rename_i same
    subst same
    cases found
    exact ⟨held, holds, ⟨rfl, rfl, rfl, rfl, rfl⟩⟩
  · exact ⟨entry, found, ⟨rfl, rfl, rfl, rfl, rfl⟩⟩

/-- `cleanup` only takes slots away. -/
theorem cleanupLoop_find {space freed freed' rounds : Nat}
    (ran : cleanupLoop space rounds freed cache = .ok (freed', next))
    (found : next.find other = some entry) : cache.find other = some entry := by
  refine cleanupLoop_rule (fun _ left => ∀ entry, left.find other = some entry →
    cache.find other = some entry) ?_ (fun _ found => found) ran entry found
  rintro freed left ptr freeList _ kept - - - - - entry found
  apply kept entry
  rw [find_evict] at found
  split at found
  · cases found
  · exact found

/-- Every slot left by `doneWith` was there before, with the same contents. -/
theorem doneWith_find (ran : cache.doneWith key = .ok next) {entry : CacheEntry δ β}
    (found : next.find other = some entry) :
    ∃ before, cache.find other = some before ∧ SameSlot before entry := by
  obtain ⟨released, dropped, ⟨_, rfl⟩ | ⟨_, cleaned⟩⟩ := doneWith_cases ran
  · exact release_find dropped found
  · obtain ⟨freed, left, loop, rfl⟩ := cleanup_eq_ok cleaned
    exact release_find dropped (cleanupLoop_find loop found)

/-- Dropping a reference changes no other slot. -/
theorem release_counts (ran : cache.release key = .ok next) (other : κ) :
    if other = key then ∃ before after, cache.find key = some before ∧ next.find key = some after ∧
      SameSlot before after ∧ after.refCount + 1 = before.refCount
    else next.find other = cache.find other := by
  obtain ⟨entry, held, ⟨_, rfl⟩ | ⟨last, rfl⟩⟩ := release_cases ran <;> split
  · exact ⟨entry, _, held, find_store_same, ⟨rfl, rfl, rfl, rfl, rfl⟩, by dsimp only; omega⟩
  · rename_i different
    rw [find_store, if_neg different]
  · exact ⟨entry, _, held, find_store_same, ⟨rfl, rfl, rfl, rfl, rfl⟩, by dsimp only; omega⟩
  · rename_i different
    rw [find_store, if_neg different]
    rfl

/-- `cleanup` takes away only slots without references. -/
theorem cleanupLoop_evicts {space freed freed' rounds : Nat}
    (ran : cleanupLoop space rounds freed cache = .ok (freed', next)) (other : κ) :
    next.find other = cache.find other ∨
      next.find other = none ∧ ∃ entry, cache.find other = some entry ∧ entry.refCount = 0 := by
  refine cleanupLoop_rule (fun _ left => left.find other = cache.find other ∨
    left.find other = none ∧ ∃ entry, cache.find other = some entry ∧ entry.refCount = 0) ?_
    (.inl rfl) ran
  rintro freed left ptr freeList entry before - - held - unreferenced
  rw [find_evict]
  split
  · rename_i same
    subst same
    rcases before with kept | gone
    · exact .inr ⟨rfl, entry, kept.symm.trans held, unreferenced⟩
    · exact .inr ⟨rfl, gone.2⟩
  · exact before

/-- `doneWith` leaves the slots of other keys as they are, but for those it takes away. -/
theorem doneWith_elsewhere (ran : cache.doneWith key = .ok next) (different : other ≠ key) :
    next.find other = cache.find other ∨
      next.find other = none ∧ ∃ entry, cache.find other = some entry ∧ entry.refCount = 0 := by
  obtain ⟨released, dropped, after⟩ := doneWith_cases ran
  have same := release_counts dropped other
  rw [if_neg different] at same
  rcases after with ⟨_, rfl⟩ | ⟨_, cleaned⟩
  · exact .inl same
  · obtain ⟨freed, remaining, loop, rfl⟩ := cleanup_eq_ok cleaned
    rw [← same]
    exact cleanupLoop_evicts loop other

/-- `doneWith` takes one reference from its slot, and afterwards takes away only
slots that have none. -/
theorem doneWith_counts (ran : cache.doneWith key = .ok next) {before : CacheEntry δ β}
    (held : cache.find other = some before) :
    (∃ after, next.find other = some after ∧ SameSlot before after ∧
        after.refCount + (if other = key then 1 else 0) = before.refCount) ∨
      next.find other = none ∧ before.refCount = if other = key then 1 else 0 := by
  obtain ⟨released, dropped, after⟩ := doneWith_cases ran
  obtain ⟨left, there, same, counted⟩ : ∃ left, released.find other = some left ∧
    SameSlot before left ∧
      left.refCount + (if other = key then 1 else 0) = before.refCount := by
    have counts := release_counts dropped other
    split at counts
    · rename_i here
      subst here
      obtain ⟨_, left, found, there, same, counted⟩ := counts
      rw [held] at found
      cases found
      exact ⟨left, there, same, by rw [if_pos rfl]; exact counted⟩
    · rename_i different
      exact ⟨before, counts.trans held,
        ⟨rfl, rfl, rfl, rfl, rfl⟩, by rw [if_neg different, Nat.add_zero]⟩
  rcases after with ⟨_, rfl⟩ | ⟨_, cleaned⟩
  · exact .inl ⟨left, there, same, counted⟩
  · obtain ⟨freed, remaining, loop, rfl⟩ := cleanup_eq_ok cleaned
    rcases cleanupLoop_evicts loop other with kept | ⟨gone, entry, found, unreferenced⟩
    · exact .inl ⟨left, kept.trans there, same, counted⟩
    · rw [there] at found
      cases found
      exact .inr ⟨gone, by omega⟩

/-- Everything stays as it is but the slot under one key. -/
structure Overwrites (cache next : Cache κ δ β) (key : κ) (entry : CacheEntry δ β) : Prop where
  sizeQuota : next.sizeQuota = cache.sizeQuota
  currentSize : next.currentSize = cache.currentSize
  freeList : next.freeList = cache.freeList
  nextRef : next.nextRef = cache.nextRef
  find : ∀ other, next.find other = if other = key then some entry else cache.find other

theorem Overwrites.store (cache : Cache κ δ β) (key : κ) (entry : CacheEntry δ β) :
    Overwrites cache (cache.store key entry) key entry :=
  ⟨rfl, rfl, rfl, rfl, fun _ => find_store⟩

theorem Overwrites.refl (held : cache.find key = some entry) :
    Overwrites cache cache key entry where
  sizeQuota := rfl
  currentSize := rfl
  freeList := rfl
  nextRef := rfl
  find other := by
    split
    · rename_i same
      rw [same, held]
    · rfl

theorem Overwrites.trans {between : Cache κ δ β} {first second : CacheEntry δ β}
    (one : Overwrites cache between key first) (two : Overwrites between next key second) :
    Overwrites cache next key second where
  sizeQuota := two.sizeQuota.trans one.sizeQuota
  currentSize := two.currentSize.trans one.currentSize
  freeList := two.freeList.trans one.freeList
  nextRef := two.nextRef.trans one.nextRef
  find other := by
    rw [two.find, one.find]
    split <;> rfl

/-- Stray uses overwrite nothing. -/
theorem Overwrites.strayed (rewrites : Overwrites cache next key entry) (strays : Nat) :
    Overwrites cache { next with strays } key entry :=
  ⟨rewrites.sizeQuota, rewrites.currentSize, rewrites.freeList, rewrites.nextRef, rewrites.find⟩

theorem Overwrites.found (rewrites : Overwrites cache next key entry) :
    next.find key = some entry := by
  rw [rewrites.find, if_pos rfl]

theorem Overwrites.storedSize {old : CacheEntry δ β} (rewrites : Overwrites cache next key entry)
    (held : cache.find key = some old) :
    next.storedSize + old.size = cache.storedSize + entry.size := by
  rw [← storedSize_store held entry]
  congr 1
  exact storedSize_congr fun other => by rw [rewrites.find, find_store]

end EventDisp.Cache
