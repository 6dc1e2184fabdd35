import EventDisp.CacheEffects

/-! `currentSize_` against the sizes actually stored. `put` adds the size of a
new slot but not that of a reserved slot it fills, so the counter is exact as
long as no fill changes the size of its slot. -/
namespace EventDisp.CacheSize

open Cache CacheRuns Execution

variable {κ δ : Type} [DecidableEq κ] {quota : Nat}
variable {cache next : Cache κ δ Nat} {state after : State κ δ} {op : Op κ δ} {key : κ}

/-- `currentSize_` is the sum of the `size` fields in `cacheMap_`. -/
def SizeExact (cache : Cache κ δ Nat) : Prop := cache.currentSize = cache.storedSize

/-- What `cleanup` subtracts from `currentSize_` does not exceed it. -/
def SubtractsFreed (cache : Cache κ δ Nat) (key : κ) : Prop :=
  ∀ released freed left, cache.release key = .ok released →
    cleanupLoop (released.currentSize - released.sizeQuota) released.freeList.nodes.length 0
    released =
      .ok (freed, left) →
    freed ≤ left.currentSize

/-- The counter is exact after the call, and a `doneWith` neither wraps it nor
leaves the quota exceeded while something could be evicted. -/
def SizeKept (state : State κ δ) (op : Op κ δ) : Prop :=
  ∀ after, exec state op = .ok after →
    SizeExact after.cache ∧
      ∀ key, op = .doneWith key → SubtractsFreed state.cache key ∧
        (after.cache.currentSize ≤ after.cache.sizeQuota ∨ after.cache.freeList.nodes = [])

/-- A `put` into a reserved slot brings the size the slot already has, and a
`put` of a new slot keeps the sum within a `size_t`. -/
def AccountsPut (cache : Cache κ δ Nat) : Op κ δ → Prop
  | .put key _ size =>
    match cache.find key with
    | none => cache.storedSize + size < 2 ^ 64
    | some entry => entry.isReserved = true → size = entry.size
  | _ => True

instance (cache : Cache κ δ Nat) : DecidablePred (AccountsPut cache)
  | .put key _ size =>
    match held : cache.find key with
    | none => decidable_of_iff (cache.storedSize + size < 2 ^ 64) (by simp [AccountsPut, held])
    | some entry =>
      decidable_of_iff (entry.isReserved = true → size = entry.size) (by simp [AccountsPut, held])
  | .get _ | .reserve _ | .cancelReservation _ | .doneWith _ => isTrue trivial

/-- The counter is exact and a `size_t`. -/
def SizeInvariant (state : State κ δ) : Prop :=
  SizeExact state.cache ∧ state.cache.currentSize < 2 ^ 64

theorem release_sizes (ran : cache.release key = .ok next) :
    next.currentSize = cache.currentSize ∧ next.sizeQuota = cache.sizeQuota ∧
      next.storedSize = cache.storedSize := by
  obtain ⟨entry, held, ⟨_, rfl⟩ | ⟨_, rfl⟩⟩ := release_cases ran
  · have stored := storedSize_store held { entry with refCount := entry.refCount - 1 }
    exact ⟨rfl, rfl, by simp only at stored; omega⟩
  · have stored := storedSize_store held
      { entry with refCount := 0, freeListRef := some cache.freeList.nextNode }
    refine ⟨rfl, rfl, ?_⟩
    change storedSize (cache.store key _) = cache.storedSize
    simp only at stored
    omega

/-- While `cleanup` evicts, what it has freed plus what is still stored is what
was stored at first. -/
private theorem cleanupLoop_sizes {space freed : Nat} {left : Cache κ δ Nat}
    (bound : cache.storedSize < 2 ^ 64)
    (ran : cleanupLoop space cache.freeList.nodes.length 0 cache = .ok (freed, left)) :
    freed + left.storedSize = cache.storedSize ∧ left.currentSize = cache.currentSize ∧
      left.sizeQuota = cache.sizeQuota := by
  refine cleanupLoop_rule (fun freed left => freed + left.storedSize = cache.storedSize ∧
    left.currentSize = cache.currentSize ∧ left.sizeQuota = cache.sizeQuota) ?_ (by simp) ran
  rintro freed left ptr freeList entry ⟨balance, current, limit⟩ - - held - -
  have erased := storedSize_evict freeList held
  refine ⟨?_, current, limit⟩
  simp only [addSize]
  rw [Nat.mod_eq_of_lt (by omega)]
  omega

private theorem subtracts_freed (exact : SizeExact cache) (bound : cache.currentSize < 2 ^ 64) :
    SubtractsFreed cache key := by
  intro released freed left dropped ran
  obtain ⟨current, _, stored⟩ := release_sizes dropped
  unfold SizeExact at exact
  obtain ⟨balance, same, _⟩ := cleanupLoop_sizes (by omega) ran
  omega

/-- `doneWith` keeps the counter exact, and evicts until the quota is met or
nothing is left to evict. -/
private theorem doneWith_keeps_size (exact : SizeExact cache) (bound : cache.currentSize < 2 ^ 64)
    (ran : cache.doneWith key = .ok next) :
    SizeExact next ∧ next.currentSize < 2 ^ 64 ∧
      (next.currentSize ≤ next.sizeQuota ∨ next.freeList.nodes = []) := by
  obtain ⟨released, dropped, within | ⟨rewrites, cleaned⟩⟩ := doneWith_cases ran
  · obtain ⟨current, quota, stored⟩ := release_sizes dropped
    obtain ⟨within, rfl⟩ := within
    unfold SizeExact at exact ⊢
    exact ⟨by omega, by omega, .inl within⟩
  · obtain ⟨current, quota, stored⟩ := release_sizes dropped
    obtain ⟨freed, left, loop, rfl⟩ := cleanup_eq_ok cleaned
    unfold SizeExact at exact ⊢
    obtain ⟨balance, same, limit⟩ := cleanupLoop_sizes (by omega) loop
    have stops := cleanupLoop_stops (Nat.le_refl _) loop
    have difference : subSize left.currentSize freed = left.currentSize - freed := by
      simp only [subSize]
      omega
    change subSize left.currentSize freed = left.storedSize ∧
      subSize left.currentSize freed < 2 ^ 64 ∧
      (subSize left.currentSize freed ≤ left.sizeQuota ∨ left.freeList.nodes = [])
    rw [difference]
    refine ⟨by omega, by omega, ?_⟩
    rcases stops with freedEnough | empty
    · exact .inl (by omega)
    · exact .inr empty

/-- Starting from an exact counter, a call other than `doneWith` leaves an exact
counter exactly when it accounts for what it stores. -/
private theorem effect_size {number : Nat} {ret : Bool} {delivered : List (Delivery δ)}
    (effect : Effect number cache op ret next delivered) (notDone : ∀ key, op ≠ .doneWith key)
    (sized : op.Sized) (exact : SizeExact cache) (bound : cache.currentSize < 2 ^ 64) :
    (SizeExact next ↔ AccountsPut cache op) ∧ next.currentSize < 2 ^ 64 := by
  have unchanged {entry : CacheEntry δ Nat} {key : κ} (held : cache.find key = some entry)
      (change : CacheEntry δ Nat) (same : change.size = entry.size) :
      SizeExact (cache.store key change) := by
    have stored := storedSize_store held change
    change cache.currentSize = _
    rw [exact]
    omega
  cases effect with
  | @putFresh key buf size absent =>
    simp only [AccountsPut, absent]
    have stored : (cache.insertNew key (.filled · buf size)).storedSize = size + cache.storedSize :=
      storedSize_insertNew _ absent
    have small : size < 2 ^ 64 := sized
    unfold SizeExact at exact ⊢
    change (addSize cache.currentSize size = (cache.insertNew key (.filled · buf size)).storedSize ↔
      _) ∧
      addSize cache.currentSize size < 2 ^ 64
    rw [stored]
    simp only [addSize]
    omega
  | @putReserved key buf size entry next held reserved rewrites =>
    simp only [AccountsPut, held, reserved, forall_const]
    have stored := rewrites.storedSize held
    have same := rewrites.currentSize
    unfold SizeExact at exact ⊢
    simp only [putInto] at stored
    omega
  | @putRefused key buf size entry held occupied =>
    exact ⟨by simp [AccountsPut, held, occupied, exact], bound⟩
  | getMissed absent => exact ⟨by simp [AccountsPut, exact], bound⟩
  | getQueued held reserved => exact ⟨by simp [AccountsPut, unchanged held], bound⟩
  | @getDelivered key entry next held ready unlisted sizes find =>
    have stored : next.storedSize = (cache.store key (acquired entry)).storedSize :=
      storedSize_congr fun other => by rw [find, find_store]
    have kept := unchanged held (acquired entry) rfl
    unfold SizeExact at kept ⊢
    rw [sizes.1, stored]
    exact ⟨iff_of_true kept trivial, bound⟩
  | @reserveFresh key absent =>
    have stored : (cache.insertNew key .reserved).storedSize = 0 + cache.storedSize :=
      storedSize_insertNew _ absent
    unfold SizeExact at exact ⊢
    rw [stored, Nat.zero_add]
    exact ⟨iff_of_true exact trivial, bound⟩
  | reserveHeld held ready => exact ⟨by simp [AccountsPut, unchanged held], bound⟩
  | reserveRefused held reserved => exact ⟨by simp [AccountsPut, exact], bound⟩
  | cancelled held reserved rewrites =>
    have stored := rewrites.storedSize held
    have same := rewrites.currentSize
    unfold SizeExact at exact ⊢
    simp only [opened] at stored
    exact ⟨iff_of_true (by omega) trivial, by omega⟩
  | cancelRefused unreserved => exact ⟨by simp [AccountsPut, exact], bound⟩
  | done ran => exact absurd rfl (notDone _)

/-- A call that accounts for what it stores keeps the counter exact and a
`size_t`. -/
theorem size_invariant_step (invariant : SizeInvariant state) (sized : op.Sized)
    (accounts : AccountsPut state.cache op) (ran : exec state op = .ok after) :
    SizeInvariant after := by
  obtain ⟨ret, delivered, effect, _⟩ := exec_effect ran
  by_cases released : ∃ key, op = .doneWith key
  · obtain ⟨key, rfl⟩ := released
    cases effect with
    | done ran =>
      obtain ⟨exact, bound, _⟩ := doneWith_keeps_size invariant.1 invariant.2 ran
      exact ⟨exact, bound⟩
  · obtain ⟨exact, bound⟩ := effect_size effect (fun key same => released ⟨key, same⟩) sized
      invariant.1 invariant.2
    exact ⟨exact.mpr accounts, bound⟩

/-- `put` returns in every state. -/
private theorem put_returns (state : State κ δ) (key : κ) (buf : Option δ) (size : Nat) :
    ∃ after, exec state (.put key buf size) = .ok after := by
  obtain ⟨ret, next, delivered, ran, _⟩ := put_effect state.calls.length state.cache key buf size
  unfold exec
  rw [ran]
  exact ⟨_, rfl⟩

/-- In a state whose counter is exact, one call keeps it exact exactly when it
accounts for the size it stores. -/
private theorem size_kept_iff (invariant : SizeInvariant state) (sized : op.Sized) :
    SizeKept state op ↔ AccountsPut state.cache op := by
  constructor
  · intro kept
    cases op with
    | put key buf size =>
      obtain ⟨after, ran⟩ := put_returns state key buf size
      obtain ⟨ret, delivered, effect, _⟩ := exec_effect ran
      exact (effect_size effect (by simp) sized invariant.1 invariant.2).1.mp (kept after ran).1
    | get | reserve | cancelReservation | doneWith => trivial
  · intro accounts after ran
    refine ⟨(size_invariant_step invariant sized accounts ran).1, ?_⟩
    rintro key rfl
    obtain ⟨ret, delivered, effect, _⟩ := exec_effect ran
    cases effect with
    | done ran =>
      exact ⟨subtracts_freed invariant.1 invariant.2,
        (doneWith_keeps_size invariant.1 invariant.2 ran).2.2⟩

/-- **The counter is exact as long as every `put` accounts for what it stores.**
In every run, all calls keep `currentSize_` equal to the stored sizes, without
wrapping it and with the quota enforced, exactly when no `put` changes the size
of a reserved slot or brings the sum to `2 ^ 64`. -/
theorem size_exact_iff_puts_account (run : Run (client κ δ quota) attempts outcome) :
    (∀ attempt ∈ attempts, SizeKept attempt.1 attempt.2) ↔
      ∀ attempt ∈ attempts, AccountsPut attempt.1.cache attempt.2 :=
  run.exact SizeInvariant SizeKept (fun state op => AccountsPut state.cache op)
    ⟨rfl, show 0 < 2 ^ 64 by decide⟩
    (fun _ _ _ invariant allowed accounts ran =>
      size_invariant_step invariant allowed.1 accounts ran)
    (fun _ _ invariant allowed => size_kept_iff invariant allowed.1)

/-- A reservation filled with no bytes, and the quota exceeded by an entry that is held. -/
theorem size_exact_iff_puts_account_run :
    ∃ attempts : List (State (List Char) Unit × Op (List Char) Unit), attempts.map Prod.snd =
        [.reserve ['a'], .put ['a'] (some ()) 0, .put ['b'] (some ()) 1, .get ['b'],
          .doneWith ['b']] ∧
      ∀ attempt ∈ attempts, SizeKept attempt.1 attempt.2 :=
  ⟨_, rfl, (size_exact_iff_puts_account (replayed (client (List Char) Unit 0)
    [.reserve ['a'], .put ['a'] (some ()) 0, .put ['b'] (some ()) 1, .get ['b'], .doneWith ['b']]
    (by decide))).mpr (by decide)⟩

/-- A slot is reserved and filled with five bytes that are never counted. -/
theorem filled_reservation_uncounted :
    ∃ attempts after, Run (client (List Char) Unit 0) attempts (.ok after) ∧
      attempts.map Prod.snd = [.reserve ['a'], .put ['a'] (some ()) 5] ∧
      after.cache.strays = 0 ∧ after.cache.currentSize = 0 ∧ after.cache.storedSize = 5 ∧
      ¬ SizeExact after.cache :=
  ⟨_, _, replayed (client (List Char) Unit 0) [.reserve ['a'], .put ['a'] (some ()) 5] (by decide),
    rfl, rfl, rfl, rfl, by unfold SizeExact; decide⟩

end EventDisp.CacheSize
