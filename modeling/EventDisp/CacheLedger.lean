import EventDisp.CacheBuffers
import EventDisp.General.Outcome

/-! The ledger of a cache: every buffer it accepted lies in a slot, was freed or
was replaced. -/
namespace EventDisp.CacheBuffers

open Cache CacheRuns Execution Outcome

variable {κ δ β : Type} [DecidableEq κ] [DecidableEq δ]
variable {cache next : Cache κ δ β} {key : κ} {entry : CacheEntry δ β}
  {accesses : List (Access κ δ)}

/-- How often a buffer lies in the slots of `cacheMap_`. -/
def held (buf : δ) (cache : Cache κ δ β) : Nat :=
  FiniteMap.total (fun _ entry => entry.data.toList.count buf) cache.cacheMap

omit [DecidableEq κ] [DecidableEq δ] in
@[simp] theorem frees_append (accesses more : List (Access κ δ)) :
    frees (accesses ++ more) = frees accesses ++ frees more :=
  List.filterMap_append ..

omit [DecidableEq κ] [DecidableEq δ] in
@[simp] theorem frees_dataRead (ptr : EntryPtr κ) (present : Bool) (accesses : List (Access κ δ)) :
    frees (.dataRead ptr present :: accesses) = frees accesses := rfl

omit [DecidableEq κ] [DecidableEq δ] in
@[simp] theorem frees_nameRead (ptr : EntryPtr κ) (present : Bool) (accesses : List (Access κ δ)) :
    frees (.nameRead ptr present :: accesses) = frees accesses := rfl

omit [DecidableEq κ] [DecidableEq δ] in
@[simp] theorem frees_freed (bufs : List δ) :
    frees (bufs.map .freed : List (Access κ δ)) = bufs := by
  induction bufs with
  | nil => rfl
  | cons buf rest ih => exact congrArg (buf :: ·) ih

omit [DecidableEq δ] in
@[simp] theorem frees_deallocate (ptr : EntryPtr κ) (data : Option δ) :
    frees (deallocate cache ptr data) = data.toList := by
  simp only [deallocate, List.cons_append, frees_dataRead, frees_append, frees_freed,
    frees_nameRead]
  exact List.append_nil _

/-- Rewriting one slot exchanges its buffer. -/
theorem held_overwritten {old new : CacheEntry δ β} (buf : δ) (was : cache.find key = some old)
    (find : ∀ other, next.find other = if other = key then some new else cache.find other) :
    held buf next + old.data.toList.count buf = held buf cache + new.data.toList.count buf := by
  have same : held buf next = held buf (cache.store key new) :=
    FiniteMap.total_congr _ fun other => (find other).trans find_store.symm
  rw [same]
  exact FiniteMap.total_replace _ new was

/-- Rewriting anything else in a slot leaves its buffer there. -/
theorem held_kept {old new : CacheEntry δ β} (buf : δ) (was : cache.find key = some old)
    (find : ∀ other, next.find other = if other = key then some new else cache.find other)
    (same : new.data = old.data) : held buf next = held buf cache := by
  have exchanged := held_overwritten buf was find
  rw [same] at exchanged
  omega

theorem held_inserted {new : CacheEntry δ β} (buf : δ) (absent : cache.find key = none)
    (find : ∀ other, next.find other = if other = key then some new else cache.find other) :
    held buf next = held buf cache + new.data.toList.count buf := by
  have same : held buf next = held buf (cache.store key new) :=
    FiniteMap.total_congr _ fun other => (find other).trans find_store.symm
  rw [same, Nat.add_comm]
  exact FiniteMap.total_insert_absent _ new absent

omit [DecidableEq δ] in
theorem holds_of_find {ptr : EntryPtr κ} (found : cache.find ptr.name = some entry)
    (same : entry.ref = ptr.ref) :
    holds cache ptr = true := by
  unfold holds
  rw [deref_eq_ok.mpr ⟨found, same⟩]
  rfl

omit [DecidableEq δ] in
theorem not_holds_of_erased {ptr : EntryPtr κ} (gone : cache.find ptr.name = none) :
    holds cache ptr = false := by
  unfold holds deref
  rw [gone]
  rfl

omit [DecidableEq δ] in
/-- The recorded loop is the loop of `cleanup`. -/
theorem cleanupLoopAccesses_forget (space rounds freed : Nat) (cache : Cache κ δ β) :
    (cleanupLoopAccesses space rounds freed cache).map Prod.snd = cleanupLoop space rounds freed
    cache := by
  induction rounds generalizing freed cache with
  | zero => rfl
  | succ rounds ih =>
    have forget (now : List (Access κ δ))
      (looped : Except Fault (List (Access κ δ) × Nat × Cache κ δ β)) :
        (looped >>= fun result => pure (now ++ result.1, result.2)).map Prod.snd =
        looped.map Prod.snd := by
      cases looped <;> rfl
    simp only [cleanupLoopAccesses, cleanupLoop]
    split
    · cases cache.freeList.pop with
      | none => rfl
      | some popped =>
        simp only
        cases cache.deref popped.1 with
        | error fault => rfl
        | ok entry =>
          simp only [bind, Except.bind, ← ih]
          split
          · rfl
          · exact forget _ _
    · rfl

/-- Every buffer the loop frees lay in a slot that is gone. -/
theorem cleanupLoopAccesses_held {space rounds freed freed' : Nat}
    (ran : cleanupLoopAccesses space rounds freed cache = .ok (accesses, freed', next)) (buf : δ) :
    held buf next + (frees accesses).count buf = held buf cache := by
  induction rounds generalizing freed cache accesses with
  | zero =>
    cases ran
    rfl
  | succ rounds ih =>
    simp only [cleanupLoopAccesses] at ran
    split at ran
    · split at ran
      · cases ran
        rfl
      · obtain ⟨entry, found, ran⟩ := bind_returns.mp ran
        split at ran
        · cases ran
        · obtain ⟨⟨later, result⟩, looped, ran⟩ := bind_returns.mp ran
          cases ran
          have left := ih looped
          have erased :=
            FiniteMap.total_erase (fun _ (entry : CacheEntry δ β) => entry.data.toList.count buf)
            (deref_eq_ok.mp found).1
          simp only [List.cons_append, frees_nameRead, frees_append, frees_deallocate,
            List.count_append]
          unfold held at left ⊢
          simp only [evict] at left
          omega
    · cases ran
      rfl

omit [DecidableEq δ] in
/-- A first round that pops a slot reads it after it is gone. -/
theorem cleanupLoopAccesses_absent {space freed freed' : Nat} (more : freed < space)
    (listed : cache.freeList.nodes ≠ [])
    (ran : cleanupLoopAccesses space cache.freeList.nodes.length freed cache = .ok (accesses,
      freed', next)) :
    ∃ access ∈ accesses, access.present = false := by
  obtain ⟨rounds, count⟩ := Nat.exists_eq_succ_of_ne_zero (mt List.length_eq_zero_iff.mp listed)
  simp only [count, cleanupLoopAccesses, if_pos more] at ran
  split at ran
  · rename_i empty
    exact absurd (FastFifo.pop_eq_none.mp empty) listed
  · rename_i ptr freeList popped
    obtain ⟨entry, found, ran⟩ := bind_returns.mp ran
    split at ran
    · cases ran
    · obtain ⟨⟨later, result⟩, looped, ran⟩ := bind_returns.mp ran
      cases ran
      have gone : (cache.evict ptr freeList).find ptr.name = none := find_evict.trans (if_pos rfl)
      refine ⟨_, List.mem_cons_of_mem _ (List.mem_append_left _ List.mem_cons_self), ?_⟩
      exact not_holds_of_erased gone

omit [DecidableEq δ] in
theorem doneWithAccesses_cases (ran : doneWithAccesses cache key = .ok accesses) :
    ∃ released, cache.release key = .ok released ∧
      ((released.currentSize ≤ released.sizeQuota ∧ accesses = []) ∨
        (released.sizeQuota < released.currentSize ∧ ∃ result,
          cleanupLoopAccesses (released.currentSize - released.sizeQuota)
          released.freeList.nodes.length 0 released =
            .ok (accesses, result))) := by
  obtain ⟨released, dropped, ran⟩ := bind_returns.mp ran
  refine ⟨released, dropped, ?_⟩
  split at ran
  · rename_i exceeds
    obtain ⟨⟨_, result⟩, looped, ran⟩ := bind_returns.mp ran
    cases ran
    exact .inr ⟨exceeds, result, looped⟩
  · rename_i within
    cases ran
    exact .inl ⟨by omega, rfl⟩

theorem release_held (ran : cache.release key = .ok next) (buf : δ) :
    held buf next = held buf cache := by
  obtain ⟨entry, found, ⟨_, rfl⟩ | ⟨_, rfl⟩⟩ := release_cases ran
  · exact held_kept buf found (fun _ => find_store) rfl
  · exact held_kept buf found (fun _ => find_store) rfl

/-- What `doneWith` frees lay in slots that it evicts. -/
theorem doneWith_held (ran : cache.doneWith key = .ok next)
    (accessed : doneWithAccesses cache key = .ok accesses) (buf : δ) :
    held buf next + (frees accesses).count buf = held buf cache := by
  obtain ⟨released, dropped, after⟩ := doneWith_cases ran
  obtain ⟨_, again, recorded⟩ := doneWithAccesses_cases accessed
  cases dropped.symm.trans again
  rw [← release_held dropped buf]
  rcases after with ⟨within, rfl⟩ | ⟨exceeds, cleaned⟩
  · rcases recorded with ⟨_, rfl⟩ | ⟨exceeds, _⟩
    · rfl
    · omega
  · rcases recorded with ⟨within, _⟩ | ⟨_, ⟨freed, left⟩, looped⟩
    · omega
    · obtain ⟨_, _, same, rfl⟩ := cleanup_eq_ok cleaned
      rw [← cleanupLoopAccesses_forget, looped] at same
      cases same
      exact cleanupLoopAccesses_held looped buf

omit [DecidableEq δ] in
/-- `doneWith` reads a slot that is gone exactly when it evicts one. -/
theorem doneWith_present (accessed : doneWithAccesses cache key = .ok accesses) :
    (∀ access ∈ accesses, access.present = true) ↔ ¬ Evicts cache (.doneWith key : Op κ δ) := by
  obtain ⟨released, dropped, recorded⟩ := doneWithAccesses_cases accessed
  obtain ⟨entry, found, left⟩ := release_cases dropped
  have sizes : released.currentSize = cache.currentSize ∧ released.sizeQuota = cache.sizeQuota := by
    rcases left with ⟨_, rfl⟩ | ⟨_, rfl⟩ <;> exact ⟨rfl, rfl⟩
  have listed : released.freeList.nodes ≠ [] ↔ cache.freeList.nodes ≠ [] ∨ entry.refCount = 1 := by
    rcases left with ⟨more, rfl⟩ | ⟨last, rfl⟩
    · simp only [store_freeList, show entry.refCount ≠ 1 by omega, or_false]
    · simp [last]
  simp only [Evicts, found, ← listed, ← sizes.1, ← sizes.2]
  rcases recorded with ⟨within, rfl⟩ | ⟨exceeds, ⟨freed, left⟩, looped⟩
  · simp [show ¬ released.sizeQuota < released.currentSize by omega]
  · by_cases empty : released.freeList.nodes = []
    · rw [empty] at looped
      cases looped
      simp [empty]
    · obtain ⟨access, member, absent⟩ := cleanupLoopAccesses_absent (by omega) empty looped
      simp only [exceeds, ne_eq, empty, not_false_eq_true, and_self, not_true_eq_false, iff_false]
      intro all
      simp [all access member] at absent

/-- What a returned call does to the ledger: it frees or replaces what lay in the
slots, and puts there what it accepts. -/
theorem effect_held {cache next : Cache κ δ Nat} {number : Nat} {op : Op κ δ} {ret : Bool}
    {delivered : List (Delivery δ)} (effect : Effect number cache op ret next delivered)
    (accessed : accessesOf cache op = .ok accesses) (buf : δ) :
    held buf next + (frees accesses).count buf + (replaced cache op).toList.count buf =
      held buf cache + (if ret then (buffer op).toList.count buf else 0) := by
  have quiet {kept : Cache κ δ Nat} {op : Op κ δ} (ret : Bool)
    (same : held buf kept = held buf cache)
      (spared : replaced cache op = none) (nothing : buffer op = none) :
      held buf kept + (frees ([] : List (Access κ δ))).count buf + (replaced cache op).toList.count
        buf =
        held buf cache + (if ret then (buffer op).toList.count buf else 0) := by
    simp [same, spared, nothing, frees]
  cases effect with
  | done ran =>
    have balance := doneWith_held ran accessed buf
    simp only [replaced, buffer, Option.toList_none, List.count_nil, ite_self]
    omega
  | @putFresh key data size absent =>
    cases accessed
    have inserted : held buf { cache.insertNew key (.filled · data size) with
        currentSize := addSize cache.currentSize size } = _ :=
      held_inserted buf absent fun _ => (find_resized _).trans find_insertNew
    simpa [replaced, absent, buffer, frees, CacheEntry.filled] using inserted
  | @putReserved key data size entry next found reserved rewrites =>
    cases accessed
    have exchanged := held_overwritten buf found rewrites.find
    simpa [replaced, found, reserved, buffer, frees, putInto] using exchanged
  | @putRefused key data size entry found occupied =>
    cases accessed
    simp [replaced, found, occupied, frees]
  | getMissed | reserveRefused | cancelRefused =>
    cases accessed
    exact quiet _ rfl rfl rfl
  | getQueued found reserved =>
    cases accessed
    exact quiet _ (held_kept buf found (fun _ => find_store) rfl) rfl rfl
  | getDelivered found ready unlisted sizes find =>
    cases accessed
    exact quiet _ (held_kept buf found find rfl) rfl rfl
  | reserveFresh absent =>
    cases accessed
    exact quiet _ (held_inserted buf absent fun _ => find_insertNew) rfl rfl
  | reserveHeld found ready =>
    cases accessed
    exact quiet _ (held_kept buf found (fun _ => find_store) rfl) rfl rfl
  | cancelled found reserved rewrites =>
    cases accessed
    exact quiet _ (held_kept buf found rewrites.find rfl) rfl rfl

/-- A slot whose buffer was freed. -/
def emptied (entry : CacheEntry δ β) : CacheEntry δ β := { entry with data := none }

/-- What one of the loops of `~Cache` did: the buffers it freed lay in slots that
are empty now, and every slot it read is in `cacheMap_`. -/
structure Emptied (keys : List κ) (cache next : Cache κ δ β) (accesses : List (Access κ δ)) :
    Prop where
  balance : ∀ buf, held buf next + (frees accesses).count buf = held buf cache
  present : ∀ access ∈ accesses, access.present = true
  find : ∀ key, next.find key = if key ∈ keys then (cache.find key).map emptied else cache.find key

omit [DecidableEq δ] in
theorem deallocate_present {ptr : EntryPtr κ} (found : cache.find ptr.name = some entry)
    (same : entry.ref = ptr.ref) (data : Option δ) :
    ∀ access ∈ deallocate cache ptr data, access.present = true := by
  intro access member
  simp only [deallocate, holds_of_find found same, List.cons_append, List.mem_cons, List.mem_append,
    List.mem_map,
    List.not_mem_nil, or_false] at member
  rcases member with rfl | ⟨buf, _, rfl⟩ | rfl <;> rfl

theorem destroySlot_emptied (ran : destroySlot cache key = .ok (accesses, next)) :
    Emptied [key] cache next accesses := by
  unfold destroySlot at ran
  cases found : cache.find key with
  | none =>
    simp only [found] at ran
    cases ran
    refine ⟨fun buf => rfl, nofun, ?_⟩
    intro other
    split
    · rename_i same
      rw [List.mem_singleton.mp same, found]
      rfl
    · rfl
  | some entry =>
    simp only [found] at ran
    have emptiedSlot {left : Cache κ δ β}
      (map : left.cacheMap = (cache.store key (emptied entry)).cacheMap) :
        Emptied [key] cache left (deallocate cache ⟨key, entry.ref⟩ entry.data) := by
      have find (other : κ) : left.find other = if other = key then some
        (emptied entry) else cache.find other := by
        unfold Cache.find
        rw [map]
        exact find_store
      refine ⟨?_, deallocate_present found rfl _, ?_⟩
      · intro buf
        rw [frees_deallocate]
        exact held_overwritten buf found find
      · intro other
        rw [find]
        by_cases same : other = key
        · simp [same, found]
        · simp [same]
    split at ran
    · cases ran
      exact emptiedSlot rfl
    · split at ran
      · cases ran
      · cases ran
        exact emptiedSlot rfl

theorem destroySlots_emptied {order : List κ}
    (ran : destroySlots order cache = .ok (accesses, next)) :
    Emptied order cache next accesses := by
  induction order generalizing cache accesses with
  | nil =>
    cases ran
    exact ⟨fun buf => rfl, nofun, fun _ => rfl⟩
  | cons key rest ih =>
    obtain ⟨⟨now, between⟩, first, ran⟩ := bind_returns.mp ran
    obtain ⟨⟨later, _⟩, second, ran⟩ := bind_returns.mp ran
    cases ran
    have one := destroySlot_emptied first
    have others := ih second
    refine ⟨?_, ?_, ?_⟩
    · intro buf
      have before := one.balance buf
      have after := others.balance buf
      rw [frees_append, List.count_append]
      omega
    · intro access member
      exact (List.mem_append.mp member).elim (one.present access) (others.present access)
    · intro other
      rw [others.find, one.find]
      by_cases same : other = key
      · have again : (cache.find key).map emptied = ((cache.find key).map emptied).map emptied := by
          rw [Option.map_map]
          rfl
        simp [same, ← again]
      · simp [same]

/-- When every slot is empty, the second loop of `~Cache` frees nothing. -/
theorem drainLoop_emptied {rounds : Nat}
    (empty : ∀ key entry, cache.find key = some entry → entry.data = none)
    (ran : drainLoop rounds cache = .ok (accesses, next)) : Emptied [] cache next accesses ∧
    frees accesses = [] := by
  induction rounds generalizing cache accesses with
  | zero =>
    cases ran
    exact ⟨⟨fun buf => rfl, nofun, fun _ => rfl⟩, rfl⟩
  | succ rounds ih =>
    unfold drainLoop at ran
    split at ran
    · cases ran
      exact ⟨⟨fun buf => rfl, nofun, fun _ => rfl⟩, rfl⟩
    · rename_i ptr freeList popped
      obtain ⟨entry, found, ran⟩ := bind_returns.mp ran
      obtain ⟨⟨later, _⟩, second, ran⟩ := bind_returns.mp ran
      cases ran
      obtain ⟨left, nothing⟩ := @ih { cache with freeList } later empty second
      obtain ⟨there, same⟩ := deref_eq_ok.mp found
      rw [empty _ _ there]
      refine ⟨⟨left.balance, ?_, left.find⟩, nothing⟩
      intro access member
      rcases List.mem_cons.mp member with rfl | member
      · exact holds_of_find there same
      · exact left.present access member

/-- `~Cache` frees what lies in the slots, and reads only slots that are there. -/
theorem destroy_frees {order : List κ} (every : order.Perm cache.cacheMap.keys)
    (ran : destroy order cache = .ok (accesses, next)) :
    (∀ buf, (frees accesses).count buf = held buf cache ∧ held buf next = 0) ∧
      ∀ access ∈ accesses, access.present = true := by
  obtain ⟨⟨slots, between⟩, first, ran⟩ := bind_returns.mp ran
  obtain ⟨⟨nodes, _⟩, second, ran⟩ := bind_returns.mp ran
  cases ran
  have loop := destroySlots_emptied first
  have empty : ∀ key entry, between.find key = some entry → entry.data = none := by
    intro key entry found
    rw [loop.find] at found
    split at found
    · obtain ⟨_, _, rfl⟩ := Option.map_eq_some_iff.mp found
      rfl
    · rename_i missing
      have member : key ∈ cache.cacheMap.keys :=
        AList.lookup_isSome.mp (Option.isSome_of_eq_some found)
      exact absurd (every.mem_iff.mpr member) missing
  obtain ⟨drained, nothing⟩ := drainLoop_emptied empty second
  constructor
  · intro buf
    have zero : held buf between = 0 :=
      FiniteMap.total_eq_zero _ |>.mpr fun key entry found => by rw [empty key entry found]; rfl
    have emptying := loop.balance buf
    have draining := drained.balance buf
    rw [frees_append, nothing, List.append_nil]
    omega
  · intro access member
    exact (List.mem_append.mp member).elim (loop.present access) (drained.present access)

end EventDisp.CacheBuffers
