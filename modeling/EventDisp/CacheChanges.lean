import Mathlib.Logic.Relation
import EventDisp.CacheOperations
import EventDisp.General.Outcome

/-! The operations as sequences of single changes to the cache, whatever the
callbacks do, as long as these do it through the cache as well. What every change
keeps holds of the cache at all times. -/
namespace EventDisp.Cache

open Outcome Relation

variable {κ δ β ω : Type} [DecidableEq κ]
variable {cache next : Cache κ δ β} {key : κ} {entry : CacheEntry δ β} {ptr : EntryPtr κ}
variable {host : Host κ δ β ω} {invoke : Invoke κ δ β ω}

/-- One change of the slots, the free list or the counters. -/
inductive Change (cache : Cache κ δ β) : Cache κ δ β → Prop where
  | rewrite {key : κ} {old new : CacheEntry δ β} (held : cache.find key = some old)
      (ref : new.ref = old.ref)
      (node : new.freeListRef = old.freeListRef) : Change cache (cache.store key new)
  | insert {key : κ} {new : Nat → CacheEntry δ β} (absent : cache.find key = none)
      (unlisted : ∀ ref, (new ref).freeListRef = none) : Change cache (cache.insertNew key new)
  | list {key : κ} {entry : CacheEntry δ β} (held : cache.find key = some entry) :
      Change cache ({ cache with freeList := (cache.freeList.push ⟨key, entry.ref⟩).2 }.store key
        { entry with refCount := 0, freeListRef := some cache.freeList.nextNode })
  | unlist {key : κ} {entry : CacheEntry δ β} {node : Nat} {freeList : FastFifo (EntryPtr κ)}
      (held : cache.find key = some entry) (names : entry.freeListRef = some node)
      (removed : cache.freeList.removeNode node = some freeList) :
      Change cache ({ cache with freeList }.store key { entry with freeListRef := none })
  | evict {ptr : EntryPtr κ} {freeList : FastFifo (EntryPtr κ)}
      (popped : cache.freeList.pop = some (ptr, freeList)) :
      Change cache (cache.evict ptr freeList)
  | resize (size : Nat) : Change cache { cache with currentSize := size }
  | stray (more : Nat) : Change cache { cache with strays := cache.strays + more }

/-- Any number of changes. -/
abbrev Changes : Cache κ δ β → Cache κ δ β → Prop := ReflTransGen Change

/-- The computation changes the cache as it may. -/
def Alters (cache : Cache κ δ β) (outcome : Except Fault (Cache κ δ β)) : Prop :=
  Ends (fun _ => True) outcome (Changes cache)

/-- Callbacks change the cache only as it may be changed. -/
def Careful (invoke : Invoke κ δ β ω) : Prop :=
  ∀ callback data host, Ends (fun _ => True) (invoke callback data host) fun after =>
    Changes host.cache after.cache

theorem release_alters (cache : Cache κ δ β) (key : κ) : Alters cache (cache.release key) := by
  cases ran : cache.release key with
  | error => trivial
  | ok next =>
    obtain ⟨entry, held, ⟨_, rfl⟩ | ⟨_, rfl⟩⟩ := release_cases ran
    · exact .single (.rewrite held rfl rfl)
    · exact .single (.list held)

theorem cleanupLoop_alters {space rounds freed freed' : Nat}
    (ran : cleanupLoop space rounds freed cache = .ok (freed', next)) : Changes cache next :=
  cleanupLoop_rule (fun _ left => Changes cache left)
    (fun _ _ _ _ _ before _ popped _ _ _ => before.tail (.evict popped)) .refl ran

theorem doneWith_alters (cache : Cache κ δ β) (key : κ) : Alters cache (cache.doneWith key) := by
  cases ran : cache.doneWith key with
  | error => trivial
  | ok next =>
    obtain ⟨released, dropped, after⟩ := doneWith_cases ran
    have first : Changes cache released := (release_alters cache key).returned dropped
    rcases after with ⟨_, rfl⟩ | ⟨_, cleaned⟩
    · exact first
    · obtain ⟨freed, left, loop, rfl⟩ := cleanup_eq_ok cleaned
      exact (first.trans (cleanupLoop_alters loop)).tail (.resize _)

theorem modifyHost_alters (ptr : EntryPtr κ) {change : CacheEntry δ β → CacheEntry δ β}
    (ref : ∀ entry, (change entry).ref = entry.ref)
    (node : ∀ entry, (change entry).freeListRef = entry.freeListRef) (host : Host κ δ β ω) :
    Ends (fun _ => True) (modifyHost ptr change host) fun after =>
      Changes host.cache after.cache := by
  cases ran : modifyHost ptr change host with
  | error => trivial
  | ok after =>
    obtain ⟨entry, held, _, rfl⟩ := modifyHost_eq_ok.mp ran
    exact .single (.rewrite held (ref entry) (node entry))

theorem unlist_alters (cache : Cache κ δ β) (ptr : EntryPtr κ) :
    Alters cache (cache.unlist ptr) := by
  unfold unlist
  cases found : cache.deref ptr with
  | error => trivial
  | ok entry =>
    obtain ⟨held, _⟩ := deref_eq_ok.mp found
    simp only [bind, Except.bind]
    split
    · exact .refl
    · rename_i names
      split
      · trivial
      · rename_i removed
        exact .single (.unlist held names removed)

theorem calling_alters (host : Host κ δ β ω) (deleted : Nat) :
    Changes host.cache (host.calling deleted).cache :=
  .single (.stray _)

theorem reserve_alters (cache : Cache κ δ β) (key : κ) : Changes cache (cache.reserve key).2 := by
  unfold reserve
  split
  · rename_i absent
    exact .single (.insert absent fun _ => rfl)
  · rename_i held
    split
    · exact .refl
    · exact .single (.rewrite held rfl rfl)

section
variable (careful : Careful invoke)
include careful

theorem putLoop_alters (ptr : EntryPtr κ) (data : CacheData δ) (deleted : Nat) (queue : List β)
    (host : Host κ δ β ω) :
    Ends (fun _ => True) (putLoop invoke ptr data deleted queue host) fun after =>
      Changes host.cache after.cache := by
  induction queue generalizing deleted host with
  | nil => exact .refl
  | cons callback rest ih =>
    refine (modifyHost_alters ptr (by intro _; rfl) (by intro _; rfl) host).bind
      fun counted _ one => ?_
    refine (careful callback data (counted.calling deleted)).bind fun served _ two => ?_
    have before := (one.trans (calling_alters counted deleted)).trans two
    exact (ih (deleted - 1) served).mono fun _ => before.trans

theorem put_alters (key : κ) (buf : Option δ) (size : Nat) (host : Host κ δ β ω) :
    Ends (fun _ => True) (put invoke key buf size host) fun result =>
      Changes host.cache result.2.cache := by
  unfold put
  split
  · rename_i absent
    exact (ReflTransGen.single (.insert absent fun _ => rfl)).tail (.resize _)
  · split
    · refine (modifyHost_alters _ (by intro _; rfl) (by intro _; rfl) host).bind
        fun filled _ one => ?_
      refine (putLoop_alters careful _ _ _ _ filled).bind fun served _ two => ?_
      refine (modifyHost_alters _ (by intro _; rfl) (by intro _; rfl) served).bind
        fun resolved _ three => ?_
      exact (one.trans two).trans three
    · exact ReflTransGen.refl

theorem get_alters (key : κ) (callback : Option β) (host : Host κ δ β ω) :
    Ends (fun _ => True) (get invoke key callback host) fun result =>
      Changes host.cache result.2.cache := by
  unfold get
  split
  · exact ReflTransGen.refl
  · trivial
  · rename_i held
    split
    · exact ReflTransGen.single (.rewrite held rfl rfl)
    · refine (careful _ _ host).bind fun served _ one => ?_
      refine (modifyHost_alters _ (by intro _; rfl) (by intro _; rfl) served).bind
        fun counted _ two => ?_
      refine (unlist_alters counted.cache _).bind fun left _ three => ?_
      exact (one.trans two).trans three

theorem cancelLoop_alters (deleted : Nat) (queue : List β) (host : Host κ δ β ω) :
    Ends (fun _ => True) (cancelLoop invoke deleted queue host) fun after =>
      Changes host.cache after.cache := by
  induction queue generalizing deleted host with
  | nil => exact .refl
  | cons callback rest ih =>
    refine (careful callback _ (host.calling deleted)).bind fun served _ told => ?_
    exact (ih (deleted - 1) served).mono fun _ => ((calling_alters host deleted).trans told).trans

theorem cancelReservation_alters (key : κ) (host : Host κ δ β ω) :
    Ends (fun _ => True) (cancelReservation invoke key host) fun result =>
      Changes host.cache result.2.cache := by
  unfold cancelReservation
  split
  · exact ReflTransGen.refl
  · rename_i held
    split
    · refine (cancelLoop_alters careful _ _ _).bind fun told _ one => ?_
      refine (modifyHost_alters _ (by intro _; rfl) (by intro _; rfl) told).bind
        fun resolved _ two => ?_
      exact (ReflTransGen.head (.rewrite held rfl rfl) one).trans two
    · exact ReflTransGen.refl

end

/-- Stray uses are never taken back. -/
theorem Changes.strays_le (changes : Changes cache next) : cache.strays ≤ next.strays := by
  induction changes with
  | refl => exact Nat.le_refl _
  | tail _ change ih =>
    refine ih.trans ?_
    cases change with
    | rewrite | insert | list | unlist | resize => exact Nat.le_refl _
    | evict | stray => exact Nat.le_add_right _ _

/-- Giving back one of the references to a slot evicts nothing: the quota is kept, or
no slot is idle and the reference is not the last one. -/
def Bears (cache : Cache κ δ β) (references : Nat) : Prop :=
  cache.currentSize ≤ cache.sizeQuota ∨ cache.freeList.nodes = [] ∧ 1 < references

/-- A round of `cleanup` that finds a slot to evict strays. -/
theorem cleanup_strays {space : Nat} (more : 0 < space) (listed : cache.freeList.nodes ≠ [])
    (ran : cache.cleanup space = .ok next) : cache.strays < next.strays := by
  obtain ⟨freed, left, loop, rfl⟩ := cleanup_eq_ok ran
  obtain ⟨rounds, count⟩ := Nat.exists_eq_succ_of_ne_zero (mt List.length_eq_zero_iff.mp listed)
  simp only [count, cleanupLoop, if_pos more] at loop
  split at loop
  · rename_i empty
    exact absurd (FastFifo.pop_eq_none.mp empty) listed
  · rename_i ptr freeList _
    obtain ⟨entry, _, loop⟩ := bind_returns.mp loop
    split at loop
    · cases loop
    · have rest := (cleanupLoop_alters loop).strays_le
      exact Nat.lt_of_succ_le rest

/-- A reference that can be given back is, and nothing else happens. -/
theorem doneWith_bears (held : cache.find key = some entry) (referenced : 0 < entry.refCount)
    (bears : Bears cache entry.refCount) :
    ∃ next kept, cache.doneWith key = .ok next ∧ next.find key = some kept ∧
      SameSlot entry kept ∧ kept.refCount + 1 = entry.refCount ∧ next.strays = cache.strays ∧
      Bears next entry.refCount := by
  by_cases last : entry.refCount = 1
  · have within : cache.currentSize ≤ cache.sizeQuota := by
      rcases bears with within | ⟨_, more⟩
      · exact within
      · omega
    let listed := { cache with freeList := (cache.freeList.push ⟨key, entry.ref⟩).2 }.store key
      { entry with refCount := 0, freeListRef := some cache.freeList.nextNode }
    have ran : cache.doneWith key = .ok listed := by
      simp only [doneWith, release, held, last, Nat.one_ne_zero, if_false, if_true, bind,
        Except.bind]
      exact if_neg (Nat.not_lt.mpr within)
    exact ⟨listed, _, ran, find_store_same, ⟨rfl, rfl, rfl, rfl, rfl⟩, last.symm, rfl,
      .inl within⟩
  · let fewer := cache.store key { entry with refCount := entry.refCount - 1 }
    have dropped : cache.release key = .ok fewer := by
      simp only [release, held, if_neg (show entry.refCount ≠ 0 by omega), if_neg last, fewer]
    have counted : entry.refCount - 1 + 1 = entry.refCount := by omega
    by_cases within : cache.currentSize ≤ cache.sizeQuota
    · have ran : cache.doneWith key = .ok fewer := by
        simp only [doneWith, dropped, bind, Except.bind]
        exact if_neg (Nat.not_lt.mpr within)
      exact ⟨fewer, _, ran, find_store_same, ⟨rfl, rfl, rfl, rfl, rfl⟩, counted, rfl,
        .inl within⟩
    · obtain ⟨empty, more⟩ := bears.resolve_left within
      have idle : fewer.freeList.nodes.length = 0 := by simp [fewer, empty]
      have ran : cache.doneWith key =
          .ok { fewer with currentSize := subSize fewer.currentSize 0 } := by
        simp only [doneWith, dropped, bind, Except.bind]
        rw [if_pos (show fewer.currentSize > fewer.sizeQuota from Nat.lt_of_not_le within)]
        simp only [cleanup, idle, cleanupLoop, bind, Except.bind, pure, Except.pure]
      exact ⟨_, _, ran, (find_resized _).trans find_store_same, ⟨rfl, rfl, rfl, rfl, rfl⟩,
        counted, rfl, .inr ⟨empty, more⟩⟩

/-- A `doneWith` that returns has found a reference to give back. -/
theorem doneWith_referenced (ran : cache.doneWith key = .ok next) :
    ∃ entry, cache.find key = some entry ∧ 0 < entry.refCount := by
  obtain ⟨released, dropped, _⟩ := doneWith_cases ran
  obtain ⟨entry, held, ⟨more, _⟩ | ⟨last, _⟩⟩ := release_cases dropped
  · exact ⟨entry, held, Nat.zero_lt_of_lt more⟩
  · exact ⟨entry, held, by omega⟩

/-- One that cannot be given back is never given back soundly. -/
theorem doneWith_unborne (held : cache.find key = some entry)
    (unborne : ¬ (0 < entry.refCount ∧ Bears cache entry.refCount)) :
    Ends (fun _ => True) (cache.doneWith key) fun next => cache.strays < next.strays := by
  cases ran : cache.doneWith key with
  | error => trivial
  | ok next =>
    obtain ⟨_, there, referenced⟩ := doneWith_referenced ran
    cases held.symm.trans there
    obtain ⟨released, dropped, after⟩ := doneWith_cases ran
    obtain ⟨slot, found, left⟩ := release_cases dropped
    cases held.symm.trans found
    have exceeds : cache.sizeQuota < cache.currentSize :=
      Nat.lt_of_not_le fun within => unborne ⟨referenced, .inl within⟩
    have kept : released.currentSize = cache.currentSize ∧
        released.sizeQuota = cache.sizeQuota ∧ released.strays = cache.strays ∧
        released.freeList.nodes ≠ [] := by
      rcases left with ⟨more, rfl⟩ | ⟨_, rfl⟩
      · exact ⟨rfl, rfl, rfl, fun empty => unborne ⟨referenced, .inr ⟨empty, more⟩⟩⟩
      · exact ⟨rfl, rfl, rfl, by simp⟩
    obtain ⟨current, limit, strays, listed⟩ := kept
    rcases after with ⟨within, _⟩ | ⟨_, cleaned⟩
    · omega
    · have strayed := cleanup_strays (by omega) listed cleaned
      show cache.strays < next.strays
      omega

/-- `doneWith` uses nothing freed exactly when it evicts nothing. -/
theorem doneWith_strays (held : cache.find key = some entry)
    (ran : cache.doneWith key = .ok next) :
    next.strays = cache.strays ↔ Bears cache entry.refCount := by
  by_cases bears : 0 < entry.refCount ∧ Bears cache entry.refCount
  · obtain ⟨after, _, same, _, _, _, strays, _⟩ := doneWith_bears held bears.1 bears.2
    cases ran.symm.trans same
    exact iff_of_true strays bears.2
  · have strayed := (doneWith_unborne held bears).returned ran
    obtain ⟨_, there, referenced⟩ := doneWith_referenced ran
    cases held.symm.trans there
    exact iff_of_false (by omega) fun fits => bears ⟨referenced, fits⟩

/-- A slot that names a node is on the free list, at that node. -/
def Placed (cache : Cache κ δ β) : Prop :=
  ∀ key entry node, cache.find key = some entry → entry.freeListRef = some node →
    (node, ⟨key, entry.ref⟩) ∈ cache.freeList.nodes

theorem Change.placed (change : Change cache next) (placed : Placed cache) : Placed next := by
  intro other kept node found names
  cases change with
  | rewrite held ref same =>
    rw [find_store] at found
    split at found
    · rename_i here
      cases found
      rw [here, ref]
      exact placed _ _ _ held (same.symm.trans names)
    · exact placed other kept node found names
  | insert absent unlisted =>
    rw [find_insertNew] at found
    split at found
    · cases found
      cases (unlisted _).symm.trans names
    · exact placed other kept node found names
  | list held =>
    rw [find_store] at found
    split at found
    · rename_i here
      cases found
      cases names
      exact List.mem_append_right _ (by simp [here])
    · exact List.mem_append_left _ (placed other kept node found names)
  | unlist held named removed =>
    rw [find_store] at found
    split at found
    · cases found
      cases names
    · rename_i elsewhere
      refine FastFifo.removeNode_keeps removed (placed _ _ _ held named)
        (placed other kept node found names) ?_
      simp [elsewhere]
  | evict popped =>
    obtain ⟨address, shape⟩ := FastFifo.pop_eq_some popped
    rw [find_evict] at found
    split at found
    · cases found
    · rename_i elsewhere
      have member := placed other kept node found names
      rw [shape] at member
      rcases List.mem_cons.mp member with head | tail
      · cases head
        exact absurd rfl elsewhere
      · exact tail
  | resize | stray => exact placed other kept node found names

theorem Changes.placed (changes : Changes cache next) (placed : Placed cache) : Placed next := by
  induction changes with
  | refl => exact placed
  | tail _ change ih => exact change.placed ih

end EventDisp.Cache
