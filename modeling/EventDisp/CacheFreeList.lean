import EventDisp.CacheEffects

/-! The free list against the slots it should hold: those without references
that are not reserved. `get` takes a re-acquired slot off the list, but `reserve`
does not, and `doneWith` lists a reserved slot like any other. -/
namespace EventDisp.CacheFreeList

open Cache CacheRuns Execution

variable {κ δ : Type} [DecidableEq κ] {quota : Nat}
variable {cache next : Cache κ δ Nat} {state after : State κ δ} {op : Op κ δ} {key : κ}

/-- The free list holds every unreferenced, unreserved slot exactly once, at the
node `freeListRef` names, and nothing else; every other slot has no node. -/
def FreeListExact (cache : Cache κ δ Nat) : Prop :=
  (∀ node ∈ cache.freeList.nodes, ∃ entry, cache.find node.2.name = some entry ∧
    entry.ref = node.2.ref ∧ entry.refCount = 0 ∧ entry.isReserved = false) ∧
  ∀ key entry, cache.find key = some entry →
    if entry.refCount = 0 ∧ entry.isReserved = false then
      (cache.freeList.nodes.map Prod.snd).count ⟨key, entry.ref⟩ = 1 ∧
        ∃ node, entry.freeListRef = some node ∧ (node, ⟨key, entry.ref⟩) ∈ cache.freeList.nodes
    else entry.freeListRef = none

/-- A call evicts no reserved slot and no slot with a callback still to be
invoked. -/
def KeepsWaiting (state after : State κ δ) : Prop :=
  ∀ key entry, state.cache.find key = some entry →
    (entry.isReserved = true ∨ ∃ callback ∈ entry.queue, callback ∉ invoked state.calls) →
    ∃ kept, after.cache.find key = some kept ∧ kept.ref = entry.ref

/-- The assertion in `cleanup` does not fail, and when the call returns the free
list is exact and the waiting slots are in place. -/
def ListingKept (state : State κ δ) (op : Op κ δ) : Prop :=
  exec state op ≠ .error (.assertion .cleanupUnreferenced) ∧
    ∀ after, exec state op = .ok after → FreeListExact after.cache ∧ KeepsWaiting state after

/-- No slot without references is reserved, and the last reference to a reserved
slot is not dropped. -/
def KeepsReservedReferenced (cache : Cache κ δ Nat) : Op κ δ → Prop
  | .reserve key =>
    match cache.find key with
    | some entry => entry.isReserved = false → 0 < entry.refCount
    | none => True
  | .doneWith key =>
    match cache.find key with
    | some entry => entry.isReserved = true → entry.refCount ≠ 1
    | none => True
  | _ => True

instance (cache : Cache κ δ Nat) : DecidablePred (KeepsReservedReferenced cache)
  | .reserve key =>
    match held : cache.find key with
    | some entry => decidable_of_iff (entry.isReserved = false → 0 < entry.refCount)
        (by simp [KeepsReservedReferenced, held])
    | none => isTrue (by simp [KeepsReservedReferenced, held])
  | .doneWith key =>
    match held : cache.find key with
    | some entry => decidable_of_iff (entry.isReserved = true → entry.refCount ≠ 1)
        (by simp [KeepsReservedReferenced, held])
    | none => isTrue (by simp [KeepsReservedReferenced, held])
  | .put .. | .get _ | .cancelReservation _ => isTrue trivial

/-- How a slot stands: referenced and off the list, or unreferenced, unreserved
and listed. -/
inductive Standing (cache : Cache κ δ Nat) (key : κ) (entry : CacheEntry δ Nat) : Prop where
  | referenced (counted : 0 < entry.refCount) (unlisted : entry.freeListRef = none)
  | listed {node : Nat} (uncounted : entry.refCount = 0) (unreserved : entry.isReserved = false)
      (names : entry.freeListRef = some node)
      (member : (node, ⟨key, entry.ref⟩) ∈ cache.freeList.nodes)

/-- Nodes and slots name each other. -/
structure Listing (cache : Cache κ δ Nat) : Prop where
  listed : ∀ node ∈ cache.freeList.nodes, ∃ entry, cache.find node.2.name = some entry ∧
    entry.ref = node.2.ref ∧ entry.freeListRef = some node.1
  standing : ∀ key entry, cache.find key = some entry → Standing cache key entry

theorem listing_exact (listing : Listing cache) : FreeListExact cache := by
  constructor
  · intro node member
    obtain ⟨entry, held, same, names⟩ := listing.listed node member
    refine ⟨entry, held, same, ?_⟩
    cases listing.standing _ _ held with
    | referenced counted unlisted => simp [unlisted] at names
    | listed uncounted unreserved => exact ⟨uncounted, unreserved⟩
  · intro key entry held
    cases listing.standing _ _ held with
    | referenced counted unlisted =>
      rw [if_neg (by omega)]
      exact unlisted
    | @listed node uncounted unreserved names member =>
      rw [if_pos ⟨uncounted, unreserved⟩]
      refine ⟨?_, node, names, member⟩
      have distinct : (cache.freeList.nodes.map Prod.snd).Nodup := by
        refine List.Nodup.map_on ?_ (List.Nodup.of_map _ cache.freeList.distinct)
        rintro ⟨first, ptr⟩ one ⟨second, _⟩ two rfl
        obtain ⟨_, heldOne, _, namesOne⟩ := listing.listed _ one
        obtain ⟨_, heldTwo, _, namesTwo⟩ := listing.listed _ two
        rw [heldOne] at heldTwo
        cases heldTwo
        rw [namesOne] at namesTwo
        simpa using namesTwo
      exact List.count_eq_one_of_mem distinct (List.mem_map_of_mem member)

/-- Rewriting a slot that has no node, to one that is referenced, leaves the
listing as it was. -/
theorem listing_overwrite {entry : CacheEntry δ Nat} (listing : Listing cache)
    (unlistedBefore : ∀ old, cache.find key = some old → old.freeListRef = none)
    (find : ∀ other, next.find other = if other = key then some entry else cache.find other)
    (nodes : next.freeList = cache.freeList) (counted : 0 < entry.refCount)
    (unlisted : entry.freeListRef = none) : Listing next where
  listed node member := by
    rw [nodes] at member
    obtain ⟨held, found, same, names⟩ := listing.listed node member
    have other : node.2.name ≠ key := by
      rintro rfl
      simp [unlistedBefore held found] at names
    exact ⟨held, by rw [find, if_neg other, found], same, names⟩
  standing other held found := by
    rw [find] at found
    split at found
    · cases found
      exact .referenced counted unlisted
    · cases listing.standing other held found with
      | referenced counted unlisted => exact .referenced counted unlisted
      | listed uncounted unreserved names member =>
        exact .listed uncounted unreserved names (nodes ▸ member)

theorem reserved_referenced {entry : CacheEntry δ Nat} (listing : Listing cache)
    (held : cache.find key = some entry) (reserved : entry.isReserved = true) :
    0 < entry.refCount ∧ entry.freeListRef = none := by
  cases listing.standing key entry held with
  | referenced counted unlisted => exact ⟨counted, unlisted⟩
  | listed uncounted unreserved => simp [reserved] at unreserved

theorem counted_unlisted {entry : CacheEntry δ Nat} (listing : Listing cache)
    (held : cache.find key = some entry) (counted : 0 < entry.refCount) :
    entry.freeListRef = none := by
  cases listing.standing key entry held with
  | referenced _ unlisted => exact unlisted
  | listed uncounted => omega

/-- Taking a slot's own node off the list, and giving the slot a reference. -/
theorem listing_unlist {entry : CacheEntry δ Nat} {node : Nat} (listing : Listing cache)
    (held : cache.find key = some entry) (names : entry.freeListRef = some node)
    (removed : cache.freeList.removeNode node = some next.freeList)
    (find : ∀ other, next.find other = if other = key then some (acquired entry) else cache.find
      other) :
    Listing next := by
  have nodes := FastFifo.removeNode_nodes removed
  constructor
  · intro other member
    rw [nodes] at member
    obtain ⟨member, different⟩ := List.mem_filter.mp member
    obtain ⟨slot, found, same, named⟩ := listing.listed other member
    have elsewhere : other.2.name ≠ key := by
      rintro rfl
      rw [held] at found
      cases found
      rw [names] at named
      cases named
      simp at different
    exact ⟨slot, by rw [find, if_neg elsewhere, found], same, named⟩
  · intro other slot found
    rw [find] at found
    split at found
    · cases found
      exact .referenced (Nat.succ_pos _) rfl
    · rename_i elsewhere
      cases listing.standing other slot found with
      | referenced counted unlisted => exact .referenced counted unlisted
      | @listed own uncounted unreserved named member =>
        cases listing.standing key entry held with
        | referenced _ unlisted => simp [unlisted] at names
        | listed _ _ heldNames heldMember =>
          rw [names] at heldNames
          cases heldNames
          refine .listed uncounted unreserved named
            (FastFifo.removeNode_keeps removed heldMember member ?_)
          simp [elsewhere]

/-- Dropping a reference keeps the listing, when the last one of a reserved slot
is not dropped. -/
theorem release_listing (listing : Listing cache)
    (contract : Contract cache (.doneWith key : Op κ δ))
    (guarded : KeepsReservedReferenced cache (.doneWith key : Op κ δ)) :
    ∃ released, cache.release key = .ok released ∧ Listing released := by
  simp only [Contract, KeepsReservedReferenced] at contract guarded
  cases held : cache.find key with
  | none => simp [held] at contract
  | some entry =>
    simp only [held] at contract guarded
    have unlisted := counted_unlisted listing held contract
    simp only [release, held, if_neg (show ¬entry.refCount = 0 by omega)]
    split
    · rename_i last
      have unreserved : entry.isReserved = false := by
        cases reserved : entry.isReserved with
        | false => rfl
        | true => exact absurd last (guarded reserved)
      refine ⟨_, rfl, ?_, ?_⟩
      · intro node member
        rcases List.mem_append.mp member with old | new
        · obtain ⟨slot, found, same, names⟩ := listing.listed node old
          have elsewhere : node.2.name ≠ key := by
            rintro rfl
            rw [held] at found
            cases found
            simp [unlisted] at names
          exact ⟨slot, find_store.trans ((if_neg elsewhere).trans found), same, names⟩
        · obtain rfl := List.mem_singleton.mp new
          exact ⟨_, find_store_same, rfl, rfl⟩
      · intro other slot found
        rw [find_store] at found
        split at found
        · rename_i same
          subst same
          cases found
          exact .listed rfl unreserved rfl (List.mem_append_right _ (by simp))
        · cases listing.standing other slot found with
          | referenced counted unlisted => exact .referenced counted unlisted
          | listed uncounted unreserved names member =>
            exact .listed uncounted unreserved names (List.mem_append_left _ member)
    · rename_i more
      exact ⟨_, rfl, listing_overwrite listing (by simp [held, unlisted]) (fun _ => find_store) rfl
        (by simp only; omega) unlisted⟩

/-- Every node leads to a slot that names it and has no references. -/
def Idle (cache : Cache κ δ Nat) : Prop :=
  ∀ node ∈ cache.freeList.nodes, ∃ entry, cache.find node.2.name = some entry ∧
    entry.ref = node.2.ref ∧ entry.freeListRef = some node.1 ∧ entry.refCount = 0

theorem listing_idle (listing : Listing cache) : Idle cache := by
  intro node member
  obtain ⟨entry, held, same, names⟩ := listing.listed node member
  refine ⟨entry, held, same, names, ?_⟩
  cases listing.standing _ _ held with
  | referenced counted unlisted => cases unlisted.symm.trans names
  | listed uncounted => exact uncounted

/-- The nodes behind the first one lead to other slots. -/
private theorem idle_behind {ptr : EntryPtr κ} {freeList : FastFifo (EntryPtr κ)}
    (idle : Idle cache) (popped : cache.freeList.pop = some (ptr, freeList)) :
    ∀ node ∈ freeList.nodes, node ∈ cache.freeList.nodes ∧ node.2.name ≠ ptr.name := by
  obtain ⟨address, shape⟩ := FastFifo.pop_eq_some popped
  intro node member
  have old : node ∈ cache.freeList.nodes := by
    rw [shape]
    exact List.mem_cons_of_mem _ member
  refine ⟨old, fun together => ?_⟩
  obtain ⟨entry, held, _, names, _⟩ := idle (address, ptr) (by simp [shape])
  obtain ⟨slot, found, _, named, _⟩ := idle node old
  rw [together, held] at found
  cases found
  rw [names] at named
  have distinct := cache.freeList.distinct
  rw [shape, List.map_cons, List.nodup_cons] at distinct
  exact distinct.1 (List.mem_map.mpr ⟨node, member, by simpa using named.symm⟩)

/-- `cleanup` returns when every node leads to a slot without references. -/
private theorem cleanupLoop_returns (space rounds freed : Nat) (idle : Idle cache) :
    ∃ freed' left, cleanupLoop space rounds freed cache = .ok (freed', left) := by
  induction rounds generalizing freed cache with
  | zero => exact ⟨freed, cache, rfl⟩
  | succ rounds ih =>
    simp only [cleanupLoop]
    split
    · split
      · exact ⟨freed, cache, rfl⟩
      · rename_i ptr freeList popped
        obtain ⟨address, shape⟩ := FastFifo.pop_eq_some popped
        obtain ⟨entry, held, same, _, uncounted⟩ := idle (address, ptr) (by simp [shape])
        have behind : Idle (cache.evict ptr freeList) := by
          intro node member
          obtain ⟨old, elsewhere⟩ := idle_behind idle popped node member
          obtain ⟨slot, found, rest⟩ := idle node old
          exact ⟨slot, by rw [find_evict, if_neg elsewhere, found], rest⟩
        simp only [deref_eq_ok.mpr ⟨held, same⟩, bind, Except.bind, uncounted, ne_eq,
          not_true_eq_false, ↓reduceIte]
        exact ih (addSize freed entry.size) behind
    · exact ⟨freed, cache, rfl⟩

/-- An eviction keeps the listing. -/
private theorem evict_listing {ptr : EntryPtr κ} {freeList : FastFifo (EntryPtr κ)}
    (listing : Listing cache) (popped : cache.freeList.pop = some (ptr, freeList)) :
    Listing (cache.evict ptr freeList) := by
  obtain ⟨address, shape⟩ := FastFifo.pop_eq_some popped
  constructor
  · intro node member
    obtain ⟨old, elsewhere⟩ := idle_behind (listing_idle listing) popped node member
    obtain ⟨slot, found, same, named⟩ := listing.listed node old
    exact ⟨slot, by rw [find_evict, if_neg elsewhere, found], same, named⟩
  · intro other slot found
    rw [find_evict] at found
    split at found
    · cases found
    · rename_i elsewhere
      cases listing.standing other slot found with
      | referenced counted unlisted => exact .referenced counted unlisted
      | listed uncounted unreserved named member =>
        refine .listed uncounted unreserved named ?_
        rw [shape] at member
        rcases List.mem_cons.mp member with head | tail
        · cases head
          exact absurd rfl elsewhere
        · exact tail

/-- `cleanup` on a proper listing returns, keeps the listing and takes no
referenced slot away. -/
private theorem cleanupLoop_listing (space rounds freed : Nat) (listing : Listing cache) :
    ∃ freed' left, cleanupLoop space rounds freed cache = .ok (freed', left) ∧ Listing left ∧
      ∀ key entry, cache.find key = some entry → 0 < entry.refCount →
      left.find key = some entry := by
  obtain ⟨freed', left, ran⟩ := cleanupLoop_returns space rounds freed (listing_idle listing)
  refine ⟨freed', left, ran, ?_, ?_⟩
  · exact cleanupLoop_rule (fun _ left => Listing left)
      (fun _ _ _ _ _ listing _ popped _ _ _ => evict_listing listing popped) listing ran
  · intro key entry held counted
    rcases cleanupLoop_evicts ran key with kept | ⟨_, slot, found, uncounted⟩
    · exact kept.trans held
    · cases held.symm.trans found
      omega

/-- `doneWith` for a slot with references returns when the listing is proper. -/
theorem doneWith_returns {entry : CacheEntry δ Nat} (listing : Listing cache)
    (held : cache.find key = some entry) (counted : 0 < entry.refCount) :
    ∃ next, cache.doneWith key = .ok next := by
  obtain ⟨released, dropped, idle⟩ : ∃ released, cache.release key = .ok released ∧
      Idle released := by
    have unlisted := counted_unlisted listing held counted
    have others (node : Nat × EntryPtr κ) (member : node ∈ cache.freeList.nodes) :
        node.2.name ≠ key := by
      rintro rfl
      obtain ⟨slot, found, _, named, _⟩ := listing_idle listing node member
      cases held.symm.trans found
      cases unlisted.symm.trans named
    simp only [release, held, if_neg (show ¬entry.refCount = 0 by omega)]
    split
    · refine ⟨_, rfl, fun node member => ?_⟩
      rcases List.mem_append.mp member with old | new
      · obtain ⟨slot, found, rest⟩ := listing_idle listing node old
        exact ⟨slot, find_store.trans ((if_neg (others node old)).trans found), rest⟩
      · obtain rfl := List.mem_singleton.mp new
        exact ⟨_, find_store_same, rfl, rfl, rfl⟩
    · refine ⟨_, rfl, fun node member => ?_⟩
      obtain ⟨slot, found, rest⟩ := listing_idle listing node member
      exact ⟨slot, find_store.trans ((if_neg (others node member)).trans found), rest⟩
  simp only [doneWith, dropped, bind, Except.bind]
  split
  · obtain ⟨freed, left, ran⟩ := cleanupLoop_returns
      (released.currentSize - released.sizeQuota) released.freeList.nodes.length 0 idle
    simp only [cleanup, ran, bind, Except.bind, pure, Except.pure]
    exact ⟨_, rfl⟩
  · exact ⟨released, rfl⟩

/-- The listing only looks at the slots and the list. -/
private theorem listing_resized (listing : Listing cache) (size : Nat) :
    Listing { cache with currentSize := size } where
  listed := listing.listed
  standing key entry held := by
    cases listing.standing key entry held with
    | referenced counted unlisted => exact .referenced counted unlisted
    | listed uncounted unreserved names member => exact .listed uncounted unreserved names member

/-- `doneWith` within the contract, sparing the last reference to a reserved
slot, returns, keeps the listing and evicts no reserved slot. -/
theorem doneWith_listing (listing : Listing cache)
    (contract : Contract cache (.doneWith key : Op κ δ))
    (guarded : KeepsReservedReferenced cache (.doneWith key : Op κ δ)) :
    ∃ next, cache.doneWith key = .ok next ∧ Listing next ∧
      ∀ other entry, cache.find other = some entry → entry.isReserved = true →
        ∃ kept, next.find other = some kept ∧ kept.ref = entry.ref := by
  obtain ⟨released, dropped, listed⟩ := release_listing listing contract guarded
  have stays : ∀ other entry, cache.find other = some entry → entry.isReserved = true →
      ∃ kept, released.find other = some kept ∧ kept.ref = entry.ref ∧ kept.isReserved = true := by
    intro other entry held reserved
    obtain ⟨dropFrom, found, ⟨_, rfl⟩ | ⟨_, rfl⟩⟩ := release_cases dropped <;>
      rw [find_store] <;> split
    · rename_i same
      subst same
      rw [held] at found
      cases found
      exact ⟨_, rfl, rfl, reserved⟩
    · exact ⟨entry, held, rfl, reserved⟩
    · rename_i same
      subst same
      rw [held] at found
      cases found
      exact ⟨_, rfl, rfl, reserved⟩
    · exact ⟨entry, held, rfl, reserved⟩
  simp only [doneWith, dropped, bind, Except.bind]
  split
  · obtain ⟨freed, left, ran, remaining, kept⟩ := cleanupLoop_listing
      (released.currentSize - released.sizeQuota) released.freeList.nodes.length 0 listed
    simp only [cleanup, ran, bind, Except.bind, pure, Except.pure]
    refine ⟨_, rfl, listing_resized remaining _, ?_⟩
    intro other entry held reserved
    obtain ⟨slot, found, same, stillReserved⟩ := stays other entry held reserved
    exact ⟨slot, kept other slot found (reserved_referenced listed found stillReserved).1, same⟩
  · refine ⟨released, rfl, listed, ?_⟩
    intro other entry held reserved
    obtain ⟨slot, found, same, _⟩ := stays other entry held reserved
    exact ⟨slot, found, same⟩

/-- On a proper listing the node a slot names is on the list. -/
theorem listing_places (listing : Listing cache) (entry : CacheEntry δ Nat) (node : Nat)
    (held : cache.find key = some entry) (names : entry.freeListRef = some node) :
    node ∈ cache.freeList.nodes.map Prod.fst := by
  cases listing.standing key entry held with
  | referenced _ unlisted => cases unlisted.symm.trans names
  | listed _ _ named member =>
    cases named.symm.trans names
    exact List.mem_map_of_mem member

/-- Callbacks queued on a slot that is not reserved have all been invoked. -/
def Served (state : State κ δ) : Prop :=
  ∀ key entry, state.cache.find key = some entry → entry.isReserved = false →
    ∀ callback ∈ entry.queue, callback ∈ invoked state.calls

theorem served_step (served : Served state) (ran : exec state op = .ok after) : Served after := by
  obtain ⟨ret, delivered, effect, calls⟩ := exec_effect ran
  have earlier {callback : Nat} (member : callback ∈ invoked state.calls) :
      callback ∈ invoked after.calls := by
    rw [calls]
    simp only [invoked, List.flatMap_append, List.mem_append]
    exact .inl member
  have now {callback : Nat} (member : callback ∈ delivered.map Prod.fst) :
      callback ∈ invoked after.calls := by
    rw [calls]
    simp only [invoked, List.flatMap_append, List.mem_append, List.flatMap_singleton, record]
    exact .inr member
  generalize nextCache : after.cache = next at effect
  have overwritten {changed : κ} {new : CacheEntry δ Nat}
      (find : ∀ other, next.find other = if other = changed then some new else state.cache.find
        other)
      (fine : new.isReserved = false → ∀ callback ∈ new.queue, callback ∈ invoked after.calls) :
      Served after := by
    intro key entry found ready callback member
    rw [nextCache, find] at found
    split at found
    · cases found
      exact fine ready callback member
    · exact earlier (served key entry found ready callback member)
  cases effect with
  | putFresh absent =>
    exact overwritten (fun _ => (find_resized _).trans find_insertNew) (by simp [CacheEntry.filled])
  | putReserved held reserved rewrites =>
    exact overwritten rewrites.find (fun _ callback member => now (by simpa [putInto] using member))
  | putRefused | getMissed | reserveRefused | cancelRefused =>
    intro key entry found ready callback member
    rw [nextCache] at found
    exact earlier (served key entry found ready callback member)
  | getQueued held reserved => exact overwritten (fun _ => find_store) (by simp [reserved])
  | getDelivered held ready unlisted sizes find =>
    exact overwritten find (fun _ callback member =>
      earlier (served _ _ held ready callback member))
  | reserveFresh absent =>
    exact overwritten (fun _ => find_insertNew) (by simp [CacheEntry.reserved])
  | reserveHeld held ready => exact overwritten (fun _ => find_store) (by simp)
  | cancelled held reserved rewrites =>
    exact overwritten rewrites.find (fun _ callback member => now (by simpa [opened] using member))
  | done released =>
    intro key entry found ready callback member
    rw [nextCache] at found
    obtain ⟨before, held, same⟩ := doneWith_find released found
    exact earlier (served key before held (same.isReserved ▸ ready) callback (same.queue ▸ member))

/-- A call that keeps the reserved slots referenced keeps the listing. -/
theorem effect_listing {number : Nat} {ret : Bool} {delivered : List (Delivery δ)}
    (listing : Listing cache) (contract : Contract cache op)
    (guarded : KeepsReservedReferenced cache op)
    (effect : Effect number cache op ret next delivered) : Listing next := by
  have fresh {key : κ} {entry : CacheEntry δ Nat} (absent : cache.find key = none)
      (find : ∀ other, next.find other = if other = key then some entry else cache.find other)
      (nodes : next.freeList = cache.freeList) (counted : 0 < entry.refCount)
      (unlisted : entry.freeListRef = none) : Listing next :=
    listing_overwrite listing (by simp [absent]) find nodes counted unlisted
  have replaced {key : κ} {old entry : CacheEntry δ Nat} (held : cache.find key = some old)
      (idle : old.freeListRef = none)
      (find : ∀ other, next.find other = if other = key then some entry else cache.find other)
      (nodes : next.freeList = cache.freeList) (counted : 0 < entry.refCount)
      (unlisted : entry.freeListRef = none) : Listing next :=
    listing_overwrite listing (by simp [held, idle]) find nodes counted unlisted
  cases effect with
  | putFresh absent =>
    exact fresh absent (fun _ => (find_resized _).trans find_insertNew) rfl Nat.one_pos rfl
  | putReserved held reserved rewrites =>
    obtain ⟨counted, idle⟩ := reserved_referenced listing held reserved
    exact replaced held idle rewrites.find rewrites.freeList (Nat.add_pos_left counted _) idle
  | putRefused | getMissed | reserveRefused | cancelRefused => exact listing
  | getQueued held reserved =>
    obtain ⟨counted, idle⟩ := reserved_referenced listing held reserved
    exact replaced held idle (fun _ => find_store) rfl counted idle
  | getDelivered held ready unlisted sizes find =>
    cases unlisted with
    | idle idle same => exact replaced held idle find same (Nat.succ_pos _) rfl
    | listed names removed => exact listing_unlist listing held names removed find
  | reserveFresh absent => exact fresh absent (fun _ => find_insertNew) rfl Nat.one_pos rfl
  | reserveHeld held ready =>
    simp only [KeepsReservedReferenced, held] at guarded
    have idle := counted_unlisted listing held (guarded ready)
    exact replaced held idle (fun _ => find_store) rfl (guarded ready) idle
  | cancelled held reserved rewrites =>
    obtain ⟨counted, idle⟩ := reserved_referenced listing held reserved
    exact replaced held idle rewrites.find rewrites.freeList counted idle
  | done released =>
    obtain ⟨left, again, remaining, _⟩ := doneWith_listing listing contract guarded
    cases released.symm.trans again
    exact remaining

/-- A call that keeps the reserved slots referenced returns, keeps the listing
and evicts nothing that is waiting. -/
theorem exec_listing (listing : Listing state.cache) (served : Served state)
    (contract : Contract state.cache op) (guarded : KeepsReservedReferenced state.cache op) :
    ∃ after, exec state op = .ok after ∧ Listing after.cache ∧ KeepsWaiting state after := by
  have returns : ∃ result, apply state.calls.length state.cache op = .ok result := by
    cases op with
    | put key buf size =>
      obtain ⟨ret, next, delivered, ran, _⟩ :=
        put_effect state.calls.length state.cache key buf size
      exact ⟨_, ran⟩
    | get key => exact get_returns _ (listing_places listing)
    | reserve key => exact ⟨_, rfl⟩
    | cancelReservation key =>
      obtain ⟨ret, next, delivered, ran, _⟩ := cancel_effect state.calls.length state.cache key
      exact ⟨_, ran⟩
    | doneWith key =>
      obtain ⟨next, ran, _⟩ := doneWith_listing listing contract guarded
      exact ⟨(true, ⟨next, []⟩), by simp only [apply, ran, Except.map]⟩
  obtain ⟨_, returned⟩ := returns
  obtain ⟨after, ran⟩ := exec_returns returned
  obtain ⟨ret, delivered, effect, _⟩ := exec_effect ran
  refine ⟨after, ran, effect_listing listing contract guarded effect, ?_⟩
  intro other entry held waiting
  by_cases done : ∃ key, op = .doneWith key
  · obtain ⟨key, rfl⟩ := done
    obtain ⟨left, again, _, stays⟩ := doneWith_listing listing contract guarded
    have same : after.cache = left := by
      generalize after.cache = next at effect
      cases effect with
      | done released =>
        cases released.symm.trans again
        rfl
    rw [same]
    apply stays other entry held
    rcases waiting with reserved | ⟨callback, queued, uninvoked⟩
    · exact reserved
    · by_contra ready
      exact uninvoked (served other entry held (Bool.eq_false_iff.mpr ready) callback queued)
  · exact effect_keeps_slots effect (fun key same => done ⟨key, same⟩) held

/-- A slot left by a `doneWith` that dropped its last reference has a node. -/
private theorem doneWith_lists {entry kept : CacheEntry δ Nat} (held : cache.find key = some entry)
    (last : entry.refCount = 1) (ran : cache.doneWith key = .ok next)
    (found : next.find key = some kept) : kept.freeListRef ≠ none ∧
    kept.isReserved = entry.isReserved := by
  obtain ⟨released, dropped, after⟩ := doneWith_cases ran
  have there : released.find key = some kept := by
    rcases after with ⟨_, rfl⟩ | ⟨_, cleaned⟩
    · exact found
    · obtain ⟨freed, left, loop, rfl⟩ := cleanup_eq_ok cleaned
      exact cleanupLoop_find loop found
  obtain ⟨slot, holds, ⟨more, _⟩ | ⟨_, rfl⟩⟩ := release_cases dropped <;>
    rw [held] at holds <;> cases holds
  · omega
  · rw [find_store_same] at there
    cases there
    exact ⟨nofun, rfl⟩

/-- A reserve of a slot without references leaves it on the list. -/
private theorem reserve_spoils {entry : CacheEntry δ Nat} (listing : Listing state.cache)
    (held : state.cache.find key = some entry) (ready : entry.isReserved = false)
    (uncounted : entry.refCount = 0) : ¬ ListingKept state (.reserve key) := by
  rintro ⟨_, kept⟩
  obtain ⟨after, ran⟩ := exec_returns
    (show apply state.calls.length state.cache (.reserve key : Op κ δ) = .ok _ from rfl)
  obtain ⟨exact, _⟩ := kept after ran
  obtain ⟨ret, delivered, effect, _⟩ := exec_effect ran
  generalize after.cache = next at effect exact
  cases effect with
  | reserveFresh absent => cases held.symm.trans absent
  | reserveRefused found reserved =>
    cases held.symm.trans found
    cases ready.symm.trans reserved
  | reserveHeld found unreserved =>
    cases held.symm.trans found
    cases listing.standing key entry held with
    | referenced counted => omega
    | listed _ _ _ member =>
      obtain ⟨slot, there, _, _, free⟩ := exact.1 _ member
      rw [find_store_same] at there
      cases there
      cases free

/-- A `doneWith` for the last reference to a reserved slot lists it, or evicts it. -/
private theorem doneWith_spoils {entry : CacheEntry δ Nat} (listing : Listing state.cache)
    (held : state.cache.find key = some entry) (reserved : entry.isReserved = true)
    (last : entry.refCount = 1) : ¬ ListingKept state (.doneWith key) := by
  rintro ⟨_, kept⟩
  obtain ⟨next, released⟩ := doneWith_returns listing held (by omega)
  obtain ⟨after, ran⟩ : ∃ after, exec state (.doneWith key) = .ok after :=
    exec_returns (show apply state.calls.length state.cache (.doneWith key) = .ok (true, ⟨next, []⟩)
      by simp only [apply, released, Except.map])
  obtain ⟨exact, keeps⟩ := kept after ran
  obtain ⟨slot, found, _⟩ := keeps key entry held (.inl reserved)
  obtain ⟨ret, delivered, effect, _⟩ := exec_effect ran
  generalize after.cache = final at effect exact found
  cases effect with
  | done dropped =>
    obtain ⟨names, same⟩ := doneWith_lists held last dropped found
    have off := exact.2 key slot found
    rw [if_neg (by simp [same, reserved])] at off
    exact names off

/-- On a proper listing, a call spoils the free list exactly when it leaves a
reserved slot without references. -/
private theorem listing_kept_iff (invariant : Listing state.cache ∧ Served state)
    (contract : Contract state.cache op) :
    ListingKept state op ↔ KeepsReservedReferenced state.cache op := by
  obtain ⟨listing, served⟩ := invariant
  constructor
  · intro kept
    cases op with
    | put | get | cancelReservation => trivial
    | reserve key =>
      simp only [KeepsReservedReferenced]
      cases held : state.cache.find key with
      | none => trivial
      | some entry =>
        intro ready
        apply Nat.pos_of_ne_zero
        intro uncounted
        exact reserve_spoils listing held ready uncounted kept
    | doneWith key =>
      simp only [KeepsReservedReferenced]
      cases held : state.cache.find key with
      | none => trivial
      | some entry =>
        intro reserved last
        exact doneWith_spoils listing held reserved last kept
  · intro guarded
    obtain ⟨after, ran, kept, keeps⟩ := exec_listing listing served contract guarded
    refine ⟨by rw [ran]; nofun, fun left again => ?_⟩
    cases ran.symm.trans again
    exact ⟨listing_exact kept, keeps⟩

/-- **The free list is exact as long as reserved slots stay referenced.** In
every run, no call fails the assertion in `cleanup`, and those that return keep the
free list exact and the waiting slots in place, exactly when no call reserves an
unreferenced slot or drops the last reference to a reserved one. -/
theorem free_list_exact_iff_reserved_referenced (run : Run (client κ δ quota) attempts outcome) :
    (∀ attempt ∈ attempts, ListingKept attempt.1 attempt.2) ↔
      ∀ attempt ∈ attempts, KeepsReservedReferenced attempt.1.cache attempt.2 := by
  refine run.exact (fun state => Listing state.cache ∧ Served state) ListingKept
    (fun state op => KeepsReservedReferenced state.cache op) ⟨⟨nofun, nofun⟩, nofun⟩ ?_ ?_
  · intro state op next invariant allowed guarded ran
    obtain ⟨after, returned, listing, _⟩ := exec_listing invariant.1 invariant.2 allowed.2 guarded
    cases ran.symm.trans returned
    exact ⟨listing, served_step invariant.2 ran⟩
  · intro state op invariant allowed
    exact listing_kept_iff invariant allowed.2

/-- A slot is filled for a waiter, released, re-acquired and released again. -/
theorem free_list_exact_iff_reserved_referenced_run :
    ∃ attempts : List (State (List Char) Unit × Op (List Char) Unit), attempts.map Prod.snd =
        [.reserve ['a'], .get ['a'], .put ['a'] (some ()) 2, .doneWith ['a'], .doneWith ['a'],
          .put ['b'] (some ()) 1, .doneWith ['b'], .get ['a'], .doneWith ['a']] ∧
      ∀ attempt ∈ attempts, ListingKept attempt.1 attempt.2 :=
  ⟨_, rfl, (free_list_exact_iff_reserved_referenced (replayed (client (List Char) Unit 10)
    [.reserve ['a'], .get ['a'], .put ['a'] (some ()) 2, .doneWith ['a'], .doneWith ['a'],
      .put ['b'] (some ()) 1, .doneWith ['b'], .get ['a'], .doneWith ['a']]
    (by decide))).mpr (by decide)⟩

/-- A released slot is reserved, so that it is on the free list while reserved;
the waiter it is filled for is handed a reference, and the next eviction finds a
referenced slot on the list. -/
theorem reserved_slot_stays_listed :
    ∃ attempts, Run (client (List Char) Unit 0) attempts
    (.error (.assertion .cleanupUnreferenced)) ∧
      attempts.map Prod.snd =
        [.put ['a'] (some ()) 0, .doneWith ['a'], .reserve ['a'], .get ['a'],
          .put ['a'] (some ()) 0,
          .put ['b'] (some ()) 1, .doneWith ['b']] ∧
      ∃ attempt ∈ attempts, ¬ FreeListExact attempt.1.cache := by
  refine ⟨_, replayed (client (List Char) Unit 0)
    [.put ['a'] (some ()) 0, .doneWith ['a'], .reserve ['a'], .get ['a'], .put ['a'] (some ()) 0,
      .put ['b'] (some ()) 1, .doneWith ['b']] (by decide), rfl, _,
    .tail _ (.tail _ (.tail _ (.head _))), ?_⟩
  intro exact
  obtain ⟨entry, held, _, _, unreserved⟩ := exact.1 (0, ⟨['a'], 0⟩) (by decide)
  cases held
  cases unreserved

end EventDisp.CacheFreeList
