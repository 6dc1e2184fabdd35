import EventDisp.CacheOperations
import EventDisp.CacheRuns

/-! One case for each thing a call can do when callbacks do not call the cache
again. Every invariant of the cache runs is derived from these cases. -/
namespace EventDisp.CacheRuns

open Cache

variable {κ δ : Type} [DecidableEq κ]
variable {cache next : Cache κ δ Nat} {number : Nat} {op : Op κ δ} {ret : Bool}
variable {delivered : List (Delivery δ)} {state after : State κ δ}

/-- The slot a `get` leaves behind when it delivers: one more reference, and off
the free list. -/
def acquired (entry : CacheEntry δ Nat) : CacheEntry δ Nat :=
  { entry with refCount := entry.refCount + 1, freeListRef := none }

/-- The slot a successful `put` into a reserved slot leaves behind. -/
def putInto (entry : CacheEntry δ Nat) (buf : Option δ) (size : Nat) : CacheEntry δ Nat :=
  { entry with
    data := buf
    size := size
    refCount := entry.refCount + entry.queue.length
    isReserved := false
    deleted := entry.queue.length }

/-- The slot a successful `cancelReservation` leaves behind. -/
def opened (entry : CacheEntry δ Nat) : CacheEntry δ Nat :=
  { entry with isReserved := false, deleted := entry.queue.length }

/-- `get` takes the slot off the free list when it is on it. -/
inductive Unlisted (cache next : Cache κ δ Nat) (entry : CacheEntry δ Nat) : Prop where
  | idle (listed : entry.freeListRef = none) (same : next.freeList = cache.freeList)
  | listed {node : Nat} (listed : entry.freeListRef = some node)
      (removed : cache.freeList.removeNode node = some next.freeList)

/-- What one returned call did: its answer, the cache after it and the callbacks
it invoked. -/
inductive Effect (number : Nat) (cache : Cache κ δ Nat) :
    Op κ δ → Bool → Cache κ δ Nat → List (Delivery δ) → Prop where
  | putFresh {key buf size} (absent : cache.find key = none) :
      Effect number cache (.put key buf size) true
        { cache.insertNew key (.filled · buf size) with
          currentSize := addSize cache.currentSize size } []
  | putReserved {key buf size entry next} (held : cache.find key = some entry)
      (reserved : entry.isReserved = true)
      (rewrites : Overwrites cache next key (putInto entry buf size))
      (strays : next.strays = cache.strays + min entry.deleted entry.queue.length) :
      Effect number cache (.put key buf size) true next (entry.queue.map (·, ⟨buf, size, true⟩))
  | putRefused {key buf size entry} (held : cache.find key = some entry)
      (occupied : entry.isReserved = false) :
      Effect number cache (.put key buf size) false cache []
  | getMissed {key} (absent : cache.find key = none) :
      Effect number cache (.get key) false cache []
  | getQueued {key entry} (held : cache.find key = some entry)
      (reserved : entry.isReserved = true) :
      Effect number cache (.get key) true
        (cache.store key { entry with queue := entry.queue ++ [number] }) []
  | getDelivered {key entry next} (held : cache.find key = some entry)
      (ready : entry.isReserved = false) (unlisted : Unlisted cache next entry)
      (sizes : next.currentSize = cache.currentSize ∧ next.sizeQuota = cache.sizeQuota ∧
        next.nextRef = cache.nextRef)
      (find : ∀ other, next.find other =
        if other = key then some (acquired entry) else cache.find other)
      (strays : next.strays = cache.strays) :
      Effect number cache (.get key) true next [(number, ⟨entry.data, entry.size, true⟩)]
  | reserveFresh {key} (absent : cache.find key = none) :
      Effect number cache (.reserve key) true (cache.insertNew key .reserved) []
  | reserveHeld {key entry} (held : cache.find key = some entry)
      (ready : entry.isReserved = false) :
      Effect number cache (.reserve key) true (cache.store key { entry with isReserved := true }) []
  | reserveRefused {key entry} (held : cache.find key = some entry)
      (reserved : entry.isReserved = true) :
      Effect number cache (.reserve key) false cache []
  | cancelled {key entry next} (held : cache.find key = some entry)
      (reserved : entry.isReserved = true) (rewrites : Overwrites cache next key (opened entry))
      (strays : next.strays = cache.strays + min entry.deleted entry.queue.length) :
      Effect number cache (.cancelReservation key) true next
        (entry.queue.map (·, ⟨none, 0, false⟩))
  | cancelRefused {key}
      (unreserved : ∀ entry, cache.find key = some entry → entry.isReserved = false) :
      Effect number cache (.cancelReservation key) false cache []
  | done {key next} (ran : cache.doneWith key = .ok next) :
      Effect number cache (.doneWith key) true next []

private theorem putLoop_deliver (ptr : EntryPtr κ) {entry : CacheEntry δ Nat} (deleted : Nat)
    (queue : List Nat) (host : Host κ δ Nat (List (Delivery δ)))
    (held : host.cache.find ptr.name = some entry) (same : entry.ref = ptr.ref)
    (data : CacheData δ) :
    ∃ next, putLoop deliver ptr data deleted queue host =
        .ok ⟨next, host.client ++ queue.map (·, data)⟩ ∧
      Overwrites host.cache next ptr.name
        { entry with refCount := entry.refCount + queue.length } ∧
      next.strays = host.cache.strays + min deleted queue.length := by
  induction queue generalizing deleted host entry with
  | nil => exact ⟨host.cache, by simp [putLoop], by simpa using .refl held, by simp⟩
  | cons callback rest ih =>
    let counted := host.cache.store ptr.name { entry with refCount := entry.refCount + 1 }
    simp only [putLoop, modifyHost_held ptr host held same, bind, Except.bind, deliver]
    obtain ⟨next, ran, rewrites, strays⟩ := ih (deleted - 1)
      ⟨(Host.calling ⟨counted, host.client⟩ deleted).cache, host.client ++ [(callback, data)]⟩
      find_store_same same
    refine ⟨next, by simpa using ran, ?_, ?_⟩
    · have both := ((Overwrites.store host.cache ptr.name _).strayed _).trans rewrites
      simpa [Nat.add_assoc, Nat.add_comm 1] using both
    · rw [strays]
      simp only [Host.calling, counted, store, List.length_cons]
      omega

omit [DecidableEq κ] in
private theorem cancelLoop_deliver (deleted : Nat) (queue : List Nat)
    (host : Host κ δ Nat (List (Delivery δ))) :
    cancelLoop deliver deleted queue host =
      .ok ⟨{ host.cache with strays := host.cache.strays + min deleted queue.length },
        host.client ++ queue.map (·, ⟨none, 0, false⟩)⟩ := by
  induction queue generalizing deleted host with
  | nil => simp [cancelLoop]
  | cons callback rest ih =>
    simp only [cancelLoop, deliver, bind, Except.bind, ih, Host.calling, List.length_cons,
      List.append_assoc, List.map_cons, List.singleton_append]
    congr 3
    omega

/-- `put` always returns. -/
theorem put_effect (number : Nat) (cache : Cache κ δ Nat) (key : κ) (buf : Option δ) (size : Nat) :
    ∃ ret next delivered, apply number cache (.put key buf size) = .ok (ret, ⟨next, delivered⟩) ∧
      Effect number cache (.put key buf size) ret next delivered := by
  simp only [apply, put]
  cases held : cache.find key with
  | none => exact ⟨_, _, _, rfl, .putFresh held⟩
  | some entry =>
    cases reserved : entry.isReserved with
    | false => exact ⟨false, cache, [], by simp [reserved], .putRefused held reserved⟩
    | true =>
      have filled := modifyHost_held ⟨key, entry.ref⟩ ⟨cache, ([] : List (Delivery δ))⟩ held rfl
        fun entry => { entry with data := buf, size := size }
      obtain ⟨served, ran, rewrites, strays⟩ := putLoop_deliver ⟨key, entry.ref⟩ entry.deleted
        entry.queue ⟨cache.store key { entry with data := buf, size := size }, []⟩ find_store_same
        rfl ⟨buf, size, true⟩
      have opened := modifyHost_held ⟨key, entry.ref⟩
        ⟨served, entry.queue.map (·, (⟨buf, size, true⟩ : CacheData δ))⟩ rewrites.found rfl
        fun slot => { slot with deleted := entry.queue.length, isReserved := false }
      simp only [List.nil_append] at ran
      simp only [if_pos reserved, bind, Except.bind, pure, Except.pure, filled, ran, opened]
      exact ⟨_, _, _, rfl, .putReserved held reserved
        (((Overwrites.store cache key _).trans rewrites).trans (.store served key _)) strays⟩

/-- `cancelReservation` always returns. -/
theorem cancel_effect (number : Nat) (cache : Cache κ δ Nat) (key : κ) :
    ∃ ret next delivered, apply number cache (.cancelReservation key) = .ok (ret,
    ⟨next, delivered⟩) ∧
      Effect number cache (.cancelReservation key) ret next delivered := by
  simp only [apply, cancelReservation]
  cases held : cache.find key with
  | none => exact ⟨_, _, _, rfl, .cancelRefused (by simp [held])⟩
  | some entry =>
    cases reserved : entry.isReserved with
    | false =>
      exact ⟨false, cache, [], by simp [reserved], .cancelRefused (by simp [held, reserved])⟩
    | true =>
      let told := { cache.store key { entry with isReserved := false } with
        strays := cache.strays + min entry.deleted entry.queue.length }
      have rewrites : Overwrites cache told key { entry with isReserved := false } :=
        (Overwrites.store cache key _).strayed _
      have deletes := modifyHost_held ⟨key, entry.ref⟩
        ⟨told, entry.queue.map (·, (⟨none, 0, false⟩ : CacheData δ))⟩ rewrites.found rfl
        fun slot => { slot with deleted := entry.queue.length }
      simp only [reserved, ↓reduceIte, bind, Except.bind, pure, Except.pure, cancelLoop_deliver,
        List.nil_append]
      rw [show (cache.store key { entry with isReserved := false }).strays = cache.strays from rfl,
        deletes]
      exact ⟨_, _, _, rfl, .cancelled held reserved (rewrites.trans (.store told key _)) rfl⟩

/-- `reserve` always returns. -/
theorem reserve_effect (number : Nat) (cache : Cache κ δ Nat) (key : κ) :
    ∃ ret next delivered, apply number cache (.reserve key) = .ok (ret, ⟨next, delivered⟩) ∧
      Effect number cache (.reserve key) ret next delivered := by
  simp only [apply, reserve]
  cases held : cache.find key with
  | none => exact ⟨_, _, _, rfl, .reserveFresh held⟩
  | some entry =>
    cases reserved : entry.isReserved with
    | false =>
      refine ⟨true, cache.store key { entry with isReserved := true }, [], by simp [reserved], ?_⟩
      exact .reserveHeld held reserved
    | true => exact ⟨false, cache, [], by simp [reserved], .reserveRefused held reserved⟩

private theorem unlist_cases {ptr : EntryPtr κ} {entry : CacheEntry δ Nat}
    (held : cache.find ptr.name = some entry) (same : entry.ref = ptr.ref)
    (ran : cache.unlist ptr = .ok next) :
    (entry.freeListRef = none ∧ next = cache) ∨
      ∃ node freeList, entry.freeListRef = some node ∧
      cache.freeList.removeNode node = some freeList ∧
        next = { cache with freeList }.store ptr.name { entry with freeListRef := none } := by
  unfold unlist at ran
  rw [deref_eq_ok.mpr ⟨held, same⟩] at ran
  simp only [bind, Except.bind] at ran
  split at ran
  · rename_i idle
    cases ran
    exact .inl ⟨idle, rfl⟩
  · rename_i node listed
    split at ran
    · cases ran
    · rename_i freeList removed
      cases ran
      exact .inr ⟨node, freeList, listed, removed, rfl⟩

/-- A `get` that returns missed, was queued, or delivered at once. -/
theorem get_effect {key : κ}
    (ran : apply number cache (.get key : Op κ δ) = .ok (ret, ⟨next, delivered⟩)) :
    Effect number cache (.get key) ret next delivered := by
  simp only [apply, Cache.get] at ran
  cases held : cache.find key with
  | none =>
    simp only [held, Except.ok.injEq, Prod.mk.injEq, Host.mk.injEq] at ran
    obtain ⟨rfl, rfl, rfl⟩ := ran
    exact .getMissed held
  | some entry =>
    cases reserved : entry.isReserved with
    | true =>
      simp only [held, if_pos reserved, Except.ok.injEq, Prod.mk.injEq, Host.mk.injEq] at ran
      obtain ⟨rfl, rfl, rfl⟩ := ran
      exact .getQueued held reserved
    | false =>
      have counted := modifyHost_held ⟨key, entry.ref⟩
        ⟨cache, [(number, (⟨entry.data, entry.size, true⟩ : CacheData δ))]⟩ held rfl
        fun entry => { entry with refCount := entry.refCount + 1 }
      simp only [held, if_neg (show ¬entry.isReserved = true by simp [reserved]), deliver, bind,
        Except.bind, List.nil_append, counted] at ran
      cases off : (cache.store key { entry with refCount := entry.refCount + 1 }).unlist
          ⟨key, entry.ref⟩ with
      | error fault => simp [off] at ran
      | ok left =>
        simp only [off, pure, Except.pure, Except.ok.injEq, Prod.mk.injEq, Host.mk.injEq] at ran
        obtain ⟨rfl, rfl, rfl⟩ := ran
        rcases unlist_cases find_store_same rfl off with
          ⟨idle, rfl⟩ | ⟨node, freeList, listed, removed, rfl⟩
        · simp only at idle
          refine .getDelivered held reserved (.idle idle rfl) ⟨rfl, rfl, rfl⟩ (fun other => ?_) rfl
          simp [acquired, ← idle]
        · refine .getDelivered held reserved ?_ ⟨rfl, rfl, rfl⟩ (fun other => ?_) rfl
          · exact .listed listed removed
          · rw [find_store]
            split
            · rfl
            · rename_i different
              exact find_store.trans (if_neg different)

/-- A `get` returns when the node its slot names, if any, is on the free list. -/
theorem get_returns (number : Nat) {key : κ}
    (placed : ∀ entry node, cache.find key = some entry → entry.freeListRef = some node →
      node ∈ cache.freeList.nodes.map Prod.fst) :
    ∃ result, apply number cache (.get key : Op κ δ) = .ok result := by
  simp only [apply, Cache.get]
  cases held : cache.find key with
  | none => exact ⟨_, rfl⟩
  | some entry =>
    simp only
    split
    · exact ⟨_, rfl⟩
    · have counted := modifyHost_held ⟨key, entry.ref⟩
        ⟨cache, [(number, (⟨entry.data, entry.size, true⟩ : CacheData δ))]⟩ held rfl
        fun entry => { entry with refCount := entry.refCount + 1 }
      have found : (cache.store key { entry with refCount := entry.refCount + 1 }).deref
          ⟨key, entry.ref⟩ = .ok { entry with refCount := entry.refCount + 1 } :=
        deref_eq_ok.mpr ⟨find_store_same, rfl⟩
      simp only [deliver, bind, Except.bind, List.nil_append, counted, unlist, found]
      cases names : entry.freeListRef with
      | none => exact ⟨_, rfl⟩
      | some node =>
        obtain ⟨left, removed⟩ := Option.isSome_iff_exists.mp
          (FastFifo.removeNode_isSome.mpr (placed entry node held names))
        simp only [store_freeList, removed]
        exact ⟨_, rfl⟩

theorem doneWith_effect {key : κ}
    (ran : apply number cache (.doneWith key : Op κ δ) = .ok (ret, ⟨next, delivered⟩)) :
    Effect number cache (.doneWith key) ret next delivered := by
  simp only [apply] at ran
  cases released : cache.doneWith key with
  | error fault => simp [released, Except.map] at ran
  | ok left =>
    simp only [released, Except.map, Except.ok.injEq, Prod.mk.injEq, Host.mk.injEq] at ran
    obtain ⟨rfl, rfl, rfl⟩ := ran
    exact .done released

/-- Every returned call is one of the cases. -/
theorem apply_effect (ran : apply number cache op = .ok (ret, ⟨next, delivered⟩)) :
    Effect number cache op ret next delivered := by
  have unique {op : Op κ δ} (ran : apply number cache op = .ok (ret, ⟨next, delivered⟩))
      (total : ∃ ret next delivered, apply number cache op = .ok (ret, ⟨next, delivered⟩) ∧
        Effect number cache op ret next delivered) : Effect number cache op ret next delivered := by
    obtain ⟨_, _, _, same, effect⟩ := total
    rw [ran] at same
    cases same
    exact effect
  cases op with
  | put key buf size => exact unique ran (put_effect number cache key buf size)
  | get key => exact get_effect ran
  | reserve key => exact unique ran (reserve_effect number cache key)
  | cancelReservation key => exact unique ran (cancel_effect number cache key)
  | doneWith key => exact doneWith_effect ran

/-- The record a call leaves in the history. -/
def record (cache next : Cache κ δ Nat) (op : Op κ δ) (ret : Bool) (delivered : List (Delivery δ)) :
    Call κ δ :=
  { op, ret, created := (cache.find op.key).isNone && (next.find op.key).isSome, delivered }

/-- What an executed call did, and the record it left. -/
theorem exec_effect (ran : exec state op = .ok after) :
    ∃ ret delivered, Effect state.calls.length state.cache op ret after.cache delivered ∧
      after.calls = state.calls ++ [record state.cache after.cache op ret delivered] := by
  unfold exec at ran
  cases applied : apply state.calls.length state.cache op with
  | error fault => simp [applied, bind, Except.bind] at ran
  | ok result =>
    obtain ⟨ret, next, delivered⟩ := result
    simp only [applied, bind, Except.bind, pure, Except.pure, Except.ok.injEq] at ran
    subst ran
    exact ⟨ret, delivered, apply_effect applied, rfl⟩

/-- A call that returns is executed. -/
theorem exec_returns {result : Bool × Host κ δ Nat (List (Delivery δ))}
    (ran : apply state.calls.length state.cache op = .ok result) : ∃ after,
    exec state op = .ok after := by
  unfold exec
  rw [ran]
  exact ⟨_, rfl⟩

/-- The slots a call other than `doneWith` found are still there. -/
theorem effect_keeps_slots (effect : Effect number cache op ret next delivered)
    (notDone : ∀ key, op ≠ .doneWith key) {key : κ} {entry : CacheEntry δ Nat}
    (held : cache.find key = some entry) : ∃ kept, next.find key = some kept ∧
    kept.ref = entry.ref := by
  have overwritten {changed : κ} {old new : CacheEntry δ Nat}
      (find : ∀ other, next.find other = if other = changed then some new else cache.find other)
      (holds : cache.find changed = some old) (ref : new.ref = old.ref) :
      ∃ kept, next.find key = some kept ∧ kept.ref = entry.ref :=
    overwritten_kept (fun old new => new.ref = old.ref) (fun _ => rfl) find holds ref held
  have inserted {changed : κ} {new : CacheEntry δ Nat} (absent : cache.find changed = none)
      (find : ∀ other, next.find other = if other = changed then some new else cache.find other) :
      ∃ kept, next.find key = some kept ∧ kept.ref = entry.ref :=
    ⟨entry, inserted_kept absent find held, rfl⟩
  cases effect with
  | putFresh absent => exact inserted absent fun _ => (find_resized _).trans find_insertNew
  | putReserved holds reserved rewrites => exact overwritten rewrites.find holds rfl
  | putRefused | getMissed | reserveRefused | cancelRefused => exact ⟨entry, held, rfl⟩
  | getQueued holds reserved => exact overwritten (fun _ => find_store) holds rfl
  | getDelivered holds ready unlisted sizes find => exact overwritten find holds rfl
  | reserveFresh absent => exact inserted absent fun _ => find_insertNew
  | reserveHeld holds ready => exact overwritten (fun _ => find_store) holds rfl
  | cancelled holds reserved rewrites => exact overwritten rewrites.find holds rfl
  | done ran => exact absurd rfl (notDone _)

/-- A call on another key leaves a slot as it is, or takes it away when it has no
references. -/
theorem effect_elsewhere (effect : Effect number cache op ret next delivered) {key : κ}
    (different : op.key ≠ key) :
    next.find key = cache.find key ∨ next.find key = none ∧ ∃ entry, cache.find key = some entry ∧
    entry.refCount = 0 := by
  have rewritten {new : CacheEntry δ Nat}
      (find : ∀ other, next.find other = if other = op.key then some new else cache.find other) :
      next.find key = cache.find key := by
    rw [find, if_neg fun same => different same.symm]
  cases effect with
  | putFresh absent => exact .inl (rewritten fun _ => (find_resized _).trans find_insertNew)
  | putReserved _ _ rewrites | cancelled _ _ rewrites => exact .inl (rewritten rewrites.find)
  | putRefused | getMissed | reserveRefused | cancelRefused => exact .inl rfl
  | getQueued | reserveHeld => exact .inl (rewritten fun _ => find_store)
  | getDelivered held ready unlisted sizes find => exact .inl (rewritten find)
  | reserveFresh absent => exact .inl (rewritten fun _ => find_insertNew)
  | done ran => exact doneWith_elsewhere ran fun same => different same.symm

/-- A queue grows only by the callback of a `get` that found its slot reserved. -/
theorem effect_queue (effect : Effect number cache op ret next delivered) {key : κ}
    {kept : CacheEntry δ Nat} (found : next.find key = some kept) :
    (∃ entry, cache.find key = some entry ∧ kept.queue = entry.queue) ∨ kept.queue = [] ∨
      (op = .get key ∧ ret = true ∧ delivered = [] ∧
        ∃ entry, cache.find key = some entry ∧ kept.queue = entry.queue ++ [number]) := by
  have overwritten {changed : κ} {old new : CacheEntry δ Nat}
      (find : ∀ other, next.find other = if other = changed then some new else cache.find other)
      (held : cache.find changed = some old) (same : new.queue = old.queue) :
      ∃ entry, cache.find key = some entry ∧ kept.queue = entry.queue := by
    rw [find] at found
    split at found
    · rename_i here
      cases found
      exact ⟨old, here ▸ held, same⟩
    · exact ⟨kept, found, rfl⟩
  have inserted {changed : κ} {new : CacheEntry δ Nat}
      (find : ∀ other, next.find other = if other = changed then some new else cache.find other)
      (empty : new.queue = []) :
      (∃ entry, cache.find key = some entry ∧ kept.queue = entry.queue) ∨ kept.queue = [] := by
    rw [find] at found
    split at found
    · cases found
      exact .inr empty
    · exact .inl ⟨kept, found, rfl⟩
  cases effect with
  | putFresh absent =>
    exact (inserted (fun _ => (find_resized _).trans find_insertNew) rfl).imp_right .inl
  | putReserved held reserved rewrites => exact .inl (overwritten rewrites.find held rfl)
  | putRefused | getMissed | reserveRefused | cancelRefused => exact .inl ⟨kept, found, rfl⟩
  | @getQueued changed entry held reserved =>
    rw [find_store] at found
    split at found
    · rename_i here
      subst here
      cases found
      exact .inr (.inr ⟨rfl, rfl, rfl, entry, held, rfl⟩)
    · exact .inl ⟨kept, found, rfl⟩
  | getDelivered held ready unlisted sizes find => exact .inl (overwritten find held rfl)
  | reserveFresh absent => exact (inserted (fun _ => find_insertNew) rfl).imp_right .inl
  | reserveHeld held ready => exact .inl (overwritten (fun _ => find_store) held rfl)
  | cancelled held reserved rewrites => exact .inl (overwritten rewrites.find held rfl)
  | done ran =>
    obtain ⟨before, held, same⟩ := doneWith_find ran found
    exact .inl ⟨before, held, same.queue⟩

end EventDisp.CacheRuns
