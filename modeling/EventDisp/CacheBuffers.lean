import EventDisp.CacheEffects

/-! The buffers a cache was handed, over a whole life: calls by a client that
keeps its contract, and at the end `~Cache`. Every `free` is recorded, and so is
every time `cleanup` and `~Cache` read the data or the name of a slot, with
whether the slot is still in `cacheMap_`. -/
namespace EventDisp.CacheBuffers

open Cache CacheRuns Execution

variable {κ δ β : Type} [DecidableEq κ]

/-- A field of a slot is read, or a buffer is freed. -/
inductive Access (κ δ : Type) where
  | dataRead (ptr : EntryPtr κ) (present : Bool)
  | nameRead (ptr : EntryPtr κ) (present : Bool)
  | freed (buf : δ)
  deriving DecidableEq, Repr

/-- The slot is still in `cacheMap_`. -/
def Access.present : Access κ δ → Bool
  | dataRead _ present | nameRead _ present => present
  | freed _ => true

def Access.buffer : Access κ δ → Option δ
  | freed buf => some buf
  | dataRead .. | nameRead .. => none

/-- The buffers that were freed, in order. -/
def frees (accesses : List (Access κ δ)) : List δ := accesses.filterMap Access.buffer

/-- The pointer leads to a slot of `cacheMap_`. -/
def holds (cache : Cache κ δ β) (ptr : EntryPtr κ) : Bool := (cache.deref ptr).toBool

/-- `CacheEntry::deallocate`. Freeing `NULL` does nothing. -/
def deallocate (cache : Cache κ δ β) (ptr : EntryPtr κ) (data : Option δ) : List (Access κ δ) :=
  .dataRead ptr (holds cache ptr) :: data.toList.map .freed ++ [.nameRead ptr (holds cache ptr)]

/-- The loop of `cleanup` with its accesses. `erase` is handed the name of the
slot, and `deallocate` the slot that was erased. -/
def cleanupLoopAccesses (space : Nat) :
    Nat → Nat → Cache κ δ β → Except Fault (List (Access κ δ) × Nat × Cache κ δ β)
  | 0, spaceFreed, cache => .ok ([], spaceFreed, cache)
  | rounds + 1, spaceFreed, cache =>
    if spaceFreed < space then
      match cache.freeList.pop with
      | none => .ok ([], spaceFreed, cache)
      | some (ptr, freeList) => do
        let entry ← cache.deref ptr
        if entry.refCount ≠ 0 then .error (.assertion .cleanupUnreferenced)
        else
          let erased := cache.evict ptr freeList
          let (later, result) ← cleanupLoopAccesses space rounds (addSize spaceFreed entry.size) erased
          return (.nameRead ptr (holds cache ptr) :: deallocate erased ptr entry.data ++ later,
          result)
    else .ok ([], spaceFreed, cache)

/-- What `doneWith` accesses. -/
def doneWithAccesses (cache : Cache κ δ β) (key : κ) : Except Fault (List (Access κ δ)) := do
  let cache ← cache.release key
  if cache.currentSize > cache.sizeQuota then
    let (accesses, _) ← cleanupLoopAccesses (cache.currentSize - cache.sizeQuota)
      cache.freeList.nodes.length 0 cache
    return accesses
  else return []

/-- One round of the first loop of `~Cache`. -/
def destroySlot (cache : Cache κ δ β) (key : κ) : Except Fault (List (Access κ δ) × Cache κ δ β) :=
  match cache.find key with
  | none => .ok ([], cache)
  | some entry =>
    let accesses := deallocate cache ⟨key, entry.ref⟩ entry.data
    let cache := cache.store key { entry with data := none }
    match entry.freeListRef with
    | none => .ok (accesses, cache)
    | some node =>
      match cache.freeList.removeNode node with
      | none => .error .dangling
      | some freeList => .ok (accesses, { cache with freeList })

/-- The first loop of `~Cache`, over the slots in the order of `cacheMap_`. -/
def destroySlots : List κ → Cache κ δ β → Except Fault (List (Access κ δ) × Cache κ δ β)
  | [], cache => .ok ([], cache)
  | key :: rest, cache => do
    let (now, cache) ← destroySlot cache key
    let (later, cache) ← destroySlots rest cache
    return (now ++ later, cache)

/-- The second loop of `~Cache`, at most `rounds` times around: every round pops
one node of the free list. -/
def drainLoop : Nat → Cache κ δ β → Except Fault (List (Access κ δ) × Cache κ δ β)
  | 0, cache => .ok ([], cache)
  | rounds + 1, cache =>
    match cache.freeList.pop with
    | none => .ok ([], cache)
    | some (ptr, freeList) => do
      let entry ← cache.deref ptr
      let (later, left) ← drainLoop rounds { cache with freeList }
      return (.dataRead ptr (holds cache ptr) :: entry.data.toList.map .freed ++ later, left)

/-- `Cache::~Cache`. -/
def destroy (order : List κ) (cache : Cache κ δ β) :
    Except Fault (List (Access κ δ) × Cache κ δ β) := do
  let (slots, cache) ← destroySlots order cache
  let (nodes, cache) ← drainLoop cache.freeList.nodes.length cache
  return (slots ++ nodes, cache)

/-- A cache with the calls made on it and everything it has accessed. -/
structure Life (κ δ : Type) where
  run : State κ δ
  accesses : List (Access κ δ) := []
  destroyed : Bool := false

/-- A call, or `~Cache` with the order its map is walked in. -/
inductive Step (κ δ : Type) where
  | call (op : Op κ δ)
  | destroy (order : List κ)
  deriving DecidableEq, Repr

def accessesOf (cache : Cache κ δ β) : Op κ δ → Except Fault (List (Access κ δ))
  | .doneWith key => doneWithAccesses cache key
  | .put .. | .get _ | .reserve _ | .cancelReservation _ => .ok []

def exec (life : Life κ δ) : Step κ δ → Except Fault (Life κ δ)
  | .call op => do
    let run ← CacheRuns.exec life.run op
    let accesses ← accessesOf life.run.cache op
    return { life with run, accesses := life.accesses ++ accesses }
  | .destroy order => do
    let (accesses, cache) ← destroy order life.run.cache
    return { run := { life.run with cache }, accesses := life.accesses ++ accesses, destroyed := true }

/-- Any life of a cache with the given quota. -/
def lives (κ δ : Type) [DecidableEq κ] (quota : Nat) : Program (Life κ δ) (Step κ δ) Fault where
  start := { run := (client κ δ quota).start }
  allowed life
    | .call op => life.destroyed = false ∧ (client κ δ quota).allowed life.run op
    | .destroy order => life.destroyed = false ∧ order.Perm life.run.cache.cacheMap.keys
  exec := exec

instance (quota : Nat) (life : Life κ δ) : DecidablePred ((lives κ δ quota).allowed life)
  | .call op => inferInstanceAs (Decidable (_ ∧ (client κ δ quota).allowed life.run op))
  | .destroy order => inferInstanceAs (Decidable (_ ∧ order.Perm life.run.cache.cacheMap.keys))

/-- The buffer a call hands over. -/
def buffer : Op κ δ → Option δ
  | .put _ buf _ => buf
  | .get _ | .reserve _ | .cancelReservation _ | .doneWith _ => none

/-- The buffers handed to `put`. -/
def handed (calls : List (Call κ δ)) : List δ := calls.filterMap fun call => buffer call.op

/-- The buffers `put` returned `true` for. -/
def accepted (calls : List (Call κ δ)) : List δ := handed (calls.filter (·.ret))

/-- The buffers `put` returned `false` for. -/
def refused (calls : List (Call κ δ)) : List δ := handed (calls.filter (!·.ret))

/-- What was accepted is what was freed, so that of buffers handed over once each
accepted one is freed exactly once and no refused one is; and no slot is read
after it left `cacheMap_`. -/
structure Owned [DecidableEq δ] (life : Life κ δ) : Prop where
  settled : (frees life.accesses).Perm (accepted life.run.calls)
  once : (handed life.run.calls).Nodup →
    ∀ buf ∈ accepted life.run.calls, (frees life.accesses).count buf = 1
  returned : (handed life.run.calls).Nodup → ∀ buf ∈ refused life.run.calls,
    buf ∉ frees life.accesses
  present : ∀ access ∈ life.accesses, access.present = true

/-- A `doneWith` that finds the quota exceeded and something to evict, if only the
slot whose last reference it drops. -/
def Evicts (cache : Cache κ δ β) : Op κ δ → Prop
  | .doneWith key =>
    match cache.find key with
    | some entry =>
      cache.sizeQuota < cache.currentSize ∧ (cache.freeList.nodes ≠ [] ∨ entry.refCount = 1)
    | none => False
  | .put .. | .get _ | .reserve _ | .cancelReservation _ => False

/-- The buffer a `put` finds in the reserved slot it fills. -/
def replaced (cache : Cache κ δ β) : Op κ δ → Option δ
  | .put key _ _ =>
    match cache.find key with
    | some entry => if entry.isReserved then entry.data else none
    | none => none
  | .get _ | .reserve _ | .cancelReservation _ | .doneWith _ => none

/-- The call evicts nothing and replaces no buffer. -/
def Spares (life : Life κ δ) : Step κ δ → Prop
  | .call op => ¬ Evicts life.run.cache op ∧ replaced life.run.cache op = none
  | .destroy _ => True

instance (cache : Cache κ δ β) : DecidablePred (Evicts cache)
  | .doneWith key =>
    match found : cache.find key with
    | some entry => decidable_of_iff
        (cache.sizeQuota < cache.currentSize ∧ (cache.freeList.nodes ≠ [] ∨ entry.refCount = 1))
        (by simp [Evicts, found])
    | none => isFalse (by simp [Evicts, found])
  | .put .. | .get _ | .reserve _ | .cancelReservation _ => isFalse id

instance [DecidableEq δ] (life : Life κ δ) : DecidablePred (Spares life)
  | .call op =>
    inferInstanceAs (Decidable (¬ Evicts life.run.cache op ∧ replaced life.run.cache op = none))
  | .destroy _ => isTrue trivial

end EventDisp.CacheBuffers
