import EventDisp.Fault
import EventDisp.FastFifo
import EventDisp.General.FiniteMap

/-! `cache.h` and `cache.cc`: the reference-counted key-value cache of the web
server. Keys, buffers and callbacks are arbitrary types; a buffer pointer is an
`Option`, `none` being `NULL`. Callbacks are run through a client-supplied
`invoke` on the cache together with the client's own state, at the very points
where the source calls them, so that a callback may call the cache again.

Two operations use objects that they have freed: `cleanup` hands `deallocate` the
slot it has just erased, and `put` and `cancelReservation` delete the callbacks of
a queue they never empty. Nothing is promised from the first such use on; the
model counts them (`strays`) and goes on with what the object last held, so that
what holds of every call also holds of those the compiled code survives, and a
call is sound when it adds none. -/
namespace EventDisp

/-- What a callback is handed. -/
structure CacheData (δ : Type) where
  data : Option δ
  size : Nat
  isCached : Bool
  deriving DecidableEq, Repr

/-- One slot of `cacheMap_`. `ref` stands for the address of the slot: no two
insertions share it. The name of the slot is its key in the map. `deleted` says
how many callbacks at the front of `queue` have been deleted. -/
structure CacheEntry (δ β : Type) where
  ref : Nat
  data : Option δ
  size : Nat
  refCount : Nat
  freeListRef : Option Nat
  isReserved : Bool
  queue : List β
  deleted : Nat := 0
  deriving DecidableEq, Repr

/-- `CacheEntry(name)`: a reserved slot with no data yet. -/
def CacheEntry.reserved (ref : Nat) : CacheEntry δ β :=
  { ref, data := none, size := 0, refCount := 1, freeListRef := none, isReserved := true, queue := [] }

/-- `CacheEntry(name, data, size)`. -/
def CacheEntry.filled (ref : Nat) (data : Option δ) (size : Nat) : CacheEntry δ β :=
  { ref, data, size, refCount := 1, freeListRef := none, isReserved := false, queue := [] }

/-- A pointer to a slot: the name the slot is stored under and its address. -/
structure EntryPtr (κ : Type) where
  name : κ
  ref : Nat
  deriving DecidableEq, Repr

/-- `size_t` addition. -/
def addSize (a b : Nat) : Nat := (a + b) % 2 ^ 64

/-- `size_t` subtraction: it wraps when `b` exceeds `a`. -/
def subSize (a b : Nat) : Nat := (a + (2 ^ 64 - b)) % 2 ^ 64

/-- The fields of `Cache`, the address the next inserted slot will have, and how
often an object was used that had been freed. -/
structure Cache (κ δ β : Type) where
  sizeQuota : Nat
  currentSize : Nat := 0
  cacheMap : FiniteMap κ (CacheEntry δ β) := ∅
  freeList : FastFifo (EntryPtr κ) := .empty
  nextRef : Nat := 0
  strays : Nat := 0

/-- The cache next to the state of the client whose callbacks it runs. -/
structure Host (κ δ β ω : Type) where
  cache : Cache κ δ β
  client : ω

/-- The host as a callback is called; one that has been deleted is a stray use. -/
def Host.calling (host : Host κ δ β ω) (deleted : Nat) : Host κ δ β ω :=
  { host with cache := { host.cache with strays := host.cache.strays + min deleted 1 } }

namespace Cache

variable {κ δ β ω : Type} [DecidableEq κ]

def find (cache : Cache κ δ β) (key : κ) : Option (CacheEntry δ β) := cache.cacheMap.lookup key

/-- Overwrites the slot stored under `key`. -/
def store (cache : Cache κ δ β) (key : κ) (entry : CacheEntry δ β) : Cache κ δ β :=
  { cache with cacheMap := cache.cacheMap.insert key entry }

/-- `cacheMap_.insert` of a new slot under a key that is not in the map. -/
def insertNew (cache : Cache κ δ β) (key : κ) (entry : Nat → CacheEntry δ β) : Cache κ δ β :=
  { cache with
    cacheMap := cache.cacheMap.insert key (entry cache.nextRef)
    nextRef := cache.nextRef + 1 }

/-- The slot behind a pointer, as long as it has not been erased. -/
def deref (cache : Cache κ δ β) (ptr : EntryPtr κ) : Except Fault (CacheEntry δ β) :=
  match cache.find ptr.name with
  | some entry => if entry.ref = ptr.ref then .ok entry else .error .dangling
  | none => .error .dangling

/-- An assignment through a slot reference. -/
def modify (cache : Cache κ δ β) (ptr : EntryPtr κ) (change : CacheEntry δ β → CacheEntry δ β) :
    Except Fault (Cache κ δ β) := do
  let entry ← cache.deref ptr
  return cache.store ptr.name (change entry)

/-- What a round of `cleanup` makes of the cache: the slot is erased, and then
`deallocate` reads and frees through it. -/
def evict (cache : Cache κ δ β) (ptr : EntryPtr κ) (freeList : FastFifo (EntryPtr κ)) :
    Cache κ δ β :=
  { cache with freeList, cacheMap := cache.cacheMap.erase ptr.name, strays := cache.strays + 1 }

/-- The loop of `cleanup`, at most `rounds` times around: the caller passes the
length of the free list, and every round pops one node. -/
def cleanupLoop (space : Nat) : Nat → Nat → Cache κ δ β → Except Fault (Nat × Cache κ δ β)
  | 0, spaceFreed, cache => .ok (spaceFreed, cache)
  | rounds + 1, spaceFreed, cache =>
    if spaceFreed < space then
      match cache.freeList.pop with
      | none => .ok (spaceFreed, cache)
      | some (ptr, freeList) => do
        let entry ← cache.deref ptr
        if entry.refCount ≠ 0 then .error (.assertion .cleanupUnreferenced)
        else cleanupLoop space rounds (addSize spaceFreed entry.size) (cache.evict ptr freeList)
    else .ok (spaceFreed, cache)

/-- `Cache::cleanup`. -/
def cleanup (cache : Cache κ δ β) (space : Nat) : Except Fault (Cache κ δ β) := do
  let (spaceFreed, cache) ← cleanupLoop space cache.freeList.nodes.length 0 cache
  return { cache with currentSize := subSize cache.currentSize spaceFreed }

/-- The reference-dropping part of `doneWith`. -/
def release (cache : Cache κ δ β) (key : κ) : Except Fault (Cache κ δ β) :=
  match cache.find key with
  | none => .error (.assertion .doneWithPresent)
  | some entry =>
    if entry.refCount = 0 then .error (.assertion .doneWithReferenced)
    else if entry.refCount = 1 then
      let (node, freeList) := cache.freeList.push ⟨key, entry.ref⟩
      .ok ({ cache with freeList }.store key { entry with refCount := 0, freeListRef := some node })
    else .ok (cache.store key { entry with refCount := entry.refCount - 1 })

/-- `Cache::doneWith`. -/
def doneWith (cache : Cache κ δ β) (key : κ) : Except Fault (Cache κ δ β) := do
  let cache ← cache.release key
  if cache.currentSize > cache.sizeQuota then cache.cleanup (cache.currentSize - cache.sizeQuota)
  else return cache

/-- `Cache::reserve`. A slot that is already there is only marked. -/
def reserve (cache : Cache κ δ β) (key : κ) : Bool × Cache κ δ β :=
  match cache.find key with
  | none => (true, cache.insertNew key .reserved)
  | some entry =>
    if entry.isReserved then (false, cache)
    else (true, cache.store key { entry with isReserved := true })

/-- What a callback does to the cache and its client. -/
abbrev Invoke (κ δ β ω : Type) :=
  β → CacheData δ → Host κ δ β ω → Except Fault (Host κ δ β ω)

/-- An assignment through a slot reference, next to the client's state. -/
def modifyHost (ptr : EntryPtr κ) (change : CacheEntry δ β → CacheEntry δ β) (host : Host κ δ β ω) :
    Except Fault (Host κ δ β ω) := do
  let cache ← host.cache.modify ptr change
  return { host with cache }

/-- The loop of `put` over the waiters of a reserved slot, of which the first
`deleted` have been deleted. -/
def putLoop (invoke : Invoke κ δ β ω) (ptr : EntryPtr κ) (data : CacheData δ) :
    Nat → List β → Host κ δ β ω → Except Fault (Host κ δ β ω)
  | _, [], host => .ok host
  | deleted, callback :: rest, host => do
    let host ← modifyHost ptr (fun entry => { entry with refCount := entry.refCount + 1 }) host
    let host ← invoke callback data (host.calling deleted)
    putLoop invoke ptr data (deleted - 1) rest host

/-- `Cache::put`. The waiters are those queued when the loop starts; they are
deleted, and `queue` is never emptied. -/
def put (invoke : Invoke κ δ β ω) (key : κ) (buf : Option δ) (size : Nat) (host : Host κ δ β ω) :
    Except Fault (Bool × Host κ δ β ω) :=
  match host.cache.find key with
  | none =>
    let cache := host.cache.insertNew key (.filled · buf size)
    .ok (true, { host with cache := { cache with currentSize := addSize cache.currentSize size } })
  | some entry =>
    if entry.isReserved then do
      let ptr := ⟨key, entry.ref⟩
      let host ← modifyHost ptr (fun entry => { entry with data := buf, size := size }) host
      let host ← putLoop invoke ptr ⟨buf, size, true⟩ entry.deleted entry.queue host
      -- the `delete callback` of all rounds, and then the reservation
      let host ← modifyHost ptr
        (fun slot => { slot with deleted := entry.queue.length, isReserved := false }) host
      return (true, host)
    else .ok (false, host)

/-- Takes a re-acquired slot off the free list. -/
def unlist (cache : Cache κ δ β) (ptr : EntryPtr κ) : Except Fault (Cache κ δ β) := do
  let entry ← cache.deref ptr
  match entry.freeListRef with
  | none => return cache
  | some node =>
    match cache.freeList.removeNode node with
    | none => .error .dangling
    | some freeList =>
      return { cache with freeList }.store ptr.name { entry with freeListRef := none }

/-- `Cache::get`. The callback is `none` for `NULL`. -/
def get (invoke : Invoke κ δ β ω) (key : κ) (callback : Option β) (host : Host κ δ β ω) :
    Except Fault (Bool × Host κ δ β ω) :=
  match host.cache.find key, callback with
  | none, _ => .ok (false, host)
  | some _, none => .error .nullAccess
  | some entry, some callback =>
    if entry.isReserved then
      let cache := host.cache.store key { entry with queue := entry.queue ++ [callback] }
      .ok (true, { host with cache })
    else do
      let ptr := ⟨key, entry.ref⟩
      let host ← invoke callback ⟨entry.data, entry.size, true⟩ host
      let host ← modifyHost ptr (fun entry => { entry with refCount := entry.refCount + 1 }) host
      let cache ← host.cache.unlist ptr
      return (true, { host with cache })

/-- The loop of `cancelReservation` over the waiters, of which the first `deleted`
have been deleted. -/
def cancelLoop (invoke : Invoke κ δ β ω) :
    Nat → List β → Host κ δ β ω → Except Fault (Host κ δ β ω)
  | _, [], host => .ok host
  | deleted, callback :: rest, host => do
    let host ← invoke callback ⟨none, 0, false⟩ (host.calling deleted)
    cancelLoop invoke (deleted - 1) rest host

/-- `Cache::cancelReservation`. -/
def cancelReservation (invoke : Invoke κ δ β ω) (key : κ) (host : Host κ δ β ω) :
    Except Fault (Bool × Host κ δ β ω) :=
  match host.cache.find key with
  | none => .ok (false, host)
  | some entry =>
    if entry.isReserved then do
      let cache := host.cache.store key { entry with isReserved := false }
      let host ← cancelLoop invoke entry.deleted entry.queue { host with cache }
      -- the `delete callback` of all rounds
      let host ← modifyHost ⟨key, entry.ref⟩
        (fun slot => { slot with deleted := entry.queue.length }) host
      return (true, host)
    else .ok (false, host)

end Cache
end EventDisp
