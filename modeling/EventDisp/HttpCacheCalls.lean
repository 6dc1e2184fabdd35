import EventDisp.HttpService

/-! The calls the server makes of its cache, each brought to what it does to the slot
of its key and to the serving of callbacks. -/
namespace EventDisp.Server

open Outcome
open Cache (Overwrites)

variable {http : Http} {pk : PackagePtr} {key : Key} {waiting : Key → List Callback}
variable {cache stock : Cache Key Text Callback} {entry : CacheEntry Text Callback} {cn : Conn}
  {done : Nat}
variable {around : Surroundings} {cd : CacheData Text} {callback : Callback} {use : KeyUse}
  {hpkg : HPKG}
variable {good : KeyUse → Text → Prop} {loading : Option Key}

/-- One round of the loop of `put`. -/
private theorem putLoop_round (ptr : EntryPtr Key) (cd : CacheData Text) (rest : List Callback)
    (found : cache.find ptr.name = some entry) (same : entry.ref = ptr.ref)
    (hand : Hand good loading waiting stock http callback.pk cn done hpkg)
    (fits : Fits cn hpkg (.wait key callback)) (around : Surroundings) :
    Cache.putLoop (invoke around) ptr cd 0 (callback :: rest) ⟨cache, http⟩ =
      (serve around cd callback http).bind fun between => Cache.putLoop (invoke around) ptr cd 0 rest
        ⟨cache.store ptr.name { entry with refCount := entry.refCount + 1 }, between⟩ := by
  have counting := Cache.modifyHost_held ptr ⟨cache, http⟩ found same
    fun entry => { entry with refCount := entry.refCount + 1 }
  simp only [Cache.putLoop, counting, bind, Except.bind, Cache.calling_live,
    invoke_serve hand.runs.1 fits.waits.2 hand.there]
  cases serve around cd callback http <;> rfl

/-- The loop of `put` serves the package at hand first. -/
private theorem putLoop_turn (ptr : EntryPtr Key) (cd : CacheData Text) {rest : List Callback}
    (found : cache.find ptr.name = some entry) (same : entry.ref = ptr.ref)
    (hand : Hand good (some key) waiting stock http callback.pk cn done hpkg)
    (told : Told http.log callback.pk hpkg) (fits : Fits cn hpkg (.wait key callback))
    (tells : callback.Told http.log key)
    (given : cd.data.map (·.take cd.size) = (slot key http.log).stored)
    (cached : cd.data.isSome = true → cd.isCached = true) (around : Surroundings)
    (goes : ∀ {cache entry between}, cache.find ptr.name = some entry → entry.ref = ptr.ref →
      Lives good none (some key) waiting stock between →
      cd.data.map (·.take cd.size) = (slot key between.log).stored →
      ∃ next, Overwrites cache next ptr.name
      { entry with refCount := entry.refCount + rest.length } ∧ next.strays = cache.strays ∧
        Cache.putLoop (invoke around) ptr cd 0 rest ⟨cache, between⟩ =
          (serveAll around cd rest between).map (Host.mk next)) :
    ∃ next, Overwrites cache next ptr.name
    { entry with refCount := entry.refCount + (callback :: rest).length } ∧
      next.strays = cache.strays ∧
      Cache.putLoop (invoke around) ptr cd 0 (callback :: rest) ⟨cache, http⟩ =
        (serveAll around cd (callback :: rest) http).map (Host.mk next) := by
  rw [putLoop_round ptr cd rest found same hand fits around]
  simp only [serveAll, bind]
  cases ran : serve around cd callback http with
  | error fault =>
    exact ⟨cache.store ptr.name { entry with refCount := entry.refCount + (rest.length + 1) },
      .store cache ptr.name _, rfl, rfl⟩
  | ok between =>
    let counted : CacheEntry Text Callback := { entry with refCount := entry.refCount + 1 }
    have stored : (cache.store ptr.name counted).find ptr.name = some counted :=
      Cache.find_store_same
    obtain ⟨passed, _⟩ := (hand.serve cd told fits tells given cached around).returned ran
    have given' : cd.data.map (·.take cd.size) = (slot key between.log).stored := by
      rw [passed.slots]
      exact given
    obtain ⟨next, rewrites, strays, served⟩ := goes stored same passed.lives given'
    refine ⟨next, ?_, strays, served⟩
    have both := (Overwrites.store cache ptr.name counted).trans rewrites
    simpa [counted, Nat.add_assoc, Nat.add_comm 1] using both

/-- The loop of `put` serves the waiters, and counts a reference for each. -/
private theorem putLoop_serves (ptr : EntryPtr Key) (cd : CacheData Text) (queue : List Callback)
    (found : cache.find ptr.name = some entry) (same : entry.ref = ptr.ref)
    (lives : Lives good none (some key) waiting stock http) (queued : waiting key = queue)
    (given : cd.data.map (·.take cd.size) = (slot key http.log).stored)
    (cached : cd.data.isSome = true → cd.isCached = true) (around : Surroundings) :
    ∃ next, Overwrites cache next ptr.name
    { entry with refCount := entry.refCount + queue.length } ∧ next.strays = cache.strays ∧
      Cache.putLoop (invoke around) ptr cd 0 queue ⟨cache, http⟩ =
        (serveAll around cd queue http).map (Host.mk next) := by
  induction queue generalizing cache entry waiting http with
  | nil => exact ⟨cache, .refl found, rfl, rfl⟩
  | cons callback rest ih =>
    obtain ⟨cn, done, hpkg, hand, told, fits, tells⟩ := lives.dequeue queued
    apply putLoop_turn ptr cd found same hand told fits tells given cached around
    intro cache entry between found same lives given
    exact ih found same lives (Function.update_self ..) given

/-- The slot a `put` leaves behind. -/
def filled (entry : CacheEntry Text Callback) (buf : Text) (size : Nat) :
    CacheEntry Text Callback :=
  { entry with
    data := some buf
    size
    refCount := entry.refCount + entry.queue.length
    isReserved := false
    deleted := entry.queue.length }

/-- A `put` for a reserved key serves all who wait for it, the package at hand first, when
none of them has been deleted. -/
theorem put_serves {rest : List Callback} (found : cache.find key = some entry)
    (reserved : entry.isReserved = true) (live : entry.deleted = 0)
    (shape : entry.queue = callback :: rest)
    (hand : Hand good (some key) waiting stock http callback.pk cn done hpkg)
    (told : Told http.log callback.pk hpkg) (fits : Fits cn hpkg (.wait key callback))
    (tells : callback.Told http.log key) (queued : waiting key = rest) (buf : Text) (size : Nat)
    (given : some (buf.take size) = (slot key http.log).stored) (around : Surroundings) :
    ∃ next, Overwrites cache next key (filled entry buf size) ∧ next.strays = cache.strays ∧
      Cache.put (invoke around) key (some buf) size ⟨cache, http⟩ =
        (serveAll around ⟨some buf, size, true⟩ entry.queue http).map fun http =>
          (true, ⟨next, http⟩) := by
  let taken : CacheEntry Text Callback := { entry with data := some buf, size }
  have writing := Cache.modifyHost_held ⟨key, entry.ref⟩ ⟨cache, http⟩ found rfl
    fun entry => { entry with data := some buf, size }
  have stored : (cache.store key taken).find key = some taken := Cache.find_store_same
  obtain ⟨served, rewrites, strays, loop⟩ :=
    putLoop_turn ⟨key, entry.ref⟩ ⟨some buf, size, true⟩ stored rfl hand told fits tells
    given (fun _ => rfl) around fun found same lives given =>
      putLoop_serves _ _ rest found same lives queued given
      (fun _ => rfl) around
  rw [← shape] at rewrites loop
  have filling (http : Http) :=
    Cache.modifyHost_held ⟨key, entry.ref⟩ ⟨served, http⟩ rewrites.found rfl
    fun slot => { slot with deleted := entry.queue.length, isReserved := false }
  refine ⟨served.store key (filled entry buf size), ?_, strays, ?_⟩
  · exact ((Overwrites.store cache key taken).trans rewrites).trans (.store served key _)
  · simp only [Cache.put, found, if_pos reserved, writing, bind, Except.bind]
    rw [show cache.store key { entry with data := some buf, size } = cache.store key taken from rfl,
      live, loop]
    cases serveAll around ⟨some buf, size, true⟩ entry.queue http with
    | error fault => rfl
    | ok http =>
      simp only [Except.map, filling]
      rfl

private theorem cancelLoop_serves (around : Surroundings) (cache : Cache Key Text Callback)
    (queue : List Callback) (http : Http) :
    Cache.cancelLoop (cancelled around) 0 queue ⟨cache, http⟩ =
      (serveAll around ⟨none, 0, false⟩ queue http).map (Host.mk cache) := by
  induction queue generalizing http with
  | nil => rfl
  | cons callback rest ih =>
    simp only [Cache.cancelLoop, serveAll, Cache.calling_live, cancelled_serve, bind, Except.bind]
    cases serve around ⟨none, 0, false⟩ callback http with
    | error fault => rfl
    | ok between => exact ih between

/-- The slot a `cancelReservation` leaves behind. -/
def opened (entry : CacheEntry Text Callback) : CacheEntry Text Callback :=
  { entry with isReserved := false, deleted := entry.queue.length }

/-- `cancelReservation` hands `NULL` to all who wait, when none of them has been deleted. -/
theorem cancel_serves (found : cache.find key = some entry) (reserved : entry.isReserved = true)
    (live : entry.deleted = 0) (http : Http) (around : Surroundings) :
    Cache.cancelReservation (cancelled around) key ⟨cache, http⟩ =
      (serveAll around ⟨none, 0, false⟩ entry.queue http).map
        fun http => (true, ⟨cache.store key (opened entry), http⟩) := by
  let free : CacheEntry Text Callback := { entry with isReserved := false }
  have stored : (cache.store key free).find key = some free := Cache.find_store_same
  have deletes (http : Http) := Cache.modifyHost_held ⟨key, entry.ref⟩
    ⟨cache.store key free, http⟩ stored rfl fun slot => { slot with deleted := entry.queue.length }
  simp only [Cache.cancelReservation, found, if_pos reserved, bind, Except.bind]
  rw [show cache.store key { entry with isReserved := false } = cache.store key free from rfl,
    live, cancelLoop_serves]
  cases serveAll around ⟨none, 0, false⟩ entry.queue http with
  | error fault => rfl
  | ok told =>
    simp only [Except.map, deletes, Cache.store_store]
    rfl

theorem ask_missed (absent : cache.find key = none) (http : Http) (around : Surroundings)
    (pk : PackagePtr) (use : KeyUse) (callback : Callback) :
    ask around pk key use callback ⟨cache, http⟩ = .ok (false,
    ⟨cache, http.emit (.asked pk key use .missed)⟩) := by
  simp only [ask, lookup, absent, emit, Cache.get]

/-- The slot a `get` leaves behind when it queues. -/
def queuedIn (entry : CacheEntry Text Callback) (callback : Callback) : CacheEntry Text Callback :=
  { entry with queue := entry.queue ++ [callback] }

theorem ask_queued (found : cache.find key = some entry) (reserved : entry.isReserved = true)
    (http : Http) (around : Surroundings) (pk : PackagePtr) (use : KeyUse) (callback : Callback) :
    ask around pk key use callback ⟨cache, http⟩ =
      .ok (true, ⟨cache.store key (queuedIn entry callback),
      http.emit (.asked pk key use .queued)⟩) := by
  simp only [ask, lookup, found, reserved, emit, Cache.get, if_true, queuedIn]

/-- The slot a `get` leaves behind when it delivers. -/
def acquired (entry : CacheEntry Text Callback) : CacheEntry Text Callback :=
  { entry with refCount := entry.refCount + 1 }

/-- A `get` that finds its key serves its own callback. -/
theorem ask_hit (found : cache.find key = some entry) (free : entry.isReserved = false)
    (unlisted : entry.freeListRef = none) (http : Http) (around : Surroundings) (pk : PackagePtr)
    (use : KeyUse) (there : http.packages callback.pk = some hpkg)
    (conn : http.conns callback.pk.conn = some cn) (connected : cn.cst = .connected) :
    ask around pk key use callback ⟨cache, http⟩ =
      (serve around ⟨entry.data, entry.size, true⟩ callback
        (http.emit (.asked pk key use .hit))).map
        fun http => (true, ⟨cache.store key (acquired entry), http⟩) := by
  have counting (http : Http) := Cache.modifyHost_held ⟨key, entry.ref⟩ ⟨cache, http⟩ found rfl
    fun entry => { entry with refCount := entry.refCount + 1 }
  have stored : (cache.store key (acquired entry)).deref ⟨key, entry.ref⟩ = .ok (acquired entry) :=
    Cache.deref_eq_ok.mpr ⟨Cache.find_store_same, rfl⟩
  have serves (cd : CacheData Text) (cache : Cache Key Text Callback) :
      invoke around callback cd ⟨cache, http.emit (.asked pk key use .hit)⟩ =
        (serve around cd callback (http.emit (.asked pk key use .hit))).map (Host.mk cache) := by
    have still : (http.emit (.asked pk key use .hit)).conns callback.pk.conn = some cn := conn
    exact invoke_serve still connected there around cd cache
  simp only [ask, lookup, found, free, emit, Cache.get, Bool.false_eq_true, if_false, serves, bind,
    Except.bind]
  cases serve around ⟨entry.data, entry.size, true⟩ callback
    (http.emit (.asked pk key use .hit)) with
  | error fault => rfl
  | ok between =>
    simp only [Except.map, counting]
    rw [show cache.store key { entry with refCount := entry.refCount + 1 } = cache.store key
      (acquired entry) from rfl]
    simp only [Cache.unlist, stored, bind, Except.bind]
    rw [show (acquired entry).freeListRef = none from unlisted]
    rfl

/-- The slot of a key that was reserved and asked for. -/
def awaited (ref : Nat) (callback : Callback) : CacheEntry Text Callback :=
  queuedIn (.reserved ref) callback

/-- A key that is not there is reserved, and then asked for again. -/
theorem reserveAndAsk_absent (absent : cache.find key = none) (http : Http) (around : Surroundings)
    (pk : PackagePtr) (use : KeyUse) (callback : Callback) (notReserved notQueued : Assertion) :
    reserveAndAsk around pk key use callback notReserved notQueued ⟨cache, http⟩ =
      .ok ⟨(cache.insertNew key .reserved).store key (awaited cache.nextRef callback),
        (http.emit (.reserved pk key)).emit (.asked pk key use .queued)⟩ := by
  have found : (cache.insertNew key .reserved).find key =
    some (CacheEntry.reserved cache.nextRef) := by simp
  simp only [reserveAndAsk, Cache.reserve, absent, Bool.true_eq_false, if_false, emit]
  rw [ask_queued found rfl]
  simp only [bind, Except.bind, Bool.true_eq_false, if_false]
  rfl

/-- `doneWith` on a slot with another reference only drops one. -/
theorem doneWith_releases (found : cache.find key = some entry) (several : 2 ≤ entry.refCount)
    (room : cache.currentSize ≤ cache.sizeQuota) (pk : PackagePtr) (http : Http) :
    doneWith pk key ⟨cache, http⟩ =
      .ok ⟨cache.store key { entry with refCount := entry.refCount - 1 },
      http.emit (.released pk key)⟩ := by
  have held : entry.refCount ≠ 0 := by omega
  have more : entry.refCount ≠ 1 := by omega
  have fits : ¬ cache.currentSize > cache.sizeQuota := Nat.not_lt.mpr room
  simp only [doneWith, Cache.doneWith, Cache.release, found, held, more, if_false, bind,
    Except.bind,
    Cache.store_currentSize,
    show (cache.store key { entry with refCount := entry.refCount - 1 }).sizeQuota =
      cache.sizeQuota from rfl, fits, pure, Except.pure, emit]

end EventDisp.Server
