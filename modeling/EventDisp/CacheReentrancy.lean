import EventDisp.CacheChanges
import EventDisp.CacheEffects

/-! Callbacks that call `doneWith` before they return. `put` counts the reference before
it invokes a callback; `get` invokes the callback first and counts the reference
afterwards, so that the callback gives back a reference that is not its own. -/
namespace EventDisp.CacheReentrancy

open Cache CacheRuns Execution Outcome

variable {κ δ : Type} [DecidableEq κ] {quota : Nat} {releases : Nat → Bool}
variable {cache next : Cache κ δ Nat} {state after : State κ δ} {op : Op κ δ} {key : κ}
  {entry : CacheEntry δ Nat}

/-- What a callback for a key does: it records its invocation, and if it is one that
releases and the key is cached, it calls `doneWith` for it. -/
def releasing (releases : Nat → Bool) (key : κ) : Invoke κ δ Nat (List (Delivery δ)) :=
  fun callback data host => do
  let host := { host with client := host.client ++ [(callback, data)] }
  if data.isCached && releases callback then
    let cache ← host.cache.doneWith key
    return { host with cache }
  else return host

/-- The call itself; `number` is the callback a `get` hands over. -/
def apply (releases : Nat → Bool) (number : Nat) (cache : Cache κ δ Nat) :
    Op κ δ → Except Fault (Bool × Host κ δ Nat (List (Delivery δ)))
  | .put key buf size => put (releasing releases key) key buf size ⟨cache, []⟩
  | .get key => get (releasing releases key) key (some number) ⟨cache, []⟩
  | .reserve key => .ok ((cache.reserve key).1, ⟨(cache.reserve key).2, []⟩)
  | .cancelReservation key => cancelReservation (releasing releases key) key ⟨cache, []⟩
  | .doneWith key => (cache.doneWith key).map fun cache => (true, ⟨cache, []⟩)

def exec (releases : Nat → Bool) (state : State κ δ) (op : Op κ δ) : Except Fault (State κ δ) := do
  let (ret, host) ← apply releases state.calls.length state.cache op
  return ⟨host.cache, state.calls ++ [record state.cache host.cache op ret host.client]⟩

/-- A client some of whose callbacks release what they are handed. -/
def reentrant (κ δ : Type) [DecidableEq κ] (quota : Nat) (releases : Nat → Bool) :
    Program (State κ δ) (Op κ δ) Fault where
  start := ⟨{ sizeQuota := quota }, []⟩
  allowed state op := op.Sized ∧ Contract state.cache op
  exec := exec releases

instance (state : State κ δ) : DecidablePred ((reentrant κ δ quota releases).allowed state) :=
  fun op => inferInstanceAs (Decidable (op.Sized ∧ Contract state.cache op))

/-- The call returns and uses nothing that was freed, and its slot is still there, with as
many references as before. -/
def Safe (releases : Nat → Bool) (state : State κ δ) (op : Op κ δ) : Prop :=
  ∃ after, exec releases state op = .ok after ∧ after.cache.strays = state.cache.strays ∧
    ∀ entry, state.cache.find op.key = some entry →
      ∃ kept, after.cache.find op.key = some kept ∧ kept.ref = entry.ref ∧
      kept.refCount = entry.refCount

variable {number : Nat} {ret : Bool} {host : Host κ δ Nat (List (Delivery δ))} {data : CacheData δ}
variable {callback : Nat}

/-- A callback that gives its reference back does no more to the cache than `doneWith`. -/
theorem releasing_careful (releases : Nat → Bool) (key : κ) :
    Careful (releasing releases key : Invoke κ δ Nat (List (Delivery δ))) := by
  intro callback data host
  simp only [releasing]
  split
  · exact (doneWith_alters host.cache key).bind fun _ _ changes => changes
  · exact Relation.ReflTransGen.refl

theorem releasing_releases (host : Host κ δ Nat (List (Delivery δ))) (cached : data.isCached = true)
    (gives : releases callback = true) (ran : host.cache.doneWith key = .ok next) :
    releasing releases key callback data host = .ok ⟨next, host.client ++ [(callback, data)]⟩ := by
  simp [releasing, cached, gives, ran, bind, Except.bind, pure, Except.pure]

/-- A callback strays where its `doneWith` does. -/
private theorem releasing_strays (host : Host κ δ Nat (List (Delivery δ)))
    (cached : data.isCached = true) (gives : releases callback = true)
    (held : host.cache.find key = some entry)
    (unborne : ¬ (0 < entry.refCount ∧ Bears host.cache entry.refCount)) :
    Ends (fun _ => True) (releasing releases key callback data host) fun after =>
      host.cache.strays < after.cache.strays := by
  simp only [releasing, cached, gives, Bool.and_self, if_true]
  exact (doneWith_unborne held unborne).bind fun _ _ strayed => strayed

/-- Every waiter obtains a reference and gives it back at once. -/
private theorem putLoop_bears (cached : data.isCached = true) (queue : List Nat) (ptr : EntryPtr κ)
    (host : Host κ δ Nat (List (Delivery δ))) (all : ∀ callback ∈ queue, releases callback = true)
    (held : host.cache.find ptr.name = some entry) (same : entry.ref = ptr.ref)
    (bears : Bears host.cache (entry.refCount + 1)) :
    ∃ after kept, putLoop (releasing releases ptr.name) ptr data 0 queue host = .ok after ∧
      after.cache.find ptr.name = some kept ∧ SameSlot entry kept ∧
      kept.refCount = entry.refCount ∧ after.cache.strays = host.cache.strays := by
  induction queue generalizing host entry with
  | nil => exact ⟨host, entry, rfl, held, ⟨rfl, rfl, rfl, rfl, rfl⟩, rfl, rfl⟩
  | cons callback rest ih =>
    let counted := host.cache.store ptr.name { entry with refCount := entry.refCount + 1 }
    obtain ⟨next, kept, ran, there, stays, less, strays, still⟩ :=
      doneWith_bears (show counted.find ptr.name = _ from find_store_same) (Nat.succ_pos _) bears
    have references : kept.refCount = entry.refCount := Nat.succ.inj less
    obtain ⟨after, last, ends, found, again, total, unchanged⟩ :=
      ih ⟨next, host.client ++ [(callback, data)]⟩
        (fun other member => all other (List.mem_cons_of_mem _ member)) there
        (stays.ref.trans same) (by rw [references]; exact still)
    have gives := releasing_releases ⟨counted, host.client⟩ cached (all callback (by simp)) ran
    refine ⟨after, last, ?_, found, ?_, total.trans references, unchanged.trans strays⟩
    · simp only [putLoop, modifyHost_held ptr host held same, bind, Except.bind, calling_live]
      rw [show (⟨host.cache.store ptr.name { entry with refCount := entry.refCount + 1 },
        host.client⟩ : Host κ δ Nat (List (Delivery δ))) = ⟨counted, host.client⟩ from rfl, gives]
      exact ends
    · exact ⟨again.ref.trans stays.ref, again.data.trans stays.data, again.size.trans stays.size,
        again.isReserved.trans stays.isReserved, again.queue.trans stays.queue⟩

/-- A loop whose first waiter has been deleted, or cannot give its reference back, strays. -/
private theorem putLoop_strays (cached : data.isCached = true) (deleted : Nat) (callback : Nat)
    (rest : List Nat) (ptr : EntryPtr κ) (host : Host κ δ Nat (List (Delivery δ)))
    (gives : releases callback = true) (held : host.cache.find ptr.name = some entry)
    (same : entry.ref = ptr.ref)
    (unborne : deleted = 0 → ¬ Bears host.cache (entry.refCount + 1)) :
    Ends (fun _ => True) (putLoop (releasing releases ptr.name) ptr data deleted
      (callback :: rest) host) fun after => host.cache.strays < after.cache.strays := by
  have careful : Careful (releasing releases ptr.name : Invoke κ δ Nat (List (Delivery δ))) :=
    releasing_careful releases ptr.name
  let counted := host.cache.store ptr.name { entry with refCount := entry.refCount + 1 }
  simp only [putLoop, modifyHost_held ptr host held same]
  show Ends _ (releasing releases ptr.name callback data
    (Host.calling ⟨counted, host.client⟩ deleted) >>= _) _
  have first : Ends (fun _ => True) (releasing releases ptr.name callback data
      (Host.calling ⟨counted, host.client⟩ deleted)) fun served =>
        host.cache.strays < served.cache.strays := by
    by_cases live : deleted = 0
    · rw [live, calling_live]
      exact releasing_strays ⟨counted, host.client⟩ cached gives find_store_same
        fun borne => unborne live borne.2
    · refine (careful callback data _).mono fun served changes => ?_
      have more : host.cache.strays + min deleted 1 ≤ served.cache.strays := changes.strays_le
      omega
  refine first.bind fun served _ strayed => ?_
  exact (putLoop_alters careful ptr data (deleted - 1) rest served).mono fun _ changes =>
    Nat.lt_of_lt_of_le strayed changes.strays_le

/-- What lets all who wait for a slot give their references back: nobody waits, or nobody
has been deleted and a reference more than the slot has can be given back. -/
def Serves (cache : Cache κ δ Nat) (entry : CacheEntry δ Nat) : Prop :=
  entry.queue = [] ∨ entry.deleted = 0 ∧ Bears cache (entry.refCount + 1)

/-- A `put` into a reserved slot whose waiters all give their references back. -/
private theorem put_releasing (number : Nat) (buf : Option δ) (size : Nat)
    (held : cache.find key = some entry) (reserved : entry.isReserved = true)
    (all : ∀ callback ∈ entry.queue, releases callback = true) :
    (Serves cache entry → ∃ after kept,
      apply releases number cache (.put key buf size) = .ok (true, after) ∧
      after.cache.find key = some kept ∧ kept.ref = entry.ref ∧
      kept.refCount = entry.refCount ∧ after.cache.strays = cache.strays) ∧
    (¬ Serves cache entry →
      Ends (fun _ => True) (apply releases number cache (.put key buf size)) fun result =>
        cache.strays < result.2.cache.strays) := by
  let taken := cache.store key { entry with data := buf, size := size }
  have filled := modifyHost_held ⟨key, entry.ref⟩ ⟨cache, ([] : List (Delivery δ))⟩ held rfl
    fun entry => { entry with data := buf, size := size }
  have found : taken.find key = some { entry with data := buf, size := size } := find_store_same
  have cached : (⟨buf, size, true⟩ : CacheData δ).isCached = true := rfl
  simp only [apply, put, held, if_pos reserved, filled]
  constructor
  · intro serves
    obtain ⟨served, kept, ran, there, same, counted, strays⟩ : ∃ served kept,
        putLoop (releasing releases key) ⟨key, entry.ref⟩ ⟨buf, size, true⟩ entry.deleted
          entry.queue ⟨taken, []⟩ = .ok served ∧ served.cache.find key = some kept ∧
        kept.ref = entry.ref ∧ kept.refCount = entry.refCount ∧
        served.cache.strays = cache.strays := by
      rcases serves with nobody | ⟨live, bears⟩
      · rw [nobody]
        exact ⟨_, _, rfl, found, rfl, rfl, rfl⟩
      · rw [live]
        obtain ⟨served, kept, ran, there, same, counted, strays⟩ :=
          putLoop_bears cached entry.queue ⟨key, entry.ref⟩ ⟨taken, []⟩ all found rfl bears
        exact ⟨served, kept, ran, there, same.ref, counted, strays⟩
    have opens := modifyHost_held ⟨key, entry.ref⟩ served there same
      fun slot => { slot with deleted := entry.queue.length, isReserved := false }
    simp only [bind, Except.bind, pure, Except.pure]
    rw [show (⟨cache.store key { entry with data := buf, size := size }, []⟩ :
      Host κ δ Nat (List (Delivery δ))) = ⟨taken, []⟩ from rfl, ran]
    simp only [opens]
    exact ⟨_, _, rfl, find_store_same, same, counted, strays⟩
  · intro unserved
    obtain ⟨callback, rest, shape⟩ := List.exists_cons_of_ne_nil fun empty =>
      unserved (.inl empty)
    have strayed := putLoop_strays cached entry.deleted callback rest ⟨key, entry.ref⟩ ⟨taken, []⟩
      (all callback (by simp [shape])) found rfl fun live bears => unserved (.inr ⟨live, bears⟩)
    rw [← shape] at strayed
    show Ends _ (putLoop (releasing releases key) ⟨key, entry.ref⟩ ⟨buf, size, true⟩
      entry.deleted entry.queue ⟨taken, []⟩ >>= _) _
    refine strayed.bind fun served _ more => ?_
    refine (modifyHost_alters _ (by intro _; rfl) (by intro _; rfl) served).bind
      fun resolved _ changes => ?_
    exact Nat.lt_of_lt_of_le more changes.strays_le

/-- A `get` whose callback gives a reference back goes on from where that leaves the cache. -/
private theorem get_resumes (held : cache.find key = some entry)
    (ready : entry.isReserved = false) (gives : releases number = true)
    (ran : cache.doneWith key = .ok next) {kept : CacheEntry δ Nat}
    (there : next.find key = some kept) (same : SameSlot entry kept) :
    apply releases number cache (.get key) = CacheRuns.apply number next (.get key) := by
  have invoked := releasing_releases ⟨cache, []⟩
    (show (⟨entry.data, entry.size, true⟩ : CacheData δ).isCached = true from rfl) gives ran
  have unreserved : kept.isReserved = false := same.isReserved.trans ready
  simp only [apply, CacheRuns.apply, Cache.get, held, ready, there, unreserved,
    Bool.false_eq_true, if_false, invoked, deliver, List.nil_append, same.ref, same.data,
    same.size, bind, Except.bind]

/-- A `get` whose callback gives a reference back. -/
private theorem get_releasing (placed : Placed cache) (held : cache.find key = some entry)
    (ready : entry.isReserved = false) (gives : releases number = true) :
    (0 < entry.refCount ∧ Bears cache entry.refCount → ∃ after kept,
      apply releases number cache (.get key) = .ok (true, after) ∧
      after.cache.find key = some kept ∧ kept.ref = entry.ref ∧
      kept.refCount = entry.refCount ∧ after.cache.strays = cache.strays) ∧
    (¬ (0 < entry.refCount ∧ Bears cache entry.refCount) →
      Ends (fun _ => True) (apply releases number cache (.get key)) fun result =>
        cache.strays < result.2.cache.strays) := by
  constructor
  · rintro ⟨referenced, bears⟩
    obtain ⟨next, kept, ran, there, same, counted, strays, _⟩ :=
      doneWith_bears held referenced bears
    have still : Placed next := ((doneWith_alters cache key).returned ran).placed placed
    obtain ⟨⟨ret, final, delivered⟩, returned⟩ := CacheRuns.get_returns number
      fun slot node found names => List.mem_map_of_mem (still key slot node found names)
    rw [get_resumes held ready gives ran there same]
    cases get_effect returned with
    | getMissed absent => cases there.symm.trans absent
    | getQueued found reserved =>
      cases there.symm.trans found
      cases (same.isReserved.trans ready).symm.trans reserved
    | getDelivered found _ _ _ find unstrayed =>
      cases there.symm.trans found
      exact ⟨⟨final, _⟩, CacheRuns.acquired kept, returned, (find key).trans (if_pos rfl),
        same.ref, counted, unstrayed.trans strays⟩
  · intro unborne
    simp only [apply, Cache.get, held, ready, Bool.false_eq_true, if_false]
    refine (releasing_strays ⟨cache, []⟩ rfl gives held unborne).bind fun served _ strayed => ?_
    refine (modifyHost_alters _ (by intro _; rfl) (by intro _; rfl) served).bind
      fun counted _ one => ?_
    refine (unlist_alters counted.cache _).bind fun left _ two => ?_
    exact Nat.lt_of_lt_of_le strayed (Changes.strays_le (one.trans two))

/-- An executed call, and what it left. -/
private theorem exec_applies : exec releases state op = .ok after ↔
    ∃ ret host, apply releases state.calls.length state.cache op = .ok (ret, host) ∧
      after = ⟨host.cache, state.calls ++ [record state.cache host.cache op ret host.client]⟩ := by
  unfold exec
  cases applied : apply releases state.calls.length state.cache op with
  | error fault => simp [bind, Except.bind]
  | ok result =>
    obtain ⟨ret, host⟩ := result
    simp only [bind, Except.bind, pure, Except.pure, Except.ok.injEq, Prod.mk.injEq]
    constructor
    · rintro rfl
      exact ⟨ret, host, ⟨rfl, rfl⟩, rfl⟩
    · rintro ⟨_, _, ⟨rfl, rfl⟩, rfl⟩
      rfl

/-- Whatever the callbacks do, slots and nodes stay linked. -/
private theorem exec_placed (placed : Placed state.cache)
    (ran : exec releases state op = .ok after) : Placed after.cache := by
  obtain ⟨ret, host, applied, rfl⟩ := exec_applies.mp ran
  have changes : Changes state.cache host.cache := by
    cases op with
    | put key buf size =>
      exact (put_alters (releasing_careful releases key) key buf size _).returned applied
    | get key => exact (get_alters (releasing_careful releases key) key _ _).returned applied
    | reserve key =>
      cases applied
      exact reserve_alters state.cache key
    | cancelReservation key =>
      exact (cancelReservation_alters (releasing_careful releases key) key _).returned applied
    | doneWith key =>
      have kept : Ends (fun _ => True) (apply releases state.calls.length state.cache
          (.doneWith key)) fun result => Changes state.cache result.2.cache :=
        (doneWith_alters state.cache key).map fun _ changes => changes
      exact kept.returned applied
  exact changes.placed placed

/-- A call that ends with its slot as it should is safe, and one that strays is not. -/
private theorem safe_iff {condition : Prop}
    (held : state.cache.find op.key = some entry)
    (goes : condition → ∃ after kept,
      apply releases state.calls.length state.cache op = .ok (true, after) ∧
      after.cache.find op.key = some kept ∧ kept.ref = entry.ref ∧
      kept.refCount = entry.refCount ∧ after.cache.strays = state.cache.strays)
    (strays : ¬ condition →
      Ends (fun _ => True) (apply releases state.calls.length state.cache op) fun result =>
        state.cache.strays < result.2.cache.strays) :
    Safe releases state op ↔ condition := by
  constructor
  · rintro ⟨after, ran, unstrayed, _⟩
    by_contra unmet
    obtain ⟨ret, host, applied, rfl⟩ := exec_applies.mp ran
    have more := (strays unmet).returned applied
    exact absurd unstrayed (Nat.ne_of_gt more)
  · intro met
    obtain ⟨after, kept, applied, found, same, counted, unstrayed⟩ := goes met
    refine ⟨_, exec_applies.mpr ⟨_, _, applied, rfl⟩, unstrayed, fun slot there => ?_⟩
    cases held.symm.trans there
    exact ⟨kept, found, same, counted⟩

/-- **Releasing from inside a callback.** In every state that calls lead to, a `get` with a
callback that calls `doneWith` is safe exactly when the slot has a reference and giving one
back evicts nothing; a `put` on a reserved slot whose waiters all do is safe exactly when
nobody waits, or no waiter has been deleted and giving one reference more back evicts
nothing. -/
theorem releasing_safe_iff (reached : Reachable (reentrant κ δ quota releases) state)
    (held : state.cache.find key = some entry) :
    (entry.isReserved = false → releases state.calls.length = true →
        (Safe releases state (.get key) ↔
          0 < entry.refCount ∧ Bears state.cache entry.refCount)) ∧
      (entry.isReserved = true → (∀ callback ∈ entry.queue, releases callback = true) →
        ∀ buf size, Safe releases state (.put key buf size) ↔ Serves state.cache entry) := by
  have placed : Placed state.cache :=
    reached.invariant (fun state => Placed state.cache) (fun _ _ _ found => by cases found)
      fun _ _ _ placed _ ran => exec_placed placed ran
  constructor
  · intro ready gives
    obtain ⟨goes, strays⟩ := get_releasing placed held ready gives
    exact safe_iff held goes strays
  · intro reserved all buf size
    obtain ⟨goes, strays⟩ := put_releasing state.calls.length buf size held reserved all
    exact safe_iff held goes strays

/-- A waiter that releases what it is handed, and a client that does. -/
private def sharing : List (Op (List Char) Bool) :=
  [.reserve ['a'], .get ['a'], .put ['a'] (some true) 1, .get ['a']]

theorem releasing_safe_run : ∃ waited served : State (List Char) Bool,
    (reentrant (List Char) Bool 0 fun _ => true).replay
      (reentrant (List Char) Bool 0 fun _ => true).start (sharing.take 2) = .ok waited ∧
    (reentrant (List Char) Bool 0 fun _ => true).replay
      (reentrant (List Char) Bool 0 fun _ => true).start sharing = .ok served ∧
    Safe (fun _ => true) waited (.put ['a'] (some true) 1) ∧
      Safe (fun _ => true) served (.get ['a']) := by
  obtain ⟨waited, first, ran, found, reserved, live, bears⟩ :
      ∃ (waited : State (List Char) Bool) (first : CacheEntry Bool Nat),
        (reentrant (List Char) Bool 0 fun _ => true).replay
          (reentrant (List Char) Bool 0 fun _ => true).start (sharing.take 2) = .ok waited ∧
        waited.cache.find ['a'] = some first ∧ first.isReserved = true ∧ first.deleted = 0 ∧
          waited.cache.currentSize ≤ waited.cache.sizeQuota :=
    ⟨_, _, rfl, rfl, rfl, rfl, Nat.le_refl 0⟩
  obtain ⟨served, second, goes, held, ready, referenced, spares⟩ :
      ∃ (served : State (List Char) Bool) (second : CacheEntry Bool Nat),
        (reentrant (List Char) Bool 0 fun _ => true).replay
          (reentrant (List Char) Bool 0 fun _ => true).start sharing = .ok served ∧
        served.cache.find ['a'] = some second ∧ second.isReserved = false ∧
          0 < second.refCount ∧ served.cache.currentSize ≤ served.cache.sizeQuota :=
    ⟨_, _, rfl, rfl, rfl, by decide, Nat.le_refl 0⟩
  refine ⟨waited, served, ran, goes, ?_, ?_⟩
  · exact ((releasing_safe_iff (.replayed (by decide) ran) found).2 reserved (fun _ _ => rfl) _
      _).mpr (.inr ⟨live, .inl bears⟩)
  · exact ((releasing_safe_iff (.replayed (by decide) goes) held).1 ready rfl).mpr
      ⟨referenced, .inl spares⟩

/-- A `get` finds a slot that is idle and invokes its callback, which calls `doneWith`
before the reference is counted. -/
theorem get_releases_idle : ∃ attempts,
    Run (reentrant (List Char) Bool 10 fun _ => true) attempts
    (.error (.assertion .doneWithReferenced)) ∧
      attempts.map Prod.snd = [.put ['a'] (some true) 1, .doneWith ['a'], .get ['a']] :=
  ⟨_, replayed (reentrant (List Char) Bool 10 fun _ => true)
    [.put ['a'] (some true) 1, .doneWith ['a'], .get ['a']] (by decide), rfl⟩

end EventDisp.CacheReentrancy
