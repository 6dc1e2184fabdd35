import EventDisp.HttpCacheCalls

/-! What the package at hand does about one key, while all others keep agreeing with
the history. -/
namespace EventDisp.Server

open Outcome
open Cache (Overwrites)

variable {http after : Http} {pk : PackagePtr} {key : Key} {waiting : Key → List Callback}
variable {cache next : Cache Key Text Callback} {entry changed : CacheEntry Text Callback}
variable {use : KeyUse} {hpkg : HPKG} {hand : Option PackagePtr}
variable {good : KeyUse → Text → Prop} {log : List Event} {lookedUp : Lookup}

/-- The slot of one key is the given one now, and all others are as before. -/
structure Sets (cache next : Cache Key Text Callback) (key : Key)
    (entry : CacheEntry Text Callback) : Prop where
  sizeQuota : next.sizeQuota = cache.sizeQuota
  currentSize : next.currentSize = cache.currentSize
  freeList : next.freeList = cache.freeList
  strays : next.strays = cache.strays
  find : ∀ other, next.find other = if other = key then some entry else cache.find other

theorem Sets.overwrites (overwrites : Overwrites cache next key entry)
    (strays : next.strays = cache.strays) : Sets cache next key entry :=
  ⟨overwrites.sizeQuota, overwrites.currentSize, overwrites.freeList, strays, overwrites.find⟩

theorem Sets.store (cache : Cache Key Text Callback) (key : Key)
    (entry : CacheEntry Text Callback) :
    Sets cache (cache.store key entry) key entry :=
  .overwrites (.store cache key entry) rfl

theorem Sets.reserved (cache : Cache Key Text Callback) (key : Key)
    (entry : CacheEntry Text Callback) :
    Sets cache ((cache.insertNew key .reserved).store key entry) key entry := by
  refine ⟨rfl, rfl, rfl, rfl, ?_⟩
  intro other
  rw [Cache.find_store, Cache.find_insertNew]
  split <;> rfl

theorem Sets.trans {between : Cache Key Text Callback} (one : Sets cache between key entry)
    (two : Sets between next key changed) : Sets cache next key changed := by
  refine ⟨two.sizeQuota.trans one.sizeQuota, two.currentSize.trans one.currentSize,
    two.freeList.trans one.freeList, two.strays.trans one.strays, ?_⟩
  intro other
  rw [two.find, one.find]
  split <;> rfl

theorem Sets.found (sets : Sets cache next key entry) : next.find key = some entry := by
  rw [sets.find, if_pos rfl]

theorem queues_congr (same : next.find key = cache.find key) :
    queues next key = queues cache key := by
  rw [queues, queues, same]

theorem queues_found (found : cache.find key = some entry) :
    queues cache key = if entry.isReserved then entry.queue else [] := by
  rw [queues, found]

theorem queues_absent (absent : cache.find key = none) : queues cache key = [] := by
  rw [queues, absent]

theorem Agrees.congr (agrees : Agrees waiting cache http key)
    (same : next.find key = cache.find key) :
    Agrees waiting next http key := by
  have queue := queues_congr same
  refine ⟨?_, agrees.waiting.trans queue.symm, ?_, ?_, ?_, ?_⟩
  · rw [same]
    exact agrees.reserved
  · rw [queue]
    exact agrees.waiters
  · rw [queue]
    exact agrees.loads
  · rw [same]
    exact agrees.stored
  · rw [same]
    exact agrees.absent

/-- A key that nobody loads begins to be loaded. -/
theorem Lives.suspend (lives : Lives good hand none waiting cache http)
    (free : (slot key http.log).loader = none) :
    Lives good hand (some key) waiting cache http := by
  refine { lives with loads := ⟨fun name _ => lives.loads.agrees name nofun, fun reader reads => ?_, lives.loads.distinct⟩ }
  obtain ⟨name, _, loader⟩ := lives.loads.reads reader reads
  refine ⟨name, ?_, loader⟩
  rintro ⟨⟩
  rw [free] at loader
  cases loader

/-- The slot of the key that is being loaded changes. -/
theorem Lives.overwrite (lives : Lives good hand (some key) waiting cache http)
    (sets : Sets cache next key entry) :
    Lives good hand (some key) waiting next http :=
  { lives with loads := ⟨fun name apart => (lives.loads.agrees name apart).congr (by
      rw [sets.find, if_neg fun same => apart (congrArg some same.symm)]), lives.loads.reads,
        lives.loads.distinct⟩ }

/-- A key is not being loaded any more, or is by the reading of a body. -/
theorem Lives.resume (lives : Lives good hand (some key) waiting cache http)
    (agrees : Agrees waiting cache http key) :
    Lives good hand none (queues cache) cache http := by
  have all : ∀ name, Agrees waiting cache http name := by
    intro name
    by_cases same : name = key
    · exact same ▸ agrees
    · exact lives.loads.agrees name fun here => same (Option.some.inj here).symm
  have same : waiting = queues cache := funext fun name => (all name).waiting
  subst same
  refine { lives with loads := ⟨fun name _ => all name, fun reader reads => ?_, lives.loads.distinct⟩ }
  obtain ⟨name, _, loader⟩ := lives.loads.reads reader reads
  exact ⟨name, nofun, loader⟩

/-- Only the count of the references to a slot changes. -/
theorem Lives.recount (lives : Lives good hand none (queues cache) cache http)
    (found : cache.find key = some entry) (count : Nat) :
    Lives good hand none (queues (cache.store key { entry with refCount := count }))
      (cache.store key { entry with refCount := count }) http := by
  have sets := Sets.store cache key { entry with refCount := count }
  have queue : ∀ name, queues (cache.store key { entry with refCount := count }) name =
    queues cache name := by
    intro name
    by_cases same : name = key
    · rw [same, queues_found sets.found, queues_found found]
    · exact queues_congr (by rw [sets.find, if_neg same])
  rw [funext queue]
  refine { lives with loads := ⟨fun name apart => ?_, lives.loads.reads, lives.loads.distinct⟩ }
  have agrees := lives.loads.agrees name apart
  by_cases same : name = key
  · subst same
    refine ⟨?_, (queue name).symm, ?_, ?_, ?_, ?_⟩
    · rw [← agrees.reserved, sets.found, found]
      simp
    · rw [queue]
      exact agrees.waiters
    · rw [queue]
      exact agrees.loads
    · rw [sets.found]
      rintro _ ⟨⟩
      exact agrees.stored entry found
    · rw [sets.found]
      nofun
  · exact agrees.congr (by rw [sets.find, if_neg same])

/-- No write holds a reference to a slot in which nothing has been put. -/
theorem Lives.unheld {loading : Option Key} (lives : Lives good hand loading waiting cache http)
    (nothing : (slot key http.log).stored = none) : (held http).count key = 0 := by
  rw [List.count_eq_zero]
  intro member
  obtain ⟨aio, inside, own⟩ := List.mem_filterMap.mp member
  have told := lives.tells.aios aio inside
  cases aio with
  | writeHead pk data =>
    obtain ⟨name, uri, vern, asked, stored, _⟩ := told
    simp only [Aio.key, asked, Option.map_some, Option.some.injEq] at own
    rw [← own, stored] at nothing
    cases nothing
  | writeBody pk data =>
    obtain ⟨name, uri, asked, stored, _⟩ := told
    simp only [Aio.key, asked, Option.map_some, Option.some.injEq] at own
    rw [← own, stored] at nothing
    cases nothing
  | readRequest | write400 | readBody => cases own

theorem Stocked.same (stocked : Stocked cache http) (same : held after = held http) :
    Stocked cache after := by
  refine ⟨stocked.quota, stocked.currentSize, stocked.freeList, ?_, stocked.strays, stocked.live⟩
  rw [same]
  exact stocked.entries

/-- The references to all slots suffice when those to the one that changes do. -/
theorem Stocked.sets (stocked : Stocked cache http) (sets : Sets cache next key entry)
    (unlisted : entry.freeListRef = none) (live : entry.isReserved = true → entry.deleted = 0)
    (enough : 1 + (held after).count key ≤ entry.refCount)
    (others : ∀ other, other ≠ key → (held after).count other = (held http).count other) :
    Stocked next after := by
  refine ⟨sets.sizeQuota.trans stocked.quota, sets.currentSize.trans stocked.currentSize, ?_, ?_,
    sets.strays.trans stocked.strays, ?_⟩
  · rw [sets.freeList]
    exact stocked.freeList
  · intro name found held
    rw [sets.find] at held
    split at held
    · rename_i same
      cases held
      rw [same]
      exact ⟨unlisted, enough⟩
    · rename_i different
      rw [others name different]
      exact stocked.entries name found held
  · intro name found held
    rw [sets.find] at held
    split at held
    · cases held
      exact live
    · exact stocked.live name found held

@[simp] theorem asked_story : story pk (log ++ [.asked pk key use lookedUp]) =
    { story pk log with ask := some (key, use) } := by
  simp [storyAfter, Event.teller, Story.tell]

/-- A package that looks up a key is as the history then tells. -/
theorem Told.asks (told : hpkg.trOffset = (story pk log).streamed.length)
    (uri : hpkg.uri = some use.uri)
    (headkey : hpkg.headkey ≠ none) (own : match use with
      | .head .. => hpkg.headkey = some key
      | .body .. => hpkg.bodykey = some key)
    (opened : ∀ path, hpkg.hfd = some path → hpkg.uri = some path) (lookedUp : Lookup) :
    Told (log ++ [.asked pk key use lookedUp]) pk hpkg := by
  refine ⟨?_, ?_, ?_, ?_, fun none => absurd none headkey, opened⟩ <;> rw [asked_story]
  · exact told
  · rintro _ _ ⟨⟩
    exact uri
  · rintro _ _ _ ⟨⟩
    exact own
  · rintro _ _ _ ⟨⟩
    exact own

end EventDisp.Server
