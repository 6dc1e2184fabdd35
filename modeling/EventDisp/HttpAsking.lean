import EventDisp.HttpSlots

/-! A key is looked up for the package at hand: it waits in a reserved slot, is
served at once, or reserves the key and waits for itself. -/
namespace EventDisp.Server

open Outcome
open Cache (Overwrites)

variable {http after : Http} {pk : PackagePtr} {key : Key} {waiting : Key → List Callback}
variable {cache next : Cache Key Text Callback} {entry : CacheEntry Text Callback} {cn : Conn}
  {done : Nat}
variable {around : Surroundings} {use : KeyUse} {hpkg : HPKG}
  {good : KeyUse → Text → Prop} {work : Work}
variable {lookedUp : Lookup} {log : List Event} {loading : Option Key}

/-- The callback that is handed over when a key is looked up for the use. -/
def KeyUse.callback (pk : PackagePtr) : KeyUse → Callback
  | .head .. => .headerWio pk
  | .body .. => .bodyWio pk

@[simp] theorem KeyUse.callback_pk : (use.callback pk).pk = pk := by
  cases use <;> rfl

variable {callback : Callback}

/-- The package is about to look up a key. -/
structure Seeks (cn : Conn) (hpkg : HPKG) (use : KeyUse) (pk : PackagePtr) (log : List Event) :
    Prop where
  fits : Fits cn hpkg (.wait use.key (use.callback pk))
  asks : Asks pk log use
  offset : hpkg.trOffset = (story pk log).streamed.length
  uri : hpkg.uri = some use.uri
  headkey : hpkg.headkey ≠ none
  opened : ∀ path, hpkg.hfd = some path → hpkg.uri = some path

theorem Seeks.waits (seeks : Seeks cn hpkg use pk log) : pk.number ≠ 0 ∧ cn.cst = .connected := by
  simpa using seeks.fits.waits

/-- The package is as the history tells when the key has been looked up. -/
theorem Seeks.told (seeks : Seeks cn hpkg use pk log) (lookedUp : Lookup) :
    Told (log ++ [.asked pk use.key use lookedUp]) pk hpkg ∧
      (use.callback pk).Told (log ++ [.asked pk use.key use lookedUp]) use.key := by
  refine ⟨.asks seeks.offset seeks.uri seeks.headkey ?_ seeks.opened lookedUp, ?_⟩
  · cases use with
    | head uri vern => exact seeks.fits.2.2.2.2
    | body uri offset => exact seeks.fits.2.2.2.2
  · cases use with
    | head uri vern => exact ⟨uri, vern, by rw [asked_story]⟩
    | body uri offset => exact ⟨uri, by rw [asked_story, ← seeks.asks.1]⟩

/-- Events may follow in which the key is looked up. -/
theorem Seeks.lawful (seeks : Seeks cn hpkg use pk http.log)
    (hand : Hand good loading waiting cache http pk cn done hpkg)
    (lookedUp : Lookup) (found : (slot use.key http.log).loader.isSome = true ↔
    lookedUp = .queued) :
    Lawful good http.log (.asked pk use.key use lookedUp) := by
  refine ⟨rfl, found, ?_, seeks.asks⟩
  rw [← hand.status]
  exact seeks.waits.2

theorem asked_status (conn : Nat) :
    status conn (log ++ [.asked pk use.key use lookedUp]) = status conn log := by
  rw [status_concat]
  rfl

/-- The queue of a key has one callback more. -/
theorem Sets.longer (sets : Sets cache next key entry) (reserved : entry.isReserved = true)
    (callback : Callback) (queue : entry.queue = queues cache key ++ [callback]) :
    queues next = Function.update (queues cache) key (queues cache key ++ [callback]) := by
  funext name
  by_cases same : name = key
  · rw [same, Function.update_self, queues_found sets.found, if_pos reserved, queue]
  · rw [Function.update_of_ne same]
    exact queues_congr (by rw [sets.find, if_neg same])

/-- The package at hand goes to wait in the queue of a key. -/
theorem Lives.waits (lives : Lives good (some pk) loading waiting cache http)
    (tells : Tells (some pk) waiting after) (still : ∀ conn, Same conn http after)
    (works : works after = works http) (runs : Runs after pk cn done) (serves : cn.Serves)
    (there : after.packages pk = some hpkg) (own : callback.pk = pk) (told : Told after.log pk hpkg)
    (fits : Fits cn hpkg (.wait key callback)) (waits : callback.Told after.log key) :
    Keeps none (Function.update waiting key (waiting key ++ [callback])) after ∧
      Tells none (Function.update waiting key (waiting key ++ [callback])) after := by
  subst own
  constructor
  · have ready : Ready after (.wait key callback) := ⟨cn, done, hpkg, runs, serves, there, fits⟩
    refine lives.keeps.give (fun other _ => still other) ?_ ready fun work => ?_
    · rfl
    cases work with
    | wait name other =>
      simp only [Server.pending, works, Work.queued, Work.wait.injEq]
      by_cases same : name = key
      · subst same
        rw [Function.update_self, List.count_append, List.count_singleton]
        simp only [true_and, beq_iff_eq]
        omega
      · rw [Function.update_of_ne same, if_neg fun both => same both.1.symm]
        rfl
    | read | fetch | readRequest | writeHead | write400 | writeBody =>
      simp [Server.pending, Work.queued, works]
  · refine { tells with packages := fun other found _ there' => ?_, waits := fun name other member => ?_ }
    · by_cases same : callback.pk = other
      · subst same
        rw [there] at there'
        cases there'
        exact told
      · exact tells.packages other found (fun here => same (Option.some.inj here)) there'
    · by_cases same : name = key
      · subst same
        rw [Function.update_self] at member
        rcases List.mem_append.mp member with old | new
        · exact tells.waits name other old
        · rw [List.mem_singleton.mp new]
          exact waits
      · rw [Function.update_of_ne same] at member
        exact tells.waits name other member

/-- The key is reserved: the package at hand waits for it too. -/
private theorem Hand.awaits (hand : Hand good none (queues cache) cache http pk cn done hpkg)
    (seeks : Seeks cn hpkg use pk http.log) (found : cache.find use.key = some entry)
    (reserved : entry.isReserved = true) :
    Lives good none none (queues (cache.store use.key (queuedIn entry (use.callback pk))))
      (cache.store use.key (queuedIn entry (use.callback pk)))
      (http.emit (.asked pk use.key use .queued)) := by
  have child := seeks.waits.1
  have before := hand.lives.loads.agrees use.key nofun
  have loader : (slot use.key http.log).loader.isSome = true :=
    before.reserved.mp ⟨entry, found, reserved⟩
  have last := seeks.lawful hand .queued (by simp [loader])
  have tells := hand.lives.tellsOn rfl (hand.child child).1 last fun _ => asked_status _
  have still (conn : Nat) : Same conn http (http.emit (.asked pk use.key use .queued)) :=
    .emit http conn rfl
  obtain ⟨told, waits⟩ := seeks.told .queued
  have sets := Sets.store cache use.key (queuedIn entry (use.callback pk))
  have queue : queues cache use.key = entry.queue := by rw [queues_found found, if_pos reserved]
  have waiting := sets.longer reserved (use.callback pk) (by rw [queue]; rfl)
  obtain ⟨keeps, tells⟩ :=
    hand.lives.waits tells still rfl (hand.runs.same (still _)) hand.serves hand.there
    use.callback_pk told seeks.fits waits
  rw [waiting]
  refine ⟨keeps, ⟨?_, ?_, hand.lives.loads.distinct⟩, tells,
    History.throughout_concat.mpr ⟨hand.lives.lawful, last⟩⟩
  · intro name _
    rw [← waiting]
    by_cases same : name = use.key
    · subst same
      have grown : slot use.key (http.emit (.asked pk use.key use .queued)).log =
          { slot use.key http.log with waiters := (slot use.key http.log).waiters ++ [pk] } := by
        rw [emit_log, slot_concat, slotAfter, if_pos ⟨rfl, rfl⟩]
      have own : queues (cache.store use.key (queuedIn entry (use.callback pk))) use.key =
          queues cache use.key ++ [use.callback pk] := by
        rw [waiting, Function.update_self]
      refine ⟨?_, rfl, ?_, ?_, ?_, ?_⟩
      · rw [grown, sets.found]
        exact ⟨fun _ => loader, fun _ => ⟨_, rfl, reserved⟩⟩
      · rw [grown, own, List.map_append, before.waiters, List.map_singleton, KeyUse.callback_pk]
      · intro loader loads
        rw [grown] at loads
        obtain ⟨reads, first⟩ := before.loads loader loads
        refine ⟨reads, ?_⟩
        rw [own, List.head?_append, first]
        rfl
      · rw [grown, sets.found]
        rintro _ ⟨⟩
        exact before.stored entry found
      · rw [sets.found]
        intro absent
        cases absent
    · have kept : slot name (http.emit (.asked pk use.key use .queued)).log =
        slot name http.log := by
        rw [emit_log, slot_concat, slotAfter, if_neg fun both => same both.1.symm]
      have agrees : Agrees (queues cache) (cache.store use.key (queuedIn entry (use.callback pk)))
          (http.emit (.asked pk use.key use .queued)) name :=
        ((hand.lives.loads.agrees name (Option.some_ne_none name).symm).same kept fun _ => id).congr
          (by rw [sets.find, if_neg same])
      exact { agrees with waiting := rfl }
  · intro reader reads
    obtain ⟨name, _, loads⟩ := hand.lives.loads.reads reader reads
    refine ⟨name, (Option.some_ne_none name).symm, ?_⟩
    rw [emit_log, slot_concat, slotAfter]
    split <;> exact loads

/-- The key is there: the package at hand is served at once. -/
private theorem Hand.hit (hand : Hand good none (queues cache) cache http pk cn done hpkg)
    (stocked : Stocked cache http) (seeks : Seeks cn hpkg use pk http.log)
    (found : cache.find use.key = some entry) (free : entry.isReserved = false)
    (around : Surroundings) :
    Ends (· = .nullAccess) (ask around pk use.key use (use.callback pk) ⟨cache, http⟩) fun result =>
      result.1 = true ∧ Sound good result.2 := by
  have before := hand.lives.loads.agrees use.key nofun
  have unloaded : ¬ (slot use.key http.log).loader.isSome = true := by
    rw [← before.reserved, found]
    simp [free]
  have slots (key : Key) : slot key (http.log ++ [.asked pk use.key use .hit]) =
    slot key http.log := by
    simp [slotAfter]
  obtain ⟨hand', same⟩ := hand.emit seeks.waits.1 (.asked pk use.key use .hit) rfl
    (seeks.lawful hand .hit (by simp [unloaded])) (fun _ => asked_status _) fun key _ => slots key
  obtain ⟨told, waits⟩ := seeks.told .hit
  have own : (use.callback pk).pk = pk := use.callback_pk
  have given : contents entry =
    (slot use.key (http.emit (.asked pk use.key use .hit)).log).stored := by
    rw [emit_log, slots]
    exact before.stored entry found
  obtain ⟨unlisted, enough⟩ := stocked.entries use.key entry found
  rw [ask_hit found free unlisted http around pk use
    (by rw [own]; exact hand.there) (by rw [own]; exact hand.runs.1)
    seeks.waits.2]
  have served :=
    Hand.serve (by rw [own]; exact hand') ⟨entry.data, entry.size,
      true⟩ (by rw [own]; exact told) seeks.fits waits
    given (fun _ => rfl) around
  apply served.map
  intro after passed
  obtain ⟨passed, _⟩ := passed
  refine ⟨rfl, passed.lives.recount found _, ?_⟩
  obtain ⟨one, none'⟩ := taken_count ⟨entry.data, entry.size, true⟩ use.key
  refine stocked.sets (.store cache use.key (acquired entry)) unlisted
    (stocked.live use.key entry found) ?_ fun other different => ?_
  · rw [passed.held, same, List.count_append]
    simp only [acquired]
    omega
  · rw [passed.held, same, List.count_append, none' other different, Nat.add_zero]

/-- A key that is there is looked up. -/
theorem Hand.asks (hand : Hand good none (queues cache) cache http pk cn done hpkg)
    (stocked : Stocked cache http) (seeks : Seeks cn hpkg use pk http.log)
    (found : cache.find use.key = some entry) (around : Surroundings) :
    Ends (· = .nullAccess) (ask around pk use.key use (use.callback pk) ⟨cache, http⟩) fun result =>
      result.1 = true ∧ Sound good result.2 := by
  by_cases reserved : entry.isReserved = true
  · rw [ask_queued found reserved]
    have lives := hand.awaits seeks found reserved
    obtain ⟨unlisted, enough⟩ := stocked.entries use.key entry found
    have same : held (http.emit (.asked pk use.key use .queued)) = held http :=
      hand.lives.emit_held rfl
    refine ⟨rfl, lives, stocked.sets (.store cache use.key _) unlisted
      (stocked.live use.key entry found) ?_ fun other _ => by rw [same]⟩
    rw [same]
    exact enough
  · exact hand.hit stocked seeks found (by simpa using reserved) around

end EventDisp.Server
