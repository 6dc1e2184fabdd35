import EventDisp.HttpAsking

/-! A key is reserved by the package at hand, and later put or given up: all who
wait for it are served, and the slot agrees with the history again. -/
namespace EventDisp.Server

open Outcome

variable {http after : Http} {pk : PackagePtr} {key : Key} {waiting : Key → List Callback}
variable {cache next : Cache Key Text Callback} {entry : CacheEntry Text Callback} {cn : Conn}
  {done : Nat}
variable {around : Surroundings} {use : KeyUse} {hpkg : HPKG} {good : KeyUse → Text → Prop}
variable {callback : Callback} {rest : List Callback} {buf : Text} {size : Nat} {log : List Event}

/-- A key has been reserved for the package at hand, which is the first to wait for it. -/
structure Reserved (good : KeyUse → Text → Prop) (use : KeyUse) (pk : PackagePtr) (cn : Conn)
    (done : Nat) (hpkg : HPKG) (cache next : Cache Key Text Callback) (after : Http) : Prop where
  hand : Hand good (some use.key) (queues cache) next after pk cn done hpkg
  stocked : Stocked next after
  told : Told after.log pk hpkg
  waits : (use.callback pk).Told after.log use.key
  state : slot use.key after.log = ⟨some pk, [pk], none⟩
  asked : (story pk after.log).ask = some (use.key, use)
  sets : ∃ ref, Sets cache next use.key (awaited ref (use.callback pk))
  queue : queues cache use.key = []

/-- What is looked up again has been looked up before. -/
private theorem Seeks.again (seeks : Seeks cn hpkg use pk log) :
    Seeks cn hpkg use pk (log ++ [.asked pk use.key use .missed] ++ [.reserved pk use.key]) := by
  have same : story pk (log ++ [.asked pk use.key use .missed] ++ [.reserved pk use.key]) =
      { story pk log with ask := some (use.key, use) } := by
    rw [story_concat, asked_story]
    simp [storyAfter, Event.teller, Story.tell]
  refine ⟨seeks.fits, ?_, ?_, seeks.uri, seeks.headkey, seeks.opened⟩
  · cases use with
    | head uri vern =>
      intro key other
      rw [same]
      rintro ⟨⟩
      rfl
    | body uri offset =>
      refine ⟨?_, (KeyUse.body uri offset).key, .body uri offset, ?_, rfl⟩ <;> rw [same]
      exact seeks.asks.1
  · rw [same]
    exact seeks.offset

/-- A key that is not there is looked up, reserved, and looked up again. -/
theorem Hand.reserves (hand : Hand good none (queues cache) cache http pk cn done hpkg)
    (stocked : Stocked cache http) (seeks : Seeks cn hpkg use pk http.log)
    (absent : cache.find use.key = none) :
    Reserved good use pk cn done hpkg cache
      ((cache.insertNew use.key .reserved).store use.key (awaited cache.nextRef (use.callback pk)))
      (((http.emit (.asked pk use.key use .missed)).emit (.reserved pk use.key)).emit
        (.asked pk use.key use .queued)) := by
  have child := seeks.waits.1
  have before := hand.lives.loads.agrees use.key nofun
  have loader : (Server.slot use.key http.log).loader = none := by
    rw [← Option.not_isSome_iff_eq_none, ← before.reserved, absent]
    simp
  have stored := before.absent absent
  have suspended : Hand good (some use.key) (Server.queues cache) cache http pk cn done hpkg :=
    { hand with lives := hand.lives.suspend loader }
  obtain ⟨missed, same⟩ := suspended.emit child (.asked pk use.key use .missed) rfl
    (seeks.lawful hand .missed (by simp [loader])) (fun _ => asked_status _) fun name apart => by
      rw [slot_concat, slotAfter, if_neg fun both => apart (congrArg some both.1)]
  have slot' : Server.slot use.key (http.emit (.asked pk use.key use .missed)).log =
    Server.slot use.key http.log := by
    simp [slotAfter]
  obtain ⟨reserved, same'⟩ := missed.emit child (.reserved pk use.key) rfl
    ⟨by rw [slot', loader], by rw [slot', stored], by rw [emit_log, asked_story]; rfl⟩
    (fun _ => by rw [status_concat]; rfl) fun name apart => by
      rw [slot_concat, slotAfter, if_neg fun here => apart (congrArg some here)]
  have slot'' : Server.slot use.key
    ((http.emit (.asked pk use.key use .missed)).emit (.reserved pk use.key)).log =
      ⟨some pk, [], none⟩ := by
    rw [emit_log, slot_concat, slotAfter, if_pos rfl, slot', stored]
  have again : Seeks cn hpkg use pk
    ((http.emit (.asked pk use.key use .missed)).emit (.reserved pk use.key)).log := seeks.again
  obtain ⟨asked, same''⟩ := reserved.emit child (.asked pk use.key use .queued) rfl
    (again.lawful reserved .queued (by rw [slot'']; simp))
    (fun _ => asked_status _) fun name apart => by
      rw [slot_concat, slotAfter, if_neg fun both => apart (congrArg some both.1)]
  obtain ⟨told, waits⟩ := again.told .queued
  have sets := Sets.reserved cache use.key (awaited cache.nextRef (use.callback pk))
  have kept := same''.trans (same'.trans same)
  refine ⟨{ asked with lives := asked.lives.overwrite sets }, ?_, told, waits, ?_, ?_, ⟨_, sets⟩,
    queues_absent absent⟩
  · refine stocked.sets sets rfl (fun _ => rfl) ?_ fun other _ => by rw [kept]
    rw [kept, hand.lives.unheld stored]
    exact Nat.le_refl 1
  · rw [emit_log, slot_concat, slotAfter, if_pos ⟨rfl, rfl⟩, slot'']
    rfl
  · rw [emit_log, asked_story]

/-- A key is looked up for the package at hand; when it is not there, `load` goes on. -/
theorem Hand.seek (hand : Hand good none (queues cache) cache http pk cn done hpkg)
    (stocked : Stocked cache http) (seeks : Seeks cn hpkg use pk http.log) (around : Surroundings)
    (notReserved notQueued : Assertion) (load : Server → Except Fault Server)
    (loads : ∀ next after, Reserved good use pk cn done hpkg cache next after →
      Ends (· = .nullAccess) (load ⟨next, after⟩) (Sound good)) :
    Ends (· = .nullAccess) (do
      let (found, server) ← ask around pk use.key use (use.callback pk) ⟨cache, http⟩
      if found then return server
      else do
        let server ← reserveAndAsk around pk use.key use (use.callback pk) notReserved notQueued server
        load server) (Sound good) := by
  cases found : cache.find use.key with
  | some entry =>
    refine (hand.asks stocked seeks found around).bind fun (result, after) _ ⟨delivered, sound⟩ =>
      ?_
    dsimp only at delivered sound
    rw [delivered]
    exact sound
  | none =>
    have reserved := hand.reserves stocked seeks found
    rw [ask_missed found]
    simp only [bind, Except.bind, Bool.false_eq_true, if_false, reserveAndAsk_absent found]
    exact loads _ _ reserved

/-- Nobody loads the key any more. -/
theorem Lives.resolve (lives : Lives good none (some key)
    (Function.update waiting key []) cache http)
    (sets : Sets cache next key entry)
    (free : entry.isReserved = false) (loader : (slot key http.log).loader = none)
    (waiters : (slot key http.log).waiters = [])
    (stored : contents entry = (slot key http.log).stored) :
    Lives good none none (queues next) next http := by
  have queue : queues next key = [] := by
    rw [queues_found sets.found, free]
    rfl
  refine (lives.overwrite sets).resume ⟨?_, ?_, ?_, ?_, ?_, ?_⟩
  · rw [sets.found, loader]
    simp [free]
  · rw [Function.update_self, queue]
  · rw [queue, waiters]
    rfl
  · rw [loader]
    nofun
  · rw [sets.found]
    rintro _ ⟨⟩
    exact stored
  · rw [sets.found]
    nofun

/-- Who loads a key puts it. -/
theorem Hand.puts (hand : Hand good (some key) waiting cache http callback.pk cn done hpkg)
    (stocked : Stocked cache http) (told : Told http.log callback.pk hpkg)
    (fits : Fits cn hpkg (.wait key callback)) (tells : callback.Told http.log key)
    (found : cache.find key = some entry) (reserved : entry.isReserved = true)
    (shape : entry.queue = callback :: rest) (queued : waiting key = rest)
    (loader : (slot key http.log).loader = some callback.pk)
    (asked : (story callback.pk http.log).ask = some (key, use)) (isGood : good use (buf.take size))
    (around : Surroundings) :
    Ends (· = .nullAccess)
      (Cache.put (invoke around) key (some buf) size
        (Server.emit (.put callback.pk key (buf.take size)) ⟨cache, http⟩))
      fun result => result.1 = true ∧ Sound good result.2 ∧ Remain http result.2.client := by
  have nothing := loader_unstored hand.lives.lawful loader
  obtain ⟨hand', same⟩ :=
    hand.emit fits.waits.1 (.put callback.pk key (buf.take size)) rfl ⟨loader, use, asked, isGood⟩
    (fun _ => by rw [status_concat]; rfl) fun name apart => by
      rw [slot_concat, slotAfter, if_neg fun here => apart (congrArg some here)]
  have put : slot key (http.emit (.put callback.pk key (buf.take size))).log = ⟨none, [],
    some (buf.take size)⟩ := by
    rw [emit_log, slot_concat, slotAfter, if_pos rfl]
  have still : story callback.pk (http.emit (.put callback.pk key (buf.take size))).log =
    story callback.pk http.log := by
    simp [storyAfter, Event.teller, Story.tell]
  have told' := told.same still
  have tells' := tells.congr still
  have given : some (buf.take size) =
    (slot key (http.emit (.put callback.pk key (buf.take size))).log).stored := by
    rw [put]
  obtain ⟨next, rewrites, strays, ran⟩ :=
    put_serves found reserved (stocked.live key entry found reserved) shape hand' told' fits tells'
      queued buf size given around
  have sets := Sets.overwrites rewrites strays
  obtain ⟨unlisted, enough⟩ := stocked.entries key entry found
  rw [Server.emit, ran, shape]
  have served := hand'.serveAll rest ⟨some buf, size, true⟩ told' fits tells' queued given
    (fun _ => rfl) around
  apply served.map
  intro after later
  obtain ⟨passed, remain⟩ := later
  refine ⟨rfl, ⟨?_, ?_⟩, fun other there => remain rfl other there⟩
  · have resolved : slot key after.log = ⟨none, [], some (buf.take size)⟩ :=
      (passed.slots key).trans put
    exact passed.lives.resolve sets rfl
      (by rw [resolved]) (by rw [resolved]) (by rw [resolved]; rfl)
  · have references : held after = held http ++ entry.queue.map fun _ => key := by
      rw [passed.held, same, shape]
      simp [taken, List.map_eq_flatMap]
    refine stocked.sets sets unlisted (by simp [filled]) ?_ fun other different => ?_
    · rw [references, List.count_append, hand.lives.unheld nothing, List.map_const',
        List.count_replicate_self]
      simp only [filled]
      omega
    · rw [references, List.count_append, List.map_const', List.count_replicate,
        if_neg (by simpa using different.symm),
        Nat.add_zero]

/-- Who loads a part of a body and has failed gives it up. -/
theorem Hand.cancels (hand : Hand good (some key) waiting cache http pk cn done hpkg)
    (stocked : Stocked cache http) (told : Told http.log pk hpkg) (child : pk.number ≠ 0)
    (closes : cn.closesWrite = true) (found : cache.find key = some entry)
    (reserved : entry.isReserved = true) (shape : entry.queue = .bodyWio pk :: rest)
    (queued : waiting key = rest) (loader : (slot key http.log).loader = some pk)
    (stored : contents entry = (slot key http.log).stored) (around : Surroundings) :
    Ends (· = .nullAccess)
      (Cache.cancelReservation (cancelled around) key
        (Server.emit (.cancelled pk key) ⟨cache, http⟩))
      fun result => Sound good result.2 := by
  have nothing := loader_unstored hand.lives.lawful loader
  obtain ⟨hand', same⟩ :=
    hand.emit child (.cancelled pk key) rfl loader (fun _ => by rw [status_concat]; rfl)
    fun name apart => by rw [slot_concat, slotAfter, if_neg fun here => apart (congrArg some here)]
  have resolved : slot key (http.emit (.cancelled pk key)).log = ⟨none, [], none⟩ := by
    rw [emit_log, slot_concat, slotAfter, if_pos rfl, nothing]
  have told' : Told (http.emit (.cancelled pk key)).log pk hpkg := told.same (by
    simp [storyAfter, Event.teller, Story.tell])
  rw [Server.emit, cancel_serves found reserved (stocked.live key entry found reserved), shape]
  have first := hand'.serveNull told' child closes around
  obtain ⟨unlisted, enough⟩ := stocked.entries key entry found
  have served : Ends (· = .nullAccess) (Server.serveAll around ⟨none, 0,
    false⟩ (.bodyWio pk :: rest) (http.emit (.cancelled pk key)))
      fun after => Lives good none (some key) (Function.update waiting key []) cache after ∧
      held after = held http ∧
        slot key after.log = ⟨none, [], none⟩ := by
    apply first.bind
    intro between _ passed
    have given : (none : Option Text).map (·.take 0) = (slot key between.log).stored := by
      rw [passed.slots, resolved]
      rfl
    have served :=
      passed.lives.serveAll rest ⟨none, 0, false⟩ queued given (fun some => absurd some (by simp))
        around
    apply served.mono
    intro after later
    obtain ⟨later, _⟩ := later
    refine ⟨later.lives, ?_, by rw [later.slots, passed.slots, resolved]⟩
    rw [later.held, passed.held, same]
    simp [taken]
  apply served.map
  intro after passed
  obtain ⟨lives, same, resolved⟩ := passed
  constructor
  · apply lives.resolve (.store cache key (opened entry)) rfl (by rw [resolved]) (by rw [resolved])
    rw [resolved, ← nothing]
    exact stored
  · refine stocked.sets (.store cache key (opened entry)) unlisted (by simp [opened]) ?_
      fun other _ => by rw [same]
    rw [same]
    exact enough

end EventDisp.Server
