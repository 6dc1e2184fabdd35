import EventDisp.HttpResolving

/-! Pending work is taken up: a task, or a call of `aio_read` or `aio_write` that
completes. With a write, a reference comes to hand that can be released. -/
namespace EventDisp.Server

open Outcome

variable {http after : Http} {pk : PackagePtr} {key : Key} {server : Server}
variable {cache next : Cache Key Text Callback} {entry : CacheEntry Text Callback} {cn : Conn}
  {done index : Nat}
variable {hpkg : HPKG} {good : KeyUse → Text → Prop} {rest : List Callback} {task : Task}
  {aio : Aio} {work : Work}
variable {hfd : Option Text} {offset : Nat} {hand : Option PackagePtr}

private theorem eraseIdx_perm {α : Type} {list : List α} {element : α}
    (found : list[index]? = some element) :
    (element :: list.eraseIdx index).Perm list := by
  obtain ⟨within, rfl⟩ := List.getElem?_eq_some_iff.mp found
  exact List.getElem_cons_eraseIdx_perm within

private theorem filterMap_eraseIdx {α β : Type} {list : List α} {element : α} {shown : α → Option β}
    (found : list[index]? = some element) (nothing : shown element = none) :
    (list.eraseIdx index).filterMap shown = list.filterMap shown := by
  induction list generalizing index with
  | nil => rfl
  | cons first rest ih =>
    cases index with
    | zero =>
      obtain rfl : first = element := by simpa using found
      rw [List.eraseIdx_cons_zero, List.filterMap_cons, nothing]
    | succ index =>
      rw [List.eraseIdx_cons_succ, List.filterMap_cons, List.filterMap_cons,
        ih (by simpa using found)]

/-- A reference to a slot is at hand, besides those that writes hold. -/
def Spare (cache : Cache Key Text Callback) (http : Http) (key : Key) : Prop :=
  ∃ entry, cache.find key = some entry ∧ entry.freeListRef = none ∧
    2 + (held http).count key ≤ entry.refCount

/-- A task is taken from the dispatcher. -/
theorem Sound.takeTask (sound : Sound good server) (found : server.client.tasks[index]? = some task)
    (still : Still server.client after) (tasks : after.tasks = server.client.tasks.eraseIdx index)
    (aios : after.aios = server.client.aios) :
    ∃ cn done hpkg, Hand good none (queues server.cache) server.cache after task.work.pk cn done
    hpkg ∧
      Told after.log task.work.pk hpkg ∧ Fits cn hpkg task.work ∧ Stocked server.cache after := by
  obtain ⟨lives, stocked⟩ := sound
  have more : Token.More (pending (queues server.cache) after)
    (pending (queues server.cache) server.client) task.work := by
    intro other
    have counts := ((eraseIdx_perm found).map Task.work).count_eq other
    rw [List.map_cons, List.count_cons] at counts
    simp only [pending, works, tasks, aios, List.count_append, beq_iff_eq] at counts ⊢
    omega
  have reading : readers after = readers server.client := by rw [readers, readers, aios]
  obtain ⟨cn, done, hpkg, hand, told, fits⟩ :=
    lives.take still (fun aio member => by rwa [aios] at member) reading more
    (fun _ _ => rfl) fun _ _ => id
  exact ⟨cn, done, hpkg, hand, told, fits, stocked.same (by rw [held, held, aios, still.log])⟩

/-- A call completes that its connection waited for. -/
theorem Sound.takeAio (sound : Sound good server) (found : server.client.aios[index]? = some aio)
    (shows : aio.work = some work) (still : Still server.client after)
    (tasks : after.tasks = server.client.tasks)
    (aios : after.aios = server.client.aios.eraseIdx index) :
    ∃ cn done hpkg, Hand good none (queues server.cache) server.cache after aio.pk cn done hpkg ∧
      Told after.log aio.pk hpkg ∧ Fits cn hpkg work ∧ Stocked server.cache after ∧
      aio.Told after.log ∧
      ∀ key, aio.key after.log = some key → Spare server.cache after key := by
  obtain ⟨lives, stocked⟩ := sound
  have permuted := eraseIdx_perm found
  have fewer : ∀ other ∈ after.aios, other ∈ server.client.aios := fun other member => by
    rw [aios] at member
    exact List.mem_of_mem_eraseIdx member
  have unread : aio.reader = none := by
    cases aio <;> first | rfl | cases shows
  have more : Token.More (pending (queues server.cache) after)
    (pending (queues server.cache) server.client) work := by
    intro other
    have counts := (permuted.filterMap Aio.work).count_eq other
    rw [List.filterMap_cons, shows] at counts
    simp only [pending, works, tasks, aios, List.count_append, List.count_cons,
      beq_iff_eq] at counts ⊢
    omega
  have reading : readers after = readers server.client := by
    rw [readers, readers, aios]
    exact filterMap_eraseIdx found unread
  have holding (key : Key) :
    (held server.client).count key = (held after).count key + (aio.key after.log).toList.count
    key := by
    have counts := (permuted.filterMap (Aio.key server.client.log)).count_eq key
    rw [held, held, aios, still.log, ← counts, List.filterMap_cons]
    cases aio.key server.client.log with
    | none => simp
    | some name => simp [List.count_cons]
  have told := lives.tells.aios aio (List.mem_of_getElem? found)
  obtain ⟨cn, done, hpkg, hand, telling, fits⟩ :=
    lives.take still fewer reading more (fun _ _ => rfl) fun _ _ => id
  rw [Aio.shown shows] at hand telling
  refine ⟨cn, done, hpkg, hand, telling, fits,
    ⟨stocked.quota, stocked.currentSize, stocked.freeList, ?_, stocked.strays, stocked.live⟩,
    by rw [still.log]; exact told, ?_⟩
  · intro key entry there
    obtain ⟨unlisted, enough⟩ := stocked.entries key entry there
    rw [holding] at enough
    exact ⟨unlisted, by omega⟩
  · intro key own
    obtain ⟨data, stored⟩ : ∃ data, (slot key server.client.log).stored = some data := by
      rw [still.log] at own
      cases aio with
      | writeHead pk data =>
        obtain ⟨name, uri, vern, asked, stored, _⟩ := told
        simp only [Aio.key, asked, Option.map_some, Option.some.injEq] at own
        exact ⟨data, own ▸ stored⟩
      | writeBody pk data =>
        obtain ⟨name, uri, asked, stored, _⟩ := told
        simp only [Aio.key, asked, Option.map_some, Option.some.injEq] at own
        exact ⟨data, own ▸ stored⟩
      | readRequest | write400 | readBody => cases own
    cases there : server.cache.find key with
    | none =>
      rw [(lives.loads.agrees key (Option.some_ne_none key).symm).absent there] at stored
      cases stored
    | some entry =>
      obtain ⟨unlisted, enough⟩ := stocked.entries key entry there
      rw [holding, own, Option.toList_some, List.count_singleton_self] at enough
      exact ⟨entry, there, unlisted, by omega⟩

/-- A package is at hand that has read a part of a body, and is the first to wait for it. -/
structure Loader (good : KeyUse → Text → Prop) (key : Key) (cache : Cache Key Text Callback)
    (http : Http) (pk : PackagePtr) (entry : CacheEntry Text Callback) (rest : List Callback)
    (cn : Conn) (done : Nat) (hpkg : HPKG) : Prop where
  hand : Hand good (some key) (Function.update (queues cache) key rest) cache http pk cn done hpkg
  stocked : Stocked cache http
  told : Told http.log pk hpkg
  fits : Fits cn hpkg (.wait key (.bodyWio pk))
  waits : (Callback.bodyWio pk).Told http.log key
  found : cache.find key = some entry
  reserved : entry.isReserved = true
  shape : entry.queue = .bodyWio pk :: rest
  loader : (slot key http.log).loader = some pk
  stored : contents entry = (slot key http.log).stored

/-- A part of a body has been read, or reading it has failed. -/
theorem Sound.takeRead (sound : Sound good server)
    (found : server.client.aios[index]? = some (.readBody pk hfd offset))
    (still : Still server.client after) (tasks : after.tasks = server.client.tasks)
    (aios : after.aios = server.client.aios.eraseIdx index) :
    ∃ key entry rest cn done hpkg, Loader good key server.cache after pk entry rest cn done hpkg ∧
      (Aio.readBody pk hfd offset).Told after.log := by
  obtain ⟨lives, stocked⟩ := sound
  have permuted := eraseIdx_perm found
  have fewer : ∀ other ∈ after.aios, other ∈ server.client.aios := fun other member => by
    rw [aios] at member
    exact List.mem_of_mem_eraseIdx member
  have told := lives.tells.aios _ (List.mem_of_getElem? found)
  obtain ⟨key, uri, asked, loads, opened⟩ := id told
  have agrees := lives.loads.agrees key (Option.some_ne_none key).symm
  obtain ⟨entry, there, reserved⟩ := agrees.reserved.mpr (by rw [loads]; rfl)
  have queue : queues server.cache key = entry.queue := by rw [queues_found there, if_pos reserved]
  obtain ⟨reads, first⟩ := agrees.loads pk loads
  rw [queue] at first
  obtain ⟨rest, shape⟩ := List.head?_eq_some_iff.mp first
  have reading : (pk :: readers after).Perm (readers server.client) := by
    have readers' := permuted.filterMap Aio.reader
    rw [List.filterMap_cons] at readers'
    rwa [readers, readers, aios]
  have works' : works after = works server.client := by
    rw [works, works, tasks, aios, filterMap_eraseIdx found rfl]
  have same : held after = held server.client := by
    rw [held, held, aios, still.log, filterMap_eraseIdx found rfl]
  have others : pk ∉ readers after ∧ (readers after).Nodup :=
    List.nodup_cons.mp (reading.nodup_iff.mpr lives.loads.distinct)
  -- Nobody but the package at hand has lost what it reads.
  have one : ∀ name, (slot name server.client.log).loader = some pk → name = key := by
    intro name loads'
    have waits : Callback.bodyWio pk ∈ queues server.cache name :=
      List.mem_of_mem_head? ((lives.loads.agrees name (Option.some_ne_none name).symm).loads pk
        loads').2
    obtain ⟨uri', asked'⟩ := lives.tells.waits name _ waits
    rw [asked] at asked'
    cases asked'
    rfl
  have suspended : Lives good none (some key) (queues server.cache) server.cache after := by
    refine ⟨⟨by simp, ?_⟩, ⟨?_, ?_, others.2⟩,
      still.tells lives.tells fewer fun _ _ => id, by rw [still.log]; exact lives.lawful⟩
    · intro conn apart
      exact (lives.keeps.rests conn (by simp)).same (still.same conn) fun work _ => by
        rw [pending, pending, works']
    · intro name apart
      have before := lives.loads.agrees name (Option.some_ne_none name).symm
      refine ⟨?_, rfl, ?_, fun loader loads' => ?_, ?_, ?_⟩ <;> rw [still.log] at *
      · exact before.reserved
      · exact before.waiters
      · obtain ⟨reads', first'⟩ := before.loads loader loads'
        refine ⟨(List.mem_cons.mp (reading.mem_iff.mpr reads')).resolve_left ?_, first'⟩
        rintro rfl
        exact apart (congrArg some (one name loads').symm)
      · exact before.stored
      · exact before.absent
    · intro reader reads
      obtain ⟨name, _, loads'⟩ :=
        lives.loads.reads reader (reading.mem_iff.mp (List.mem_cons_of_mem _ reads))
      refine ⟨name, ?_, by rw [still.log]; exact loads'⟩
      rintro ⟨⟩
      rw [loads] at loads'
      cases loads'
      exact others.1 reads
  obtain ⟨cn, done, hpkg, hand, telling, fits, waits⟩ := suspended.dequeue (queue.trans shape)
  exact ⟨key, entry, rest, cn, done, hpkg, ⟨hand, stocked.same same, telling, fits, waits, there,
    reserved, shape,
    by rw [still.log]; exact loads, by rw [still.log]; exact agrees.stored entry there⟩, by rw [still.log]; exact told⟩

/-- A reference is released. -/
theorem Hand.releases (hand : Hand good none (queues cache) cache http pk cn done hpkg)
    (stocked : Stocked cache http) (child : pk.number ≠ 0) (spare : Spare cache http key)
    (refers : 0 < (story pk http.log).references key) :
    ∃ next, doneWith pk key ⟨cache, http⟩ = .ok ⟨next, http.emit (.released pk key)⟩ ∧
      Hand good none (queues next) next (http.emit (.released pk key)) pk cn done hpkg ∧
      Stocked next (http.emit (.released pk key)) ∧
      ∀ hpkg, Told http.log pk hpkg → Told (http.emit (.released pk key)).log pk hpkg := by
  obtain ⟨entry, found, unlisted, enough⟩ := spare
  have room : cache.currentSize ≤ cache.sizeQuota := by
    rw [stocked.currentSize]
    exact Nat.zero_le _
  obtain ⟨hand', same⟩ :=
    hand.emit child (.released pk key) rfl refers (fun _ => by rw [status_concat]; rfl)
    fun _ _ => by rw [slot_concat]; rfl
  refine ⟨_, doneWith_releases found (by omega) room pk http,
    { hand' with lives := hand'.lives.recount found _ },
    stocked.sets (.store cache key _) unlisted (stocked.live key entry found) ?_
    fun other _ => by rw [same], fun hpkg told => told.congr ?_ ?_⟩
  · rw [same]
    dsimp only
    omega
  · simp [storyAfter, Event.teller, Story.tell, Story.refer]
  · simp [storyAfter, Event.teller, Story.tell, Story.refer]

end EventDisp.Server
