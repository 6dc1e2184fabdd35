import EventDisp.HttpRuns

/-! What becomes of connections: one unit of work is in flight for each at any time,
and nothing is written on one any more on which something has failed. -/
namespace EventDisp.Server

open Execution

variable {server : Server} {conn : Nat} {pk : PackagePtr} {work : Work} {key : Key}
  {callback : Callback}
variable {good : KeyUse → Text → Prop} {http : Http} {task : Task} {aio : Aio}

/-- The connection has been accepted, and not been closed. -/
def Open (http : Http) (conn : Nat) : Prop := .accepted conn ∈ http.log ∧ .closed conn ∉ http.log

/-- The package has been made. -/
def Made (http : Http) (pk : PackagePtr) : Prop :=
  pk.number = 0 ∧ .accepted pk.conn ∈ http.log ∨ .created pk ∈ http.log

/-- The root reads, and all other work is for a child. -/
def Work.Proper : Work → Prop
  | .read pk | .readRequest pk => pk.number = 0
  | .fetch pk | .writeHead pk _ | .write400 pk | .writeBody pk => pk.number ≠ 0
  | .wait _ callback => callback.pk.number ≠ 0

/-- How the packages of all connections are worked on. -/
structure Conducted (server : Server) : Prop where
  one : ∀ conn, Open server.client conn → ∃ work : Work, work.pk.conn = conn ∧ work.Proper ∧
    ∀ other : Work, other.pk.conn = conn → pending (queues server.cache) server.client other =
    if work = other then 1 else 0
  others : ∀ conn, ¬ Open server.client conn → ∀ other : Work, other.pk.conn = conn →
    pending (queues server.cache) server.client other = 0
  /-- Who reads a part of a body waits for it as well. -/
  reads : ∀ pk hfd offset, .readBody pk hfd offset ∈ server.client.aios →
    (readers server.client).count pk = 1 ∧ ∃ key, .bodyWio pk ∈ queues server.cache key
  ordered : ∀ conn, activatedOf conn server.client.log <+: createdOf conn server.client.log
  rearmed : ∀ conn, History.Throughout (Rearms conn) server.client.log
  childless : ∀ pk, .read pk ∈ server.client.tasks ∨ .readRequest pk ∈ server.client.aios →
    finalisedOf pk.conn server.client.log = createdOf pk.conn server.client.log ∧
      ∃ root, server.client.packages pk = some root ∧ root.lcg = none
  once : ∀ conn, (finalisedOf conn server.client.log).Nodup
  all : ∀ conn, .closed conn ∈ server.client.log →
    finalisedOf conn server.client.log = createdOf conn server.client.log ++ [0]
  there : ∀ pk, (server.client.packages pk).isSome = true ↔ Made server.client pk ∧
    .finalised pk ∉ server.client.log
  tasks : ∀ task ∈ server.client.tasks, (server.client.packages task.work.pk).isSome = true ∧
    Open server.client task.work.pk.conn
  aios : ∀ aio ∈ server.client.aios, (server.client.packages aio.pk).isSome = true ∧
    Open server.client aio.pk.conn
  callbacks : ∀ key, ∀ callback ∈ queues server.cache key,
    (server.client.packages callback.pk).isSome = true ∧ Open server.client callback.pk.conn
  alive : ∀ step, program.allowed server step → exec server step ≠ .error .dangling

theorem pending_task (member : task ∈ http.tasks) (waiting : Key → List Callback) :
    pending waiting http task.work ≠ 0 := by
  have present : 0 < (works http).count task.work :=
    List.count_pos_iff.mpr (List.mem_append_left _ (List.mem_map_of_mem member))
  unfold pending
  omega

theorem pending_aio (member : aio ∈ http.aios) (shows : aio.work = some work)
    (waiting : Key → List Callback) :
    pending waiting http work ≠ 0 := by
  have present : 0 < (works http).count work :=
    List.count_pos_iff.mpr (List.mem_append_right _ (List.mem_filterMap.mpr ⟨aio, member, shows⟩))
  unfold pending
  omega

theorem pending_wait {waiting : Key → List Callback} (member : callback ∈ waiting key)
    (http : Http) :
    pending waiting http (.wait key callback) ≠ 0 := by
  have present : 0 < (waiting key).count callback := List.count_pos_iff.mpr member
  simp only [pending, Work.queued]
  omega

/-- What is pending is a task, a call, or a callback that waits. -/
theorem pending_cases {waiting : Key → List Callback} (there : pending waiting http work ≠ 0) :
    (∃ task ∈ http.tasks, task.work = work) ∨ (∃ aio ∈ http.aios, aio.work = some work) ∨
      ∃ key callback, work = .wait key callback ∧ callback ∈ waiting key := by
  by_cases working : (works http).count work = 0
  · cases work with
    | wait key callback =>
      refine .inr (.inr ⟨key, callback, rfl, List.count_pos_iff.mp ?_⟩)
      simp only [pending, Work.queued] at there
      omega
    | read | fetch | readRequest | writeHead | write400 | writeBody => exact absurd working there
  · rcases List.mem_append.mp (List.count_pos_iff.mp (Nat.pos_of_ne_zero working)) with task | aio
    · exact .inl (List.mem_map.mp task)
    · exact .inr (.inl (List.mem_filterMap.mp aio))

/-- What is pending is ready. -/
theorem Sound.ready (sound : Sound good server)
    (there : pending (queues server.cache) server.client work ≠ 0) :
    Ready server.client work := by
  rcases sound.1.keeps.rests work.pk.conn nofun with ⟨held, only, _, ready⟩ | ⟨only, _⟩
  · cases only.unique rfl there
    exact ready
  · have none' := only.unique rfl there
    cases none'

/-- Who reads a part of a body waits for it. -/
theorem Sound.readerWaits (sound : Sound good server) (member : pk ∈ readers server.client) :
    ∃ key, .bodyWio pk ∈ queues server.cache key := by
  obtain ⟨key, _, loads⟩ := sound.1.loads.reads pk member
  exact ⟨key, List.mem_of_mem_head? ((sound.1.loads.agrees key nofun).loads pk loads).2⟩

/-- The package of an aio call has its turn. -/
theorem Sound.aioReady (sound : Sound good server) (member : aio ∈ server.client.aios) :
    ∃ work, work.pk = aio.pk ∧ Ready server.client work := by
  cases shows : aio.work with
  | some work => exact ⟨work, Aio.shown shows, sound.ready (pending_aio member shows _)⟩
  | none =>
    cases aio with
    | readBody reader hfd offset =>
      obtain ⟨key, waits⟩ := sound.readerWaits (List.mem_filterMap.mpr ⟨_, member, rfl⟩)
      exact ⟨.wait key (.bodyWio reader), rfl, sound.ready (pending_wait waits _)⟩
    | readRequest | writeHead | write400 | writeBody => cases shows

theorem Ready.there (ready : Ready http work) : (http.packages work.pk).isSome = true ∧
    Open http work.pk.conn := by
  obtain ⟨cn, done, hpkg, ⟨_, line, _⟩, _, held, _⟩ := ready
  exact ⟨by rw [held]; rfl, line.accepted, line.opened⟩

theorem Ready.proper (ready : Ready http work) : work.Proper := by
  obtain ⟨cn, done, hpkg, _, _, _, fits⟩ := ready
  cases work with
  | read => exact fits
  | wait key callback => exact fits.waits.1
  | fetch | readRequest | writeHead | write400 | writeBody => exact fits.1

/-- Nothing is pending for a connection that is not open. -/
theorem Sound.rests (sound : Sound good server) (conn : Nat) :
    (∃ work, Only (queues server.cache) server.client conn (some work) ∧ work.pk.conn = conn ∧
      Ready server.client work) ∧
        Open server.client conn ∨
      Only (queues server.cache) server.client conn none ∧ Shut server.client conn ∧
      ¬ Open server.client conn := by
  rcases sound.1.keeps.rests conn nofun with ⟨work, only, own, ready⟩ | ⟨only, shut⟩
  · exact .inl ⟨⟨work, only, own, ready⟩, own ▸ ready.there.2⟩
  · refine .inr ⟨only, shut, fun ⟨accepted, opened⟩ => ?_⟩
    obtain ⟨made, _, _, ⟨_, closed, _⟩ | ⟨unaccepted, _⟩⟩ := shut.history
    · exact opened closed
    · exact unaccepted accepted

/-- A package is there from when it is made until it is finalised. -/
theorem Sound.there (sound : Sound good server) (pk : PackagePtr) :
    (server.client.packages pk).isSome = true ↔ Made server.client pk ∧
    .finalised pk ∉ server.client.log := by
  obtain ⟨conn, number⟩ := pk
  unfold Made
  rw [← mem_createdOf, ← mem_finalisedOf]
  dsimp only
  rcases sound.1.keeps.rests conn nofun with ⟨work, _, rfl, cn, done, hpkg, ⟨_, line, _⟩, _⟩ | ⟨_,
    shut⟩
  · rw [line.created, line.finalised, List.mem_range'_1, List.mem_range'_1]
    have remaining := line.remaining
    have accepted := line.accepted
    by_cases root : number = 0
    · obtain ⟨root', there, _⟩ := line.root
      subst root
      simp [there, accepted]
    · by_cases gone : number ≤ done
      · rw [line.gone number (by omega) gone]
        simp only [Option.isSome_none, Bool.false_eq_true, false_iff, not_and]
        omega
      · by_cases within : number < cn.packages
        · obtain ⟨child, there, _⟩ := line.child number (by omega) within
          rw [there]
          simp only [Option.isSome_some, true_iff]
          omega
        · rw [line.beyond number (by omega)]
          simp only [Option.isSome_none, Bool.false_eq_true, false_iff, not_and]
          omega
  · rw [shut.packages number]
    obtain ⟨made, created, _, ⟨_, _, finalised⟩ | ⟨unaccepted, _, rfl, _⟩⟩ := shut.history
    · rw [created, finalised]
      simp only [Option.isSome_none, Bool.false_eq_true, false_iff, not_and, List.mem_append,
        List.mem_range'_1,
        List.mem_singleton]
      omega
    · rw [created]
      simp [unaccepted]

/-- No package is finalised twice, and before a connection is closed all of them are. -/
theorem Sound.finals (sound : Sound good server) (conn : Nat) :
    activatedOf conn server.client.log <+: createdOf conn server.client.log ∧
      History.Throughout (Rearms conn) server.client.log ∧
      (finalisedOf conn server.client.log).Nodup ∧
      (.closed conn ∈ server.client.log →
        finalisedOf conn server.client.log = createdOf conn server.client.log ++ [0]) := by
  rcases sound.1.keeps.rests conn nofun with ⟨work, _, rfl, cn, done, hpkg, ⟨_, line, _⟩, _⟩ | ⟨_,
    shut⟩
  · rw [line.activated, line.created, line.finalised]
    refine ⟨?_, line.rearms, List.nodup_range', fun closed => absurd closed line.opened⟩
    have shorter : activeUpTo cn done ≤ cn.packages - 1 := Nat.min_le_right ..
    rw [show cn.packages - 1 = activeUpTo cn done +
      (cn.packages - 1 - activeUpTo cn done) by omega, ← List.range'_append_1]
    exact List.prefix_append ..
  · obtain ⟨made, created, activated, ⟨_, _, finalised⟩ | ⟨_, opened, rfl, finalised⟩⟩ :=
      shut.history
    · rw [activated, created, finalised]
      refine ⟨List.prefix_rfl, shut.rearms, ?_, fun _ => rfl⟩
      refine List.nodup_append.mpr ⟨List.nodup_range', by simp, fun number member other zero => ?_⟩
      rw [List.mem_range'_1] at member
      rw [List.mem_singleton.mp zero]
      omega
    · rw [activated, created, finalised]
      exact ⟨List.prefix_rfl, shut.rearms, List.nodup_nil, fun closed => absurd closed opened⟩

/-- A root that reads has no child left. -/
theorem Ready.childless (ready : Ready http work) (root : work.pk.number = 0) :
    finalisedOf work.pk.conn http.log = createdOf work.pk.conn http.log ∧
      ∃ root, http.packages work.pk = some root ∧ root.lcg = none := by
  obtain ⟨cn, done, hpkg, runs, _, held, _⟩ := ready
  obtain ⟨whole, last, _⟩ := runs.root root
  obtain ⟨_, line, tied, _⟩ := runs
  refine ⟨by rw [line.finalised, line.created, ← last, Nat.add_sub_cancel], hpkg, held, ?_⟩
  rw [whole] at held
  rw [tied hpkg held, if_neg (by omega)]

/-- In every run one unit of work is in flight for every connection, packages are
activated in the order they are made, deleted once, and not used any more. -/
theorem reachable_conducted (reached : Reachable program server) : Conducted server := by
  have sound := reachable_sound reached
  refine ⟨?_, ?_, fun pk hfd offset member => ⟨?_, ?_⟩, fun conn => (sound.finals conn).1,
    fun conn => (sound.finals conn).2.1, ?_, fun conn => (sound.finals conn).2.2.1,
    fun conn => (sound.finals conn).2.2.2, sound.there, ?_, ?_, ?_,
    ?_⟩
  · intro conn opened
    rcases sound.rests conn with ⟨⟨work, only, own, ready⟩, _⟩ | ⟨_, _, closed⟩
    · exact ⟨work, own, ready.proper, fun other same => by simpa using only other same⟩
    · exact absurd opened closed
  · intro conn shut work own
    rcases sound.rests conn with ⟨_, opened⟩ | ⟨only, _⟩
    · exact absurd opened shut
    · simpa using only work own
  · exact List.count_eq_one_of_mem sound.1.loads.distinct (List.mem_filterMap.mpr ⟨_, member, rfl⟩)
  · exact sound.readerWaits (List.mem_filterMap.mpr ⟨_, member, rfl⟩)
  · intro pk reads
    rcases reads with reads | reads
    · have ready := sound.ready (pending_task reads _)
      exact ready.childless ready.proper
    · have ready : Ready server.client (.readRequest pk) := sound.ready (pending_aio reads rfl _)
      exact ready.childless ready.proper
  · intro task member
    exact (sound.ready (pending_task member _)).there
  · intro aio member
    obtain ⟨work, own, ready⟩ := sound.aioReady member
    exact own ▸ ready.there
  · intro key callback member
    exact (sound.ready (pending_wait member _)).there
  · intro step allowed stopped
    rcases reachable_stops reached allowed stopped with null | ⟨asserted, _⟩
    · cases null
    · cases asserted

/-- The second connection waits for the body too when the reading of it fails. -/
private def sharedFails : List Step :=
  sharing ++ [.complete 0 (.wrote 107) fileOf3, .complete 0 .failed fileOf3]

/-- The first connection goes back to its root, and the second one to its next request. -/
theorem reachable_conducted_failed : ∃ server, Reachable program server ∧
    server.client.tasks = [.read ⟨0, 0⟩, .fetch ⟨1, 2⟩] ∧
    finalisedOf 0 server.client.log = [1] ∧ finalisedOf 1 server.client.log = [1] ∧
    Conducted server := by
  obtain ⟨server, run, shown⟩ :=
    @Run.shown _ _ _ program _
      (fun server => (server.client.tasks, finalisedOf 0 server.client.log,
        finalisedOf 1 server.client.log))
      ([.read ⟨0, 0⟩, .fetch ⟨1, 2⟩], [1], [1]) sharedFails (by decide +kernel) (by decide +kernel)
  obtain ⟨tasks, first, second⟩ := by simpa only [Prod.mk.injEq] using shown
  have reached : Reachable program server := ⟨_, run⟩
  exact ⟨server, reached, tasks, first, second, reachable_conducted reached⟩

end EventDisp.Server
