import EventDisp.HttpConnections
import EventDisp.HttpGrowth

/-! Connections on which something has failed: nothing is looked up or written for them
any more, and one from which nothing can be read is closed in the same step. -/
namespace EventDisp.Server

open Execution

variable {server after : Server} {conn index : Nat} {pk : PackagePtr} {log more : List Event}
  {event : Event}
variable {good : KeyUse → Text → Prop} {work : Work} {aio : Aio}

/-- A read or a write has failed. -/
def ConnST.failed : ConnST → Bool
  | .closingR | .closingW | .closing => true
  | .listening | .connecting | .connected | .closed => false

/-- Nothing can be read any more. -/
def ConnST.closes : ConnST → Bool
  | .closingR | .closing => true
  | .listening | .connecting | .connected | .closingW | .closed => false

/-- The event looks up a key for a package, or is that something of an answer has been
written. -/
def Event.answers : Event → Bool
  | .asked .. | .written .. => true
  | .accepted _ | .created _ | .activated _ | .rearmed _ | .finalised _ | .closed _ | .reserved ..
  | .loading .. | .put .. | .cancelled .. | .delivered .. | .aborted _ | .released .. => false

/-- A status other than the first one is that of a failure. -/
theorem status_failed : (status conn log).failed = true ↔ status conn log ≠ .connected := by
  induction log using List.reverseRecOn with
  | nil => simp [status, ConnST.failed]
  | append_singleton log event ih =>
    rw [status_concat]
    cases event with
    | aborted pk =>
      simp only [statusAfter]
      split
      · split <;> split <;> simp [ConnST.failed]
      · exact ih
    | accepted | created | activated | rearmed | finalised | closed | asked | reserved | loading
    | put | cancelled | delivered | released | written => exact ih

/-- A connection does not recover. -/
theorem failed_append (failed : (status conn log).failed = true) (more : List Event) :
    (status conn (log ++ more)).failed = true := by
  induction more using List.reverseRecOn with
  | nil => simpa using failed
  | append_singleton more event ih =>
    rw [← List.append_assoc, status_concat]
    cases event with
    | aborted pk =>
      simp only [statusAfter]
      split
      · split <;> split <;> rfl
      · exact ih
    | accepted | created | activated | rearmed | finalised | closed | asked | reserved | loading
    | put | cancelled | delivered | released | written => exact ih

/-- Once something has failed for a package, its connection is not what it was. -/
theorem aborted_failed (failed : .aborted pk ∈ log) : status pk.conn log ≠ .connected := by
  obtain ⟨earlier, later, rfl⟩ := List.append_of_mem failed
  rw [List.append_cons]
  refine status_failed.mp (failed_append ?_ later)
  rw [status_concat, statusAfter, if_pos rfl]
  split <;> split <;> rfl

/-- Only the failure of the root lets nothing be read any more. -/
private theorem closes_root (before : (status conn log).closes = false)
    (now : (status conn (log ++ [event])).closes = true) :
    event = .aborted ⟨conn, 0⟩ := by
  rw [status_concat] at now
  cases event with
  | aborted pk =>
    obtain ⟨owner, number⟩ := pk
    simp only [statusAfter] at now
    split at now
    · rename_i own
      split at now
      · rename_i root
        rw [own, root]
      · split at now
        · rename_i closing
          rw [closing] at before
          cases before
        · cases now
    · rw [before] at now
      cases now
  | accepted | created | activated | rearmed | finalised | closed | asked | reserved | loading | put
  | cancelled | delivered | released | written =>
    have same : (status conn log).closes = true := now
    rw [before] at same
    cases same

/-- What is read from no more is never read from again. -/
private theorem closes_append (lawful : History.Throughout (Lawful good) (log ++ more))
    (closes : (status conn log).closes = true) : (status conn (log ++ more)).closes = true := by
  induction more using List.reverseRecOn with
  | nil => simpa using closes
  | append_singleton more event ih =>
    rw [← List.append_assoc] at lawful ⊢
    obtain ⟨before, last⟩ := History.throughout_concat.mp lawful
    have still := ih before
    rw [status_concat]
    cases event with
    | aborted pk =>
      simp only [statusAfter]
      split
      · rename_i own
        obtain ⟨_, running⟩ := last
        rw [own] at running
        split at running
        · rcases running.2 with connected | closingW
          · rw [connected] at still
            cases still
          · rw [closingW] at still
            cases still
        · rw [running.2] at still
          cases still
      · exact still
    | accepted | created | activated | rearmed | finalised | closed | asked | reserved | loading
    | put | cancelled | delivered | released | written => exact still

/-- What can still happen on a connection on which something has failed. -/
structure Ceased (conn : Nat) (server after : Server) : Prop where
  failed : (status conn after.client.log).failed = true
  /-- Since then nothing has been looked up for the connection, or written on it. -/
  silent : ∃ more, after.client.log = server.client.log ++ more ∧ ∀ event ∈ more,
    event.conn = conn → event.answers = false
  /-- Nothing is being written, nor read from a file. -/
  idle : ∀ aio ∈ after.client.aios, aio.pk.conn = conn → ∃ pk, aio = .readRequest pk
  /-- As long as a child is left, one is going to be fetched for. -/
  left : ∀ number, .created ⟨conn, number⟩ ∈ after.client.log →
    .finalised ⟨conn, number⟩ ∉ after.client.log →
    ∃ pk, pk.conn = conn ∧ .fetch pk ∈ after.client.tasks
  /-- Whoever is fetched for is finalised. -/
  fetched : ∀ index pk around, after.client.tasks[index]? = some (.fetch pk) → pk.conn = conn →
    ∃ next event, exec after (.run index around) = .ok next ∧ next.client.log = after.client.log ++
    [.finalised pk, event] ∧
      (event = .rearmed ⟨conn, 0⟩ ∨ ∃ other, event = .activated other)

/-- In the step in which nothing can be read any more from a connection, no child of it is
left, and the root is finalised and the connection closed. -/
def Shuts (server after : Server) : Prop :=
  ∀ conn before event later, after.client.log = server.client.log ++ before ++ event :: later →
    (status conn (server.client.log ++ before)).closes = false →
    (status conn (server.client.log ++ before ++ [event])).closes = true →
    event = .aborted ⟨conn, 0⟩ ∧
      finalisedOf conn (server.client.log ++ before) = createdOf conn
      (server.client.log ++ before) ∧
      .finalised ⟨conn, 0⟩ ∈ later ∧ .closed conn ∈ later

/-- What becomes of connections on which something fails. -/
structure Ceases (server : Server) : Prop where
  shown : ∀ conn cn, server.client.conns conn = some cn → cn.cst = status conn server.client.log
  reads : ∀ conn, Open server.client conn → (status conn server.client.log).closes = false
  later : ∀ conn, (status conn server.client.log).failed = true → ∀ after,
    Leads program server after → Ceased conn server after
  closing : ∀ step after, program.allowed server step → exec server step = .ok after →
    Shuts server after

/-- A connection that is open can be read from. -/
private theorem Sound.serves (sound : Sound good server) (opened : Open server.client conn) :
    (status conn server.client.log).closes = false := by
  rcases sound.rests conn with ⟨⟨work, _, rfl, cn, done, hpkg, ⟨found, _⟩, serves, _⟩, _⟩ | ⟨_, _,
    closed⟩
  · rw [← sound.1.tells.conns _ cn found]
    rcases serves with connected | closingW
    · rw [connected]
      rfl
    · rw [closingW]
      rfl
  · exact absurd opened closed

/-- What waits for a connection on which something has failed is a read of the root, or a
fetch. -/
private theorem Ready.waits (ready : Ready server.client work) (sound : Sound good server)
    (failed : (status work.pk.conn server.client.log).failed = true) :
    work = .read work.pk ∨ work = .readRequest work.pk ∨ work = .fetch work.pk := by
  obtain ⟨cn, done, hpkg, ⟨found, _⟩, _, _, fits⟩ := ready
  have other : cn.cst ≠ .connected := by
    rw [sound.1.tells.conns _ cn found]
    exact status_failed.mp failed
  cases work with
  | read => exact .inl rfl
  | readRequest => exact .inr (.inl rfl)
  | fetch => exact .inr (.inr rfl)
  | writeHead | write400 | writeBody => exact absurd fits.2.1 other
  | wait key callback => exact absurd fits.waits.2 other

private theorem Sound.idle (sound : Sound good server)
    (failed : (status conn server.client.log).failed = true) (member : aio ∈ server.client.aios)
    (own : aio.pk.conn = conn) :
    ∃ pk, aio = .readRequest pk := by
  subst own
  cases shows : aio.work with
  | some work =>
    have shown := Aio.shown shows
    have ready := sound.ready (pending_aio member shows _)
    have waits := ready.waits sound (by rw [shown]; exact failed)
    cases aio with
    | readRequest pk => exact ⟨pk, rfl⟩
    | writeHead | write400 | writeBody =>
      cases shows
      simp at waits
    | readBody => cases shows
  | none =>
    cases aio with
    | readBody pk hfd offset =>
      obtain ⟨key, waits⟩ := sound.readerWaits (List.mem_filterMap.mpr ⟨_, member, rfl⟩)
      have impossible := (sound.ready (pending_wait waits _)).waits sound failed
      simp at impossible
    | readRequest | writeHead | write400 | writeBody => cases shows

private theorem Sound.left (sound : Sound good server)
    (failed : (status conn server.client.log).failed = true) {number : Nat}
    (made : .created ⟨conn, number⟩ ∈ server.client.log)
    (kept : .finalised ⟨conn, number⟩ ∉ server.client.log) :
    ∃ pk, pk.conn = conn ∧ .fetch pk ∈ server.client.tasks := by
  rw [← mem_createdOf] at made
  rw [← mem_finalisedOf] at kept
  rcases sound.rests conn with ⟨⟨work, only, rfl, ready⟩, _⟩ | ⟨_, shut, _⟩
  · have root (zero : work.pk.number = 0) : False := by
      rw [(ready.childless zero).1] at kept
      exact kept made
    rcases ready.waits sound failed with reads | reads | fetches
    · have proper := ready.proper
      rw [reads] at proper
      exact (root proper).elim
    · have proper := ready.proper
      rw [reads] at proper
      exact (root proper).elim
    · refine ⟨work.pk, rfl, ?_⟩
      have there : pending (queues server.cache) server.client work ≠ 0 := by
        rw [only work rfl]
        simp
      rw [fetches] at there
      rcases pending_cases there with ⟨task, inside, shows⟩ | ⟨aio, _, shows⟩ | ⟨_, _, shows, _⟩
      · cases task with
        | read => cases shows
        | fetch pk =>
          simp only [Task.work, Work.fetch.injEq] at shows
          exact shows ▸ inside
      · cases aio <;> cases shows
      · cases shows
  · obtain ⟨count, created, _, ⟨_, _, finalised⟩ | ⟨_, _, rfl, _⟩⟩ := shut.history
    · rw [finalised] at kept
      rw [created] at made
      exact absurd (List.mem_append_left _ made) kept
    · rw [created] at made
      simp at made

/-- A child that is finalised hands on to the next one, or to the root. -/
private theorem final_child {http : Http} {cn : Conn} {done : Nat} (runs : Runs http pk cn done)
    (child : pk.number ≠ 0) (around : Surroundings) :
    ∃ after event, svrHttpFinal around pk http = .ok after ∧
      after.log = http.log ++ [.finalised pk, event] ∧ (event = .rearmed ⟨pk.conn, 0⟩ ∨ ∃ other,
      event = .activated other) := by
  obtain ⟨hpkg, there, ppg, followed⟩ := runs.held
  obtain ⟨_, line, _⟩ := runs
  obtain ⟨_, _, nsg⟩ := followed child
  rw [if_neg child] at ppg
  split at nsg
  · refine ⟨(((http.deletePackage pk).emit (.finalised pk)).enqueue
      (.fetch ⟨pk.conn, done + 2⟩)).emit
      (.activated ⟨pk.conn, done + 2⟩), .activated ⟨pk.conn, done + 2⟩, ?_, ?_, .inr ⟨_, rfl⟩⟩
    · simp only [svrHttpFinal, Http.package, there, ppg, nsg, bind, Except.bind, pure, Except.pure]
    · simp [Http.enqueue]
  · obtain ⟨root, rooted, _⟩ := line.root
    have apart : (⟨pk.conn, 0⟩ : PackagePtr) ≠ pk :=
      fun same => child (congrArg PackagePtr.number same).symm
    refine ⟨((((http.deletePackage pk).emit (.finalised pk)).setPackage ⟨pk.conn,
      0⟩ { root with lcg := none }).enqueue
      (.read ⟨pk.conn, 0⟩)).emit (.rearmed ⟨pk.conn, 0⟩), .rearmed ⟨pk.conn, 0⟩, ?_, ?_, .inl rfl⟩
    · simp only [svrHttpFinal, Http.package, there, ppg, nsg, emit_packages, deletePackage_packages,
        if_neg apart, rooted, bind,
        Except.bind, pure, Except.pure]
    · simp [Http.enqueue]

/-- On a connection on which something has failed, a fetch finalises its package. -/
private theorem Sound.fetched (sound : Sound good server)
    (failed : (status conn server.client.log).failed = true)
    (found : server.client.tasks[index]? = some (.fetch pk)) (own : pk.conn = conn)
    (around : Surroundings) :
    ∃ next event, exec server (.run index around) = .ok next ∧
    next.client.log = server.client.log ++ [.finalised pk, event] ∧
      (event = .rearmed ⟨conn, 0⟩ ∨ ∃ other, event = .activated other) := by
  subst own
  obtain ⟨cn, done, hpkg, hand, _, ⟨child, _⟩, _⟩ :=
    sound.takeTask found (without_task server.client index) rfl rfl
  obtain ⟨open', _⟩ := id hand.runs
  have closes : cn.closesWrite = true := by
    have shown := hand.status
    rcases hand.serves with connected | closingW
    · rw [connected] at shown
      exact absurd shown.symm (status_failed.mp failed)
    · simp [Conn.closesWrite, closingW]
  obtain ⟨after, event, ran, grown, next⟩ := final_child hand.runs child around
  refine ⟨⟨server.cache, after⟩, event, ?_, grown, next⟩
  have there := hand.there
  simp only [Task.work, Work.pk] at there open' ran
  simp only [exec, found, runTask, svrHttpFetch, Http.package, Http.connection, there, open',
    closes, if_true, apart, ran, bind,
    Except.bind, pure, Except.pure]

/-- Once something has failed on a connection, nothing is looked up or written for it. -/
private theorem ceased (reached : Reachable program server)
    (failed : (status conn server.client.log).failed = true) (leads : Leads program server after) :
    Ceased conn server after := by
  have sound := reachable_sound (reached.leads leads)
  obtain ⟨more, grown⟩ := (leads_extend leads).log
  have still : (status conn after.client.log).failed = true := grown ▸ failed_append failed more
  refine ⟨still, ⟨more, grown.symm, ?_⟩, fun aio member own => sound.idle still member own,
    fun number => sound.left still, fun index pk around found own =>
      sound.fetched still found own around⟩
  intro event member own
  obtain ⟨before, later, rfl⟩ := List.append_of_mem member
  have last :=
    sound.1.lawful (server.client.log ++ before) event later (by rw [← grown, List.append_assoc])
  have other := status_failed.mp (failed_append failed before)
  subst own
  cases event with
  | asked pk => exact absurd last.2.2.1 other
  | written pk => exact absurd last.2.1 other
  | accepted | created | activated | rearmed | finalised | closed | reserved | loading | put
  | cancelled | delivered | aborted | released => rfl

/-- The step in which nothing can be read any more closes the connection. -/
private theorem shuts (reached : Reachable program after) : Shuts server after := by
  intro conn before event later grown readable closes
  have sound := reachable_sound reached
  obtain rfl := closes_root readable closes
  obtain ⟨opened, rooted⟩ := sound.1.lawful (server.client.log ++ before) _ later grown
  rw [if_pos rfl] at rooted
  obtain ⟨childless, _⟩ := rooted
  have still : (status conn after.client.log).closes = true := by
    have lawful := sound.1.lawful
    rw [grown, List.append_cons] at lawful ⊢
    exact closes_append lawful closes
  have aborted : .aborted ⟨conn, 0⟩ ∈ after.client.log := by simp [grown]
  have accepted : .accepted conn ∈ after.client.log := sound.1.tells.known _ aborted
  -- The connection is not open any more, since it could be read from.
  rcases sound.rests conn with ⟨_, opened⟩ | ⟨_, shut, _⟩
  · rw [sound.serves opened] at still
    cases still
  · obtain ⟨made, created, _, ⟨_, closed, finalised⟩ | ⟨unaccepted, _⟩⟩ := shut.history
    · have rooted : Event.finalised ⟨conn, 0⟩ ∈ after.client.log := by
        rw [← mem_finalisedOf, finalised]
        simp
      have unmade : Event.finalised ⟨conn, 0⟩ ∉ server.client.log ++ before := by
        rw [← mem_finalisedOf, childless]
        intro member
        have inside : 0 ∈ createdOf conn after.client.log := by
          rw [grown, createdOf, numbers_append]
          exact List.mem_append_left _ member
        rw [created] at inside
        simp at inside
      rw [grown, List.mem_append, List.mem_cons] at rooted closed
      refine ⟨rfl, childless, ?_, ?_⟩
      · simpa [unmade] using rooted
      · simpa [opened] using closed
    · exact absurd accepted unaccepted

/-- In every run, a connection on which something has failed is only left. -/
theorem reachable_ceases (reached : Reachable program server) : Ceases server := by
  have sound := reachable_sound reached
  exact ⟨sound.1.tells.conns, fun conn => sound.serves, fun conn failed after leads =>
    ceased reached failed leads,
    fun step after allowed ran => shuts (reached.step allowed ran)⟩

/-- A request for a file that is not there, whose answer cannot be written. -/
private def unwritable : List Step :=
  asking "GET /a HTTP/1.1\r\n\r\nGET /b HTTP/1.1\r\n\r\n".toList bare ++ [.complete 0 .failed bare]

/-- The second request is left. -/
theorem reachable_ceases_run : ∃ server, Reachable program server ∧
    (status 0 server.client.log).failed = true ∧ server.client.tasks = [.fetch ⟨0, 2⟩] ∧
    Ceases server := by
  obtain ⟨server, ran, failed, left⟩ : ∃ server, program.replay program.start unwritable =
    .ok server ∧
      (status 0 server.client.log).failed = true ∧ server.client.tasks = [.fetch ⟨0, 2⟩] :=
        ⟨_, rfl, rfl, rfl⟩
  have reached : Reachable program server := .replayed (by decide) ran
  exact ⟨server, reached, failed, left, reachable_ceases reached⟩

end EventDisp.Server
