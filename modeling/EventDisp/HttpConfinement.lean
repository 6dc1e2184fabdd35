import EventDisp.HttpConnections
import EventDisp.MPEventDispatcherOrder

/-! The cache is not protected by a lock. Only tasks of one group touch it, and no two
tasks of one group run at the same time. What runs under the group of a connection's
reads, on whatever thread, does without the cache. What the handlers of two dispatchers
share is the cache, so that a run, which makes one step after another, stands for handlers
that run at the same time, as long as no two of them touch it. -/
namespace EventDisp.Server

open Execution

variable {server : Server} {cache next : Cache Key Text Callback} {http : Http} {pk : PackagePtr}
  {around : Surroundings}
variable {dispatchers : Nat} {cfd : Nat → Nat} {step : Step}

/-- `CacheTaskID`. -/
def cacheTaskID : Nat := 0

/-- `ReadTaskID`, given `NDISPATCHER` and the file descriptor of the connection. -/
def readTaskID (dispatchers cfd : Nat) : Nat :=
  if dispatchers > 1 then cfd % (dispatchers - 1) + 1 else 0

/-- The `TaskGroupID` a task is enqueued with. -/
def Task.group (dispatchers : Nat) (cfd : Nat → Nat) : Task → Nat
  | .read pk => readTaskID dispatchers (cfd pk.conn)
  | .fetch _ => cacheTaskID

/-- The `TaskGroupID` of the task that runs the callback of a read or write. -/
def Aio.group (dispatchers : Nat) (cfd : Nat → Nat) : Aio → Nat
  | .readRequest pk => readTaskID dispatchers (cfd pk.conn)
  | .writeHead .. | .write400 .. | .readBody .. | .writeBody .. => cacheTaskID

/-- The `TaskGroupID` under which the step is made; the main thread, which accepts
connections, runs no task. -/
def Step.group (dispatchers : Nat) (cfd : Nat → Nat) (server : Server) : Step → Option Nat
  | .accept _ => none
  | .run index _ => server.client.tasks[index]?.map (Task.group dispatchers cfd)
  | .complete index _ _ => server.client.aios[index]?.map (Aio.group dispatchers cfd)

/-- The step is the same with any other cache, and leaves it as it is. -/
def LeavesCache (server : Server) (step : Step) : Prop :=
  ∀ cache, exec ⟨cache, server.client⟩ step = (exec server step).map fun after =>
    ⟨cache, after.client⟩

/-- The computation is the same with any other cache, and leaves it as it is. -/
private def Leaves (handler : Server → Except Fault Server) (http : Http) : Prop :=
  ∀ cache next, handler ⟨next, http⟩ = (handler ⟨cache, http⟩).map fun after => ⟨next, after.client⟩

private theorem apart_leaves (handler : Http → Except Fault Http) (http : Http) :
    Leaves (apart handler) http := by
  intro cache next
  unfold apart
  dsimp only
  cases handler http <;> rfl

/-- A failed read of the root does without the cache. -/
private theorem finalAio_leaves (http : Http) {hpkg : HPKG} (there : http.packages pk = some hpkg)
    (state : hpkg.hst = .reading ∨ hpkg.hst = .parsing) (around : Surroundings) :
    Leaves (svrHttpFinalAio around pk) http := by
  intro cache next
  simp only [svrHttpFinalAio, Http.package, there, bind, Except.bind]
  cases http.connection pk.conn with
  | error => rfl
  | ok cn =>
    dsimp only
    split
    · rfl
    · rcases state with state | state
      all_goals
        rw [state]
        exact apart_leaves (svrHttpFinal around pk) _ cache next

private theorem parseAio_leaves (around : Surroundings) (pk : PackagePtr) (bytes : Text)
    (http : Http) :
    Leaves (svrHttpParseAio around pk bytes) http := by
  intro cache next
  simp only [svrHttpParseAio, bind, Except.bind]
  cases http.package pk with
  | error => rfl
  | ok hpkg =>
    dsimp only
    cases http.connection pk.conn with
    | error => rfl
    | ok cn =>
      dsimp only
      split
      · exact apart_leaves (svrHttpFinal around pk) http cache next
      · split
        · exact finalAio_leaves _ (Function.update_self ..) (.inr rfl) around cache next
        · exact apart_leaves (svrHttpParse around pk) _ cache next

/-- Where the server touches its cache. -/
structure Confined (dispatchers : Nat) (cfd : Nat → Nat) (server : Server) : Prop where
  calls : ∀ step, program.allowed server step → ¬ LeavesCache server step →
    step.group dispatchers cfd server = some cacheTaskID
  reads : 1 < dispatchers → ∀ step conn, program.allowed server step →
    step.group dispatchers cfd server = some (readTaskID dispatchers (cfd conn)) →
    LeavesCache server step
  /-- A package whose read has not completed has not touched the cache. -/
  states : ∀ pk, .readRequest pk ∈ server.client.aios → ∃ hpkg,
    server.client.packages pk = some hpkg ∧ hpkg.hst = .reading
  /-- The dispatchers run one task at a time that touches the cache. -/
  alone : ∀ rule system, Reachable (MPEventDispatcher.program dispatchers rule) system →
    ∀ one two task other, (system.dispatcher.dispatchers one).eventLoop = .executing task →
    (system.dispatcher.dispatchers two).eventLoop = .executing other → task.id = cacheTaskID →
      other.id = cacheTaskID →
    one = two ∧ task = other

/-- The group of reads is another one when there are several dispatchers. -/
private theorem readTaskID_ne (several : 1 < dispatchers) (cfd : Nat) :
    readTaskID dispatchers cfd ≠ cacheTaskID := by
  simp [readTaskID, cacheTaskID, several]

private theorem Sound.reading {good : KeyUse → Text → Prop} (sound : Sound good server)
    (member : .readRequest pk ∈ server.client.aios) :
    ∃ hpkg, server.client.packages pk = some hpkg ∧ hpkg.hst = .reading := by
  obtain ⟨cn, done, hpkg, _, _, held, fits⟩ : Ready server.client (.readRequest pk) :=
    sound.ready (pending_aio member rfl _)
  exact ⟨hpkg, held, fits.2⟩

/-- What does not run under the group of the cache leaves it alone. -/
private theorem leaves_or_grouped (reached : Reachable program server) (dispatchers : Nat)
    (cfd : Nat → Nat) (step : Step) :
    LeavesCache server step ∨ step.group dispatchers cfd server = some cacheTaskID := by
  cases step with
  | accept around => exact .inl (apart_leaves (accept around) server.client server.cache)
  | run index around =>
    cases found : server.client.tasks[index]? with
    | none =>
      refine .inl fun cache => ?_
      simp only [exec, found]
      rfl
    | some task =>
      cases task with
      | fetch pk => exact .inr (by simp [Step.group, found, Task.group])
      | read pk =>
        refine .inl fun cache => ?_
        simp only [exec, found]
        exact apart_leaves (svrHttpRead around pk) _ server.cache cache
  | complete index completion around =>
    cases found : server.client.aios[index]? with
    | none =>
      refine .inl fun cache => ?_
      simp only [exec, found]
      rfl
    | some aio =>
      cases aio with
      | writeHead | write400 | readBody | writeBody =>
        exact .inr (by simp [Step.group, found, Aio.group])
      | readRequest pk =>
        refine .inl fun cache => ?_
        obtain ⟨hpkg, there, reading⟩ :=
          (reachable_sound reached).reading (List.mem_of_getElem? found)
        simp only [exec, found]
        cases completion with
        | read bytes stale => exact parseAio_leaves around pk bytes _ server.cache cache
        | wrote | failed =>
          exact finalAio_leaves { server.client with aios := server.client.aios.eraseIdx index }
            there (.inl reading) around
            server.cache cache

/-- In every run the cache is touched by tasks of one group only, and by one at a time. -/
theorem reachable_confined (positive : 0 < dispatchers) (cfd : Nat → Nat)
    (reached : Reachable program server) :
    Confined dispatchers cfd server := by
  refine ⟨?_, ?_, fun pk => (reachable_sound reached).reading, ?_⟩
  · intro step _ touches
    exact (leaves_or_grouped reached dispatchers cfd step).resolve_left touches
  · intro several step conn _ group
    apply (leaves_or_grouped reached dispatchers cfd step).resolve_right
    intro grouped
    rw [group, Option.some.injEq] at grouped
    exact readTaskID_ne several _ grouped
  · intro rule system running one two task other first second own also
    have sequenced := MPEventDispatcher.reachable_sequenced positive running
    have here := MPEventDispatcher.executing_routed sequenced first
    have there := MPEventDispatcher.executing_routed sequenced second
    rw [own] at here
    rw [also] at there
    obtain rfl : one = two := Fin.ext (here.unique there)
    rw [first] at second
    exact ⟨rfl, by simpa using second⟩

/-- Whether a part of the body is being loaded. -/
private def loading (server : Server) : Option Bool :=
  (server.cache.find "a#0".toList).map CacheEntry.isReserved

/-- Two dispatchers: one connection's body is being read, and from a third connection the first
request. When the body cannot be read, the slot for it is given up. -/
theorem reachable_confined_failed : ∃ server, Reachable program server ∧
    Step.group 2 id server (.complete 1 .failed fileOf3) = some cacheTaskID ∧
    ¬ LeavesCache server (.complete 1 .failed fileOf3) ∧
    Step.group 2 id server (.complete 2 .failed fileOf3) = some 1 ∧ Confined 2 id server := by
  obtain ⟨server, run, shown⟩ :=
    @Run.shown _ _ _ program _
      (fun server => (Step.group 2 id server (.complete 1 .failed fileOf3),
        Step.group 2 id server (.complete 2 .failed fileOf3), loading server,
        (exec server (.complete 1 .failed fileOf3)).map loading |>.toOption))
      (some cacheTaskID, some 1, some true, some (some false)) (sharing ++ [.accept fileOf3])
      (by decide +kernel) (by decide +kernel)
  obtain ⟨reads, other, before, after⟩ := by simpa only [Prod.mk.injEq] using shown
  have reached : Reachable program server := ⟨_, run⟩
  refine ⟨server, reached, reads, ?_, other, reachable_confined (by decide) id reached⟩
  intro leaves
  have same : exec server (.complete 1 .failed fileOf3) = _ := leaves server.cache
  cases outcome : exec server (.complete 1 .failed fileOf3) with
  | error => simp [outcome, Except.map, Except.toOption] at after
  | ok next =>
    simp only [outcome, Except.map, Except.ok.injEq] at same
    have kept : next.cache = server.cache := by rw [same]
    have given : loading next = some false := by
      simpa [outcome, Except.map, Except.toOption] using after
    simp only [loading, kept] at given before
    rw [given] at before
    cases before

end EventDisp.Server
