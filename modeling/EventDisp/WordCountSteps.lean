import EventDisp.WordCount

/-! What one step of the word count can be, one constructor for each place a step is made
from, once the tasks are known to be the ones that were made. -/
namespace EventDisp.WordCount

open Execution
open MPEventDispatcher (Caller handed)

variable {setup : Setup} {rule : MPEventDispatcher.Rule Nat} {state after : WordCount setup}

namespace Setup

variable (setup)

theorem partition_number (partition : Fin setup.splitCount) (x : Nat) :
    (partition + setup.splitCount * x) % setup.splitCount = partition ∧
      (partition + setup.splitCount * x) / setup.splitCount = x := by
  have positive := setup.splitCount_pos
  constructor
  · rw [Nat.add_mul_mod_self_left, Nat.mod_eq_of_lt partition.isLt]
  · rw [Nat.add_mul_div_left _ _ positive, Nat.div_eq_of_lt partition.isLt, Nat.zero_add]

/-- The number of a task says what it is for. -/
@[simp] theorem job_number (job : Job setup.splitCount) : setup.job job.number = job := by
  cases job with
  | map partition =>
    have kind : 3 * (partition : Nat) % 3 = 0 := by omega
    have rest : 3 * (partition : Nat) / 3 = partition := by omega
    simp only [job, Job.number, kind, rest]
    simp [Nat.mod_eq_of_lt partition.isLt]
  | reduce partition x =>
    obtain ⟨first, second⟩ := setup.partition_number partition x
    have kind : (3 * (partition + setup.splitCount * x) + 1) % 3 = 1 := by omega
    have rest : (3 * (partition + setup.splitCount * x) + 1) / 3 =
        partition + setup.splitCount * x := by omega
    simp only [job, Job.number, kind, rest, first, second]
  | checkpoint partition x =>
    obtain ⟨first, second⟩ := setup.partition_number partition x
    have kind : (3 * (partition + setup.splitCount * x) + 2) % 3 = 2 := by omega
    have rest : (3 * (partition + setup.splitCount * x) + 2) / 3 =
        partition + setup.splitCount * x := by omega
    simp only [job, Job.number, kind, rest, first, second]

theorem task_injective : Function.Injective setup.task := by
  intro one two same
  have numbers : one.number = two.number := congrArg UnitTask.number same
  rw [← setup.job_number one, numbers, setup.job_number]

end Setup

/-- What `map` has made by the time it is at a place. -/
def Place.wordsMade (stop : Nat) : Place → Nat
  | .words x => x
  | .checkpoints _ | .ended => stop
  | .waiting | .read | .write _ | .call | .up _ => 0

def Place.checkpointsMade (splitCount : Nat) : Place → Nat
  | .checkpoints x => x
  | .ended => splitCount
  | .waiting | .words _ | .read | .write _ | .call | .up _ => 0

/-- The first word of a partition; the last one is in front of the first of the next. -/
def Setup.first (setup : Setup) (partition : Nat) : Nat := partition * setup.wordsPerSplit

/-- The task has been made, going by where its maker is. -/
def Made (state : WordCount setup) : Job setup.splitCount → Prop
  | .map partition =>
    match state.main with
    | .enqueueing next _ _ => partition < next
    | .waiting | .checking => True
  | .reduce partition x => setup.first partition ≤ x ∧
    x < (state.places (.map partition)).wordsMade (setup.first (partition + 1))
  | .checkpoint partition x => x < (state.places (.map partition)).checkpointsMade setup.splitCount

/-- A caller brings the task of a job. -/
structure Brings (system after : MPEventDispatcher.System setup.splitCount Nat)
    (caller : Caller setup.splitCount) (job : Job setup.splitCount) : Prop where
  log : after.log = system.log ++ [.called caller (some (setup.task job))]
  calls : after.call = Function.update system.call caller (some (some (setup.task job)))
  running : after.running = system.running

/-- A task is at a place, and in no call. -/
structure At (state : WordCount setup) (dispatcher : Fin setup.splitCount)
    (job : Job setup.splitCount) (place : Place) : Prop where
  running : state.system.running dispatcher = some (setup.task job)
  place : state.places job = place
  free : state.system.call (.task dispatcher) = none
  quiet : state.taskDoneSem.threads (.task dispatcher) = .idle

inductive Turn (rule : MPEventDispatcher.Rule Nat) (state : WordCount setup) :
    WordCount setup → Prop where
  | nothing : Turn rule state state
  | silent (system : MPEventDispatcher.System setup.splitCount Nat)
      (events : List (MPEventDispatcher.Event setup.splitCount Nat))
      (log : system.log = state.system.log ++ events)
      (quiet : ∀ event ∈ events, event.silent = true)
      (calls : system.call = state.system.call)
      (running : system.running = state.system.running) :
      Turn rule state { state with system }
  | returned (system : MPEventDispatcher.System setup.splitCount Nat)
      (caller : Caller setup.splitCount) (newTask : UnitTask Nat)
      (held : state.system.call caller = some (some newTask))
      (log : system.log = state.system.log ++ [.returned caller newTask true])
      (calls : system.call = Function.update state.system.call caller none)
      (running : system.running = state.system.running) :
      Turn rule state { state with system }
  | starts (system : MPEventDispatcher.System setup.splitCount Nat)
      (dispatcher : Fin setup.splitCount) (job : Job setup.splitCount) (made : Made state job)
      (unstarted : ∀ other, .dispatched other (.started (setup.task job)) ∉ state.system.log)
      (before : state.system.running dispatcher = none)
      (log : system.log = state.system.log ++ [.dispatched dispatcher (.started (setup.task job))])
      (calls : system.call = state.system.call)
      (running : system.running =
        Function.update state.system.running dispatcher (some (setup.task job))) :
      Turn rule state ({ state with system }.goto job (state.entry job))
  | finishes (system : MPEventDispatcher.System setup.splitCount Nat)
      (dispatcher : Fin setup.splitCount) (job : Job setup.splitCount)
      (ended : state.places job = .ended)
      (before : state.system.running dispatcher = some (setup.task job))
      (free : state.system.call (.task dispatcher) = none)
      (log : system.log = state.system.log ++ [.dispatched dispatcher (.finished (setup.task job))])
      (calls : system.call = state.system.call)
      (running : system.running = Function.update state.system.running dispatcher none) :
      Turn rule state { state with system }
  | mainCalls (system : MPEventDispatcher.System setup.splitCount Nat)
      (partition : Fin setup.splitCount) (start stop : Nat)
      (main : state.main = .enqueueing partition start stop)
      (free : state.system.call (.thread 0) = none)
      (brings : Brings state.system system (.thread 0) (.map partition)) :
      Turn rule state
        { state with
          system
          ranges := Function.update state.ranges partition (start, stop)
          main := .enqueueing (partition + 1) stop (stop + setup.wordsPerSplit) }
  | mainWaits (partition start stop : Nat) (main : state.main = .enqueueing partition start stop)
      (past : setup.splitCount ≤ partition) (idle : state.taskDoneSem.threads (.thread 0) = .idle) :
      Turn rule state
        { state with main := .waiting, taskDoneSem := state.taskDoneSem.goto (.thread 0) .downLock }
  | mainPasses (main : state.main = .waiting)
      (idle : state.taskDoneSem.threads (.thread 0) = .idle) :
      Turn rule state { state with main := .checking }
  | mapCalls (system : MPEventDispatcher.System setup.splitCount Nat)
      (dispatcher partition : Fin setup.splitCount) (x : Nat)
      (place : At state dispatcher (.map partition) (.words x))
      (more : x < (state.ranges partition).2)
      (brings : Brings state.system system (.task dispatcher) (.reduce partition x)) :
      Turn rule state ({ state with system }.goto (.map partition) (.words (x + 1)))
  | mapTurns (dispatcher partition : Fin setup.splitCount) (x : Nat)
      (place : At state dispatcher (.map partition) (.words x))
      (past : (state.ranges partition).2 ≤ x) :
      Turn rule state (state.goto (.map partition) (.checkpoints 0))
  | mapChecks (system : MPEventDispatcher.System setup.splitCount Nat)
      (dispatcher partition : Fin setup.splitCount) (x : Nat)
      (place : At state dispatcher (.map partition) (.checkpoints x)) (more : x < setup.splitCount)
      (brings : Brings state.system system (.task dispatcher) (.checkpoint partition x)) :
      Turn rule state ({ state with system }.goto (.map partition) (.checkpoints (x + 1)))
  | mapEnds (dispatcher partition : Fin setup.splitCount) (x : Nat)
      (place : At state dispatcher (.map partition) (.checkpoints x)) (past : setup.splitCount ≤ x) :
      Turn rule state (state.goto (.map partition) .ended)
  | reads (dispatcher partition : Fin setup.splitCount) (x : Nat)
      (place : At state dispatcher (.reduce partition x) .read) :
      Turn rule state (state.goto (.reduce partition x)
        (.write (state.count (setup.destination x) (setup.offset x))))
  | writes (dispatcher partition : Fin setup.splitCount) (x value : Nat)
      (place : At state dispatcher (.reduce partition x) (.write value)) :
      Turn rule state
        ({ state with
          count := Function.update state.count (setup.destination x)
            (Function.update (state.count (setup.destination x)) (setup.offset x)
              ((value + 1) % 4294967296)) }.goto (.reduce partition x) .ended)
  | ups (dispatcher partition : Fin setup.splitCount) (x : Nat)
      (place : At state dispatcher (.checkpoint partition x) .call) :
      Turn rule state
        ({ state with taskDoneSem := state.taskDoneSem.goto (.task dispatcher) .upLock }.goto
          (.checkpoint partition x) (.up false))
  | upReturns (dispatcher partition : Fin setup.splitCount) (x : Nat) (incremented : Bool)
      (place : At state dispatcher (.checkpoint partition x) (.up incremented)) :
      Turn rule state (state.goto (.checkpoint partition x) .ended)
  | operates (taskDoneSem : Semaphore (Caller setup.splitCount))
      (move : Semaphore.Move (Caller setup.splitCount)) (inside : ∀ who, move ≠ .up who ∧ move ≠ .down who)
      (allowed : state.taskDoneSem.Allowed move) (ran : state.taskDoneSem.exec move = .ok taskDoneSem)
      (unnoted : ∀ dispatcher woken, move = .advance (.task dispatcher) woken →
        state.taskDoneSem.threads (.task dispatcher) = .increment →
        state.system.running dispatcher = none) :
      Turn rule state { state with taskDoneSem }
  | increments (taskDoneSem : Semaphore (Caller setup.splitCount)) (dispatcher : Fin setup.splitCount)
      (woken : Option (Caller setup.splitCount)) (job : Job setup.splitCount)
      (running : state.system.running dispatcher = some (setup.task job))
      (pc : state.taskDoneSem.threads (.task dispatcher) = .increment)
      (ran : state.taskDoneSem.exec (.advance (.task dispatcher) woken) = .ok taskDoneSem) :
      Turn rule state ({ state with taskDoneSem }.goto job (.up true))

section Calls

variable {system next : MPEventDispatcher.System setup.splitCount Nat}
  {caller : Caller setup.splitCount} {job : Job setup.splitCount}

/-- Every task that was handed over is one that was made. -/
def Known (state : WordCount setup) : Prop :=
  ∀ task ∈ handed state.system.log, ∃ job, task = setup.task job ∧ Made state job

private theorem call_idle (free : system.call caller = none) : system.dispatcher.callers caller = .idle := by
  cases pc : system.dispatcher.callers caller <;>
    simp_all [MPEventDispatcher.System.call, MPEventDispatcher.CallerPc.bringing]

private theorem dispatch_ok {move : MPEventDispatcher.Move setup.splitCount Nat}
    (ran : state.dispatch rule move = .ok after) :
    ∃ system, (MPEventDispatcher.program setup.splitCount rule).exec state.system move = .ok system ∧
      after = { state with system } := by
  unfold dispatch at ran
  cases outcome : state.system.exec rule move with
  | ok system =>
    rw [outcome] at ran
    cases ran
    exact ⟨system, outcome, rfl⟩
  | error fault =>
    rw [outcome] at ran
    cases ran

/-- A task that has not been made yet can be brought. -/
private theorem enqueue_brings (ran : state.enqueue rule caller job = .ok after)
    (reached : Reachable (MPEventDispatcher.program setup.splitCount rule) state.system)
    (free : state.system.call caller = none)
    (runs : ∀ dispatcher, caller = .task dispatcher → state.system.running dispatcher ≠ none)
    (known : ∀ task ∈ handed state.system.log, ∃ other, task = setup.task other ∧ other ≠ job) :
    ∃ system, Brings state.system system caller job ∧
      Reachable (MPEventDispatcher.program setup.splitCount rule) system ∧
      after = { state with system } := by
  obtain ⟨system, stepped, rfl⟩ := dispatch_ok ran
  have idle := call_idle free
  have mayCall : state.system.dispatcher.mayCall caller = true := by
    cases caller with
    | thread number => simp [MPEventDispatcher.mayCall, idle]
    | task dispatcher =>
      have running := runs dispatcher rfl
      have executing : (state.system.dispatcher.dispatchers dispatcher).eventLoop.isExecuting = true := by
        change (state.system.dispatcher.dispatchers dispatcher).eventLoop.task ≠ none at running
        cases pc : (state.system.dispatcher.dispatchers dispatcher).eventLoop <;>
          simp_all [EventDispatcher.LoopPc.task, EventDispatcher.LoopPc.isExecuting]
      simp [MPEventDispatcher.mayCall, idle, executing]
  have fresh : (setup.task job).number ∉ (handed state.system.log).map UnitTask.number := by
    intro member
    obtain ⟨task, inside, same⟩ := List.mem_map.mp member
    obtain ⟨other, rfl, different⟩ := known task inside
    apply different
    have numbers : other.number = job.number := same
    rw [← setup.job_number other, numbers, setup.job_number]
  have allowed : (MPEventDispatcher.program setup.splitCount rule).allowed state.system
      (.enqueueTask caller (some (setup.task job))) := ⟨mayCall, fresh⟩
  have after := reached.step allowed stepped
  have shape : system = ⟨state.system.dispatcher.goto caller (.choose (some (setup.task job))),
      state.system.log ++ [.called caller (some (setup.task job))]⟩ := by
    cases stepped
    rfl
  refine ⟨system, ⟨by rw [shape], ?_, by rw [shape]; rfl⟩, after, rfl⟩
  funext who
  rw [shape]
  by_cases own : who = caller <;>
    simp [MPEventDispatcher.System.call, own, MPEventDispatcher.CallerPc.bringing]

/-- A task that was made is not one that is made next. -/
private theorem known_apart (known : Known state) (unmade : ¬ Made state job) :
    ∀ task ∈ handed state.system.log, ∃ other, task = setup.task other ∧ other ≠ job := by
  intro task inside
  obtain ⟨other, rfl, made⟩ := known task inside
  exact ⟨other, rfl, fun same => unmade (same ▸ made)⟩

end Calls

@[simp] theorem begun_system (before : Option (UnitTask Nat)) (dispatcher : Fin setup.splitCount) :
    (state.begun before dispatcher).system = state.system := by
  unfold begun
  split <;> rfl

@[simp] theorem noted_kept (state : WordCount setup) (move : Semaphore.Move (Caller setup.splitCount)) :
    (state.noted move).system = state.system ∧ (state.noted move).taskDoneSem = state.taskDoneSem := by
  unfold noted
  repeat' split
  all_goals exact ⟨rfl, rfl⟩

section Moves

variable (reached : Reachable (MPEventDispatcher.program setup.splitCount rule) state.system)
  (known : Known state)

include reached known in
private theorem main_turn (allowed : state.Allowed .main) (ran : state.mainStep rule = .ok after) :
    Turn rule state after ∧
      Reachable (MPEventDispatcher.program setup.splitCount rule) after.system := by
  obtain ⟨unfinished, free, quiet⟩ := allowed
  unfold mainStep at ran
  cases main : state.main with
  | enqueueing partition start stop =>
    simp only [main] at ran
    split at ran
    · rename_i inside
      have unmade : ¬ Made state (.map ⟨partition, inside⟩) := by simp [Made, main]
      have apart := known_apart known unmade
      obtain ⟨system, brings, reachedNext, rfl⟩ := enqueue_brings ran reached free
        (by intro _ same; cases same) apart
      exact ⟨.mainCalls system ⟨partition, inside⟩ start stop main free brings, reachedNext⟩
    · rename_i outside
      cases ran
      exact ⟨.mainWaits partition start stop main (by omega) quiet, reached⟩
  | waiting =>
    simp only [main] at ran
    cases ran
    exact ⟨.mainPasses main quiet, reached⟩
  | checking => exact absurd main unfinished

include reached known in
private theorem job_turn {dispatcher : Fin setup.splitCount} {job : Job setup.splitCount}
    (running : state.system.running dispatcher = some (setup.task job))
    (live : state.places job ≠ .ended) (free : state.system.call (.task dispatcher) = none)
    (quiet : state.taskDoneSem.threads (.task dispatcher) = .idle)
    (ran : state.jobStep rule dispatcher job = .ok after) :
    Turn rule state after ∧
      Reachable (MPEventDispatcher.program setup.splitCount rule) after.system := by
  have runs : ∀ other, Caller.task dispatcher = .task other → state.system.running other ≠ none := by
    rintro other ⟨⟩
    rw [running]
    exact Option.some_ne_none _
  have here : At state dispatcher job (state.places job) := ⟨running, rfl, free, quiet⟩
  unfold jobStep at ran
  split at ran
  · rename_i partition x place
    rw [place] at here
    split at ran
    · rename_i more
      split at ran
      · have unmade : ¬ Made state (.reduce partition x) := by
          simp [Made, place, Place.wordsMade]
        have apart := known_apart known unmade
        obtain ⟨system, brings, reachedNext, rfl⟩ := enqueue_brings ran reached free runs apart
        exact ⟨.mapCalls system dispatcher partition x here more brings, reachedNext⟩
      · cases ran
    · rename_i past
      cases ran
      exact ⟨.mapTurns dispatcher partition x here (by omega), reached⟩
  · rename_i partition x place
    rw [place] at here
    split at ran
    · rename_i more
      have unmade : ¬ Made state (.checkpoint partition x) := by
        simp [Made, place, Place.checkpointsMade]
      have apart := known_apart known unmade
      obtain ⟨system, brings, reachedNext, rfl⟩ := enqueue_brings ran reached free runs apart
      exact ⟨.mapChecks system dispatcher partition x here more brings, reachedNext⟩
    · rename_i past
      cases ran
      exact ⟨.mapEnds dispatcher partition x here (by omega), reached⟩
  · rename_i partition x place
    rw [place] at here
    split at ran
    · cases ran
      exact ⟨.reads dispatcher partition x here, reached⟩
    · cases ran
  · rename_i partition x value place
    rw [place] at here
    cases ran
    exact ⟨.writes dispatcher partition x value here, reached⟩
  · rename_i partition x place
    rw [place] at here
    cases ran
    exact ⟨.ups dispatcher partition x here, reached⟩
  · rename_i partition x incremented place
    rw [place] at here
    cases ran
    exact ⟨.upReturns dispatcher partition x incremented here, reached⟩
  · cases ran
    exact ⟨.nothing, reached⟩

/-- A running task is one that was made. -/
theorem running_job
    (reached : Reachable (MPEventDispatcher.program setup.splitCount rule) state.system)
    (known : Known state) {dispatcher : Fin setup.splitCount} {task : UnitTask Nat}
    (running : state.system.running dispatcher = some task) : ∃ job, task = setup.task job := by
  obtain ⟨sequenced, brought⟩ := MPEventDispatcher.reachable_brought setup.splitCount_pos reached
  obtain ⟨job, same, _⟩ := known task
    (brought.pushed dispatcher task (MPEventDispatcher.running_pushed sequenced running))
  exact ⟨job, same⟩

include reached in
private theorem caller_turn {caller : Caller setup.splitCount}
    (enabled : state.system.dispatcher.enabled (.caller caller) = true)
    (ran : state.dispatch rule (.caller caller) = .ok after) :
    Turn rule state after ∧
      Reachable (MPEventDispatcher.program setup.splitCount rule) after.system := by
  obtain ⟨system, stepped, rfl⟩ := dispatch_ok ran
  have allowed : (MPEventDispatcher.program setup.splitCount rule).allowed state.system
      (.caller caller) := ⟨enabled, trivial⟩
  refine ⟨?_, reached.step allowed stepped⟩
  obtain ⟨events, log, only⟩ := MPEventDispatcher.caller_log stepped
  have unlike {event : MPEventDispatcher.Event setup.splitCount Nat}
      (last : system.log = state.system.log ++ [event]) : event.silent = true ∨
        ∃ newTask, event = .returned caller newTask true := by
    rw [log] at last
    exact only event (by simp [List.append_cancel_left last])
  cases MPEventDispatcher.turn_shows (MPEventDispatcher.exec_turn allowed stepped) with
  | silent events log quiet calls running => exact .silent system events log quiet calls running
  | returned caller newTask held log calls running =>
    exact .returned system caller newTask held log calls running
  | called other newTask last | started destination task _ last | finished destination task _ _ last =>
    rcases unlike last with silent | ⟨newTask, same⟩
    · cases silent
    · cases same

include reached known in
private theorem loop_turn {dispatcher : Fin setup.splitCount}
    (allowed : state.Allowed (.eventLoop dispatcher))
    (ran : state.exec rule (.eventLoop dispatcher) = .ok after) :
    Turn rule state after ∧
      Reachable (MPEventDispatcher.program setup.splitCount rule) after.system := by
  obtain ⟨enabled, ended⟩ := allowed
  simp only [exec] at ran
  split at ran
  · rename_i middle dispatched
    obtain ⟨system, stepped, rfl⟩ := dispatch_ok dispatched
    cases ran
    have allowed : (MPEventDispatcher.program setup.splitCount rule).allowed state.system
        (.eventLoop dispatcher) := ⟨enabled, trivial⟩
    have next := reached.step allowed stepped
    obtain ⟨sequenced, brought⟩ := MPEventDispatcher.reachable_brought setup.splitCount_pos next
    obtain ⟨events, log, only⟩ := MPEventDispatcher.eventLoop_log stepped
    have own {event : MPEventDispatcher.Event setup.splitCount Nat}
        (last : system.log = state.system.log ++ [event]) : ∃ inner, event = .dispatched dispatcher inner := by
      rw [log] at last
      exact only event (by simp [List.append_cancel_left last])
    refine ⟨?_, by simpa using next⟩
    cases MPEventDispatcher.turn_shows (MPEventDispatcher.exec_turn allowed stepped) with
    | silent events log quiet calls running =>
      have same : begun { state with system } (state.system.running dispatcher) dispatcher =
          { state with system } := by
        unfold begun
        simp only [running]
        cases state.system.running dispatcher <;> rfl
      rw [same]
      exact .silent system events log quiet calls running
    | called other newTask last =>
      obtain ⟨_, wrong⟩ := own last
      cases wrong
    | returned other newTask _ last =>
      obtain ⟨_, wrong⟩ := own last
      cases wrong
    | started destination task before last calls running =>
      obtain ⟨_, wrong⟩ := own last
      cases wrong
      have inside : task ∈ handed system.log := by
        apply brought.pushed dispatcher
        apply MPEventDispatcher.running_pushed sequenced
        simp [running]
      have old : task ∈ handed state.system.log := by simpa [last, handed] using inside
      obtain ⟨job, rfl, made⟩ := known task old
      have begins : begun { state with system } (state.system.running dispatcher) dispatcher =
          { state with system }.goto job (state.entry job) := by
        simp [begun, before, running, Setup.task, entry]
      rw [begins]
      refine .starts system dispatcher job made ?_ before last calls running
      intro other
      exact MPEventDispatcher.started_once sequenced last
    | finished destination task before free last calls running =>
      obtain ⟨_, wrong⟩ := own last
      cases wrong
      obtain ⟨job, rfl⟩ := running_job reached known before
      have same : begun { state with system } (state.system.running dispatcher) dispatcher =
          { state with system } := by
        simp [begun, before]
      rw [same]
      exact .finishes system dispatcher job (by simpa [Setup.task] using ended _ before) before free
        last calls running
  · cases ran

include reached known in
private theorem semaphore_turn {move : Semaphore.Move (Caller setup.splitCount)}
    (allowed : state.Allowed (.semaphore move))
    (ran : state.exec rule (.semaphore move) = .ok after) :
    Turn rule state after ∧
      Reachable (MPEventDispatcher.program setup.splitCount rule) after.system := by
  obtain ⟨inside, permitted⟩ := allowed
  have others : ∀ who, move ≠ .up who ∧ move ≠ .down who := by
    intro who
    cases move <;> simp_all
  obtain ⟨sameSystem, sameSem⟩ := state.noted_kept move
  simp only [exec, operate, sameSem] at ran
  cases stepped : state.taskDoneSem.exec move with
  | error overflow =>
    rw [stepped] at ran
    cases ran
  | ok taskDoneSem =>
    rw [stepped] at ran
    cases ran
    refine ⟨?_, by simpa [sameSystem] using reached⟩
    have unnoted (quiet : state.noted move = state) (idle : ∀ dispatcher woken,
        move = .advance (.task dispatcher) woken →
        state.taskDoneSem.threads (.task dispatcher) = .increment →
        state.system.running dispatcher = none) :
        Turn rule state { state.noted move with taskDoneSem } := by
      rw [quiet]
      exact .operates taskDoneSem move others permitted stepped idle
    cases move with
    | up | down => exact inside.elim
    | wake who => exact unnoted rfl (by rintro _ _ ⟨⟩)
    | advance who woken =>
      cases who with
      | thread number => exact unnoted rfl (by rintro _ _ ⟨⟩)
      | task dispatcher =>
        by_cases pc : state.taskDoneSem.threads (.task dispatcher) = .increment
        · cases running : state.system.running dispatcher with
          | none =>
            refine unnoted (by simp [noted, pc, running]) ?_
            rintro _ _ ⟨⟩ _
            exact running
          | some task =>
            obtain ⟨job, rfl⟩ := running_job reached known running
            have notes : state.noted (.advance (.task dispatcher) woken) = state.goto job (.up true) := by
              simp [noted, pc, running, Setup.task]
            rw [notes]
            exact .increments taskDoneSem dispatcher woken job running pc stepped
        · refine unnoted ?_ ?_
          · unfold noted
            split
            · rename_i same
              cases same
              split
              · rename_i increments _
                exact absurd increments pc
              · rfl
            all_goals rfl
          · rintro _ _ ⟨⟩ increments
            exact absurd increments pc

include reached known in
/-- Every step is one of these, and the dispatchers take one of their own. -/
theorem exec_turn {move : Move setup.splitCount} (allowed : (program rule setup).allowed state move)
    (ran : (program rule setup).exec state move = .ok after) :
    Turn rule state after ∧
      Reachable (MPEventDispatcher.program setup.splitCount rule) after.system := by
  have step : state.exec rule move = .ok after := ran
  cases move with
  | main => exact main_turn reached known allowed step
  | task dispatcher =>
    obtain ⟨task, running, live, free, quiet⟩ := allowed
    obtain ⟨job, rfl⟩ := running_job reached known running
    simp only [exec, running] at step
    have numbered : setup.job (setup.task job).number = job := setup.job_number job
    rw [numbered] at step live
    exact job_turn reached known running live free quiet step
  | caller caller => exact caller_turn reached allowed step
  | eventLoop dispatcher => exact loop_turn reached known allowed step
  | semaphore move => exact semaphore_turn reached known allowed step

end Moves

end EventDisp.WordCount
