import EventDisp.MPEventDispatcherOrder

/-! What a client of several dispatchers sees of a step: a call, a return, the start or the
end of a task, or nothing; and what the dispatchers promise it about them. -/
namespace EventDisp

namespace EventDispatcher

variable {ρ τ : Type} [DecidableEq ρ] [DecidableEq τ]

/-- The task that is being run. -/
def LoopPc.task : LoopPc τ → Option (UnitTask τ)
  | .executing nextTask => some nextTask
  | .lock | .waitTest | .waitTestDying | .wait | .returnTest | .returnTestEmpty | .front
  | .executeTest _ | .popLock _ | .pop _ | .popCount _ | .delete _ | .returned => none

/-- The event says nothing of the start or the end of a task. -/
def Event.silent : Event ρ τ → Bool
  | .started _ | .finished _ => false
  | .called .. | .returned .. | .pushed _ | .discarded _ | .skipped _ | .removed _ | .deleted _
  | .stopped _ | .resumed _ | .dying | .loopReturned => true

omit [DecidableEq ρ] in
/-- The event loop starts a task, ends it, or does nothing that shows. -/
theorem eventLoop_shows {dispatcher next : EventDispatcher ρ τ} {events : List (Event ρ τ)}
    (ran : dispatcher.eventLoopStep = .ok (next, events)) :
    (∃ task, dispatcher.eventLoop = .executeTest task ∧ events = [.started task] ∧
      next.eventLoop = .executing task) ∨
    (∃ task, dispatcher.eventLoop = .executing task ∧ events = [.finished task] ∧
      next.eventLoop = .popLock task) ∨
    dispatcher.eventLoop.task = none ∧ next.eventLoop.task = none ∧
      ∀ event ∈ events, event.silent = true := by
  unfold eventLoopStep at ran
  cases pc : dispatcher.eventLoop with
  | executing task =>
    simp only [pc] at ran
    cases ran
    exact .inr (.inl ⟨task, rfl, rfl, rfl⟩)
  | executeTest task =>
    simp only [pc] at ran
    split at ran
    · cases ran
      exact .inr (.inr ⟨rfl, rfl, by simp [Event.silent]⟩)
    · cases ran
      exact .inl ⟨task, rfl, rfl, rfl⟩
  | lock | waitTest | waitTestDying | wait | returnTest | returnTestEmpty | front | popLock | pop
  | popCount | delete | returned =>
    simp only [pc] at ran
    repeat' split at ran
    all_goals cases ran
    all_goals
      refine .inr (.inr ⟨rfl, ?_, by simp [Event.silent]⟩)
      simp only [pc, LoopPc.task]

theorem callerStep_silent (dispatcher : EventDispatcher ρ τ) (caller : ρ) :
    ∀ event ∈ (dispatcher.callerStep caller).2, event.silent = true := by
  unfold callerStep
  cases dispatcher.callers caller with
  | enqueueDiscard newTask => cases newTask <;> simp [Event.silent]
  | enqueueTest newTask =>
    dsimp only
    split <;> simp
  | resumeTest =>
    dsimp only
    split <;> simp
  | idle | enqueueLock | enqueuePush | enqueueCount | stopLock | stopWrite | resumeLock
  | resumeWrite => simp [Event.silent]

end EventDispatcher

namespace MPEventDispatcher

open Execution

variable {τ : Type} [DecidableEq τ] {concurrentTaskCount : Nat} {rule : Rule τ}
variable {system after : System concurrentTaskCount τ}
  {destination : Fin concurrentTaskCount} {task : UnitTask τ}

/-- What the call brings that a caller is in. -/
def CallerPc.bringing : CallerPc concurrentTaskCount τ → Option (Option (UnitTask τ))
  | .idle => none
  | .choose newTask => some newTask
  | .forward newTask _ | .inside newTask _ => some (some newTask)

/-- The call that a caller is in. -/
def System.call (system : System concurrentTaskCount τ) (caller : Caller concurrentTaskCount) :
    Option (Option (UnitTask τ)) :=
  (system.dispatcher.callers caller).bringing

/-- The task that a dispatcher is running. -/
def System.running (system : System concurrentTaskCount τ) (destination : Fin concurrentTaskCount) :
    Option (UnitTask τ) :=
  (system.seenAt destination).dispatcher.eventLoop.task

/-- An event that no client looks for. -/
def Event.silent : Event concurrentTaskCount τ → Bool
  | .dispatched _ event => event.silent
  | .called .. | .returned .. => false

/-- What a client sees of a step. -/
inductive Shows (system after : System concurrentTaskCount τ) : Prop where
  | silent (events : List (Event concurrentTaskCount τ)) (log : after.log = system.log ++ events)
      (quiet : ∀ event ∈ events, event.silent = true) (calls : after.call = system.call)
      (running : after.running = system.running)
  | called (caller : Caller concurrentTaskCount) (newTask : Option (UnitTask τ))
      (log : after.log = system.log ++ [.called caller newTask])
      (calls : after.call = Function.update system.call caller (some newTask))
      (running : after.running = system.running)
  | returned (caller : Caller concurrentTaskCount) (newTask : UnitTask τ)
      (held : system.call caller = some (some newTask))
      (log : after.log = system.log ++ [.returned caller newTask true])
      (calls : after.call = Function.update system.call caller none)
      (running : after.running = system.running)
  | started (destination : Fin concurrentTaskCount) (task : UnitTask τ)
      (before : system.running destination = none)
      (log : after.log = system.log ++ [.dispatched destination (.started task)])
      (calls : after.call = system.call)
      (running : after.running = Function.update system.running destination (some task))
  | finished (destination : Fin concurrentTaskCount) (task : UnitTask τ)
      (before : system.running destination = some task)
      (free : system.call (.task destination) = none)
      (log : after.log = system.log ++ [.dispatched destination (.finished task)])
      (calls : after.call = system.call)
      (running : after.running = Function.update system.running destination none)

omit [DecidableEq τ] in
private theorem call_goto (caller : Caller concurrentTaskCount) (pc : CallerPc concurrentTaskCount τ)
    (log : List (Event concurrentTaskCount τ)) :
    System.call ⟨system.dispatcher.goto caller pc, log⟩ =
      Function.update system.call caller pc.bringing := by
  funext who
  by_cases own : who = caller <;> simp [System.call, own]

omit [DecidableEq τ] in
private theorem running_updated (moved : EventDispatcher (Caller concurrentTaskCount) τ)
    (events : List (EventDispatcher.Event (Caller concurrentTaskCount) τ)) :
    (system.updated destination moved events).running =
      Function.update system.running destination moved.eventLoop.task := by
  funext other
  by_cases own : other = destination
  · subst own
    simp [System.running]
  · simp [System.running, updated_seenAt_other own, own]

/-- Every step of the dispatchers is one of these to their clients. -/
theorem turn_shows (turn : Turn rule system after) : Shows system after := by
  cases turn with
  | nothing => exact .silent [] (by simp) (by simp) rfl rfl
  | call caller newTask => exact .called caller newTask rfl (call_goto ..) rfl
  | choose caller newTask pc =>
    obtain ⟨dispatchers, callers⟩ := chooseDestination_frame rule system.dispatcher newTask.id
    refine .silent [] (by simp) (by simp) ?_ (by
      funext other
      simp [System.running, seenAt_chosen])
    funext who
    by_cases own : who = caller
    · simp [System.call, own, pc, CallerPc.bringing]
    · simp [System.call, own, callers]
  | forward caller newTask taskDestination pc =>
    refine .silent _ rfl (by simp [Event.silent, EventDispatcher.Event.silent]) ?_ ?_
    · funext who
      by_cases own : who = caller
      · simp [System.call, System.goto, own, pc, CallerPc.bringing]
      · simp [System.call, System.goto, own]
    · rw [running_updated]
      exact Function.update_eq_self _ _
  | advance caller newTask taskDestination pc enabled =>
    refine .silent _ rfl ?_ rfl ?_
    · intro event member
      obtain ⟨inner, inside, rfl⟩ := List.mem_map.mp member
      exact EventDispatcher.callerStep_silent _ caller inner inside
    · rw [running_updated, (EventDispatcher.callerStep_frame _ caller).2.1]
      exact Function.update_eq_self _ _
  | finish caller newTask taskDestination pc ended =>
    refine .returned caller newTask (by simp [System.call, pc, CallerPc.bringing]) rfl
      (call_goto ..) ?_
    funext other
    simp [System.running]
  | eventLoop own moved events enabled ended ran =>
    rcases EventDispatcher.eventLoop_shows ran with ⟨task, before, rfl, now⟩ | ⟨task, before, rfl, now⟩ |
      ⟨before, now, quiet⟩
    · refine .started own task (by simp [System.running, before, EventDispatcher.LoopPc.task]) rfl rfl ?_
      rw [running_updated, now]
      rfl
    · have idle := ended (by simp [before, EventDispatcher.LoopPc.isExecuting])
      refine .finished own task (by simp [System.running, before, EventDispatcher.LoopPc.task])
        (by simp [System.call, idle, CallerPc.bringing]) rfl rfl ?_
      rw [running_updated, now]
      rfl
    · refine .silent _ rfl ?_ rfl ?_
      · intro event member
        obtain ⟨inner, inside, rfl⟩ := List.mem_map.mp member
        exact quiet inner inside
      · rw [running_updated, now, ← before]
        exact Function.update_eq_self _ _

/-- The events that one dispatcher shows. -/
private theorem dispatch_log {dispatcher : MPEventDispatcher concurrentTaskCount τ}
    {own : Fin concurrentTaskCount} {move : EventDispatcher.Move (Caller concurrentTaskCount) τ}
    {next : MPEventDispatcher concurrentTaskCount τ × List (Event concurrentTaskCount τ)}
    (ran : dispatcher.dispatch own move = .ok next) :
    ∃ events, next.2 = events.map (.dispatched own) ∧ ∃ moved,
      (dispatcher.dispatchers own).step move = .ok (moved, events) := by
  unfold dispatch at ran
  cases stepped : (dispatcher.dispatchers own).step move with
  | ok outcome =>
    rw [stepped] at ran
    cases ran
    exact ⟨outcome.2, rfl, outcome.1, rfl⟩
  | error fault =>
    rw [stepped] at ran
    cases ran

private theorem exec_log {move : Move concurrentTaskCount τ}
    (ran : (program concurrentTaskCount rule).exec system move = .ok after) :
    ∃ next, system.dispatcher.step rule move = .ok next ∧ after.log = system.log ++ next.2 := by
  simp only [program, System.exec] at ran
  cases stepped : system.dispatcher.step rule move with
  | ok next =>
    rw [stepped] at ran
    cases ran
    exact ⟨next, rfl, rfl⟩
  | error fault =>
    rw [stepped] at ran
    cases ran

/-- In the middle of a call nobody calls, and no task starts or ends. -/
theorem caller_log {caller : Caller concurrentTaskCount}
    (ran : (program concurrentTaskCount rule).exec system (.caller caller) = .ok after) :
    ∃ events, after.log = system.log ++ events ∧
      ∀ event ∈ events, event.silent = true ∨ ∃ newTask, event = .returned caller newTask true := by
  obtain ⟨next, stepped, log⟩ := exec_log ran
  refine ⟨next.2, log, ?_⟩
  simp only [step, callerStep] at stepped
  cases pc : system.dispatcher.callers caller with
  | idle =>
    rw [pc] at stepped
    cases stepped
    simp
  | choose newTask =>
    rw [pc] at stepped
    cases newTask <;> cases stepped
    simp
  | forward newTask taskDestination =>
    rw [pc] at stepped
    dsimp only at stepped
    split at stepped
    · obtain ⟨events, shape, moved, inner⟩ := dispatch_log stepped
      cases inner
      simp [shape, Event.silent, EventDispatcher.Event.silent]
    · cases stepped
  | inside newTask taskDestination =>
    rw [pc] at stepped
    dsimp only at stepped
    split at stepped
    · cases stepped
      simp
    · obtain ⟨events, shape, moved, inner⟩ := dispatch_log stepped
      have same : ((system.dispatcher.dispatchers taskDestination).callerStep caller).2 = events :=
        congrArg Prod.snd (Except.ok.inj inner)
      rw [shape]
      intro event member
      obtain ⟨own, inside, rfl⟩ := List.mem_map.mp member
      exact .inl (EventDispatcher.callerStep_silent _ caller own (by rw [same]; exact inside))

/-- An event loop shows what happens at its dispatcher. -/
theorem eventLoop_log {own : Fin concurrentTaskCount}
    (ran : (program concurrentTaskCount rule).exec system (.eventLoop own) = .ok after) :
    ∃ events, after.log = system.log ++ events ∧ ∀ event ∈ events, ∃ inner,
      event = .dispatched own inner := by
  obtain ⟨next, stepped, log⟩ := exec_log ran
  obtain ⟨events, shape, _⟩ := dispatch_log stepped
  refine ⟨next.2, log, ?_⟩
  rw [shape]
  intro event member
  obtain ⟨inner, _, rfl⟩ := List.mem_map.mp member
  exact ⟨inner, rfl⟩

omit [DecidableEq τ] in
private theorem running_executes (running : system.running destination = some task) :
    (system.dispatcher.dispatchers destination).eventLoop = .executing task := by
  change (system.dispatcher.dispatchers destination).eventLoop.task = _ at running
  cases pc : (system.dispatcher.dispatchers destination).eventLoop <;>
    simp_all [EventDispatcher.LoopPc.task]

/-- A running task was pushed where it runs. -/
theorem running_pushed (sequenced : Sequenced rule system)
    (running : system.running destination = some task) :
    task ∈ EventDispatcher.pushedTasks (system.seenAt destination).log := by
  obtain ⟨sound, _, accepts⟩ :=
    (EventDispatcher.reachable_ready (sequenced.reached destination)).refines
  have place : (system.seenAt destination).dispatcher.eventLoop = .executing task :=
    running_executes running
  have knows := sound.loopKnows
  simp only [EventDispatcher.LoopKnows, place] at knows
  exact (accepts.queued_not_removed (List.mem_of_head? knows)).1

/-- Two running tasks with one id are one. -/
theorem running_alone (sequenced : Sequenced rule system) {one two : Fin concurrentTaskCount}
    {first second : UnitTask τ} (here : system.running one = some first)
    (there : system.running two = some second) (same : first.id = second.id) : one = two := by
  have routedFirst := executing_routed sequenced (running_executes here)
  have routedSecond := executing_routed sequenced (running_executes there)
  exact Fin.ext (routedFirst.unique (same ▸ routedSecond))

/-- What is brought or pushed has been handed over in a call. -/
structure Brought (system : System concurrentTaskCount τ) : Prop where
  calls : ∀ who task, system.call who = some (some task) → task ∈ handed system.log
  pushed : ∀ destination task,
    task ∈ EventDispatcher.pushedTasks (system.seenAt destination).log → task ∈ handed system.log

omit [DecidableEq τ] in
private theorem handed_append (log more : List (Event concurrentTaskCount τ)) :
    handed (log ++ more) = handed log ++ handed more :=
  List.filterMap_append ..

private theorem brought_turn (sequenced : Sequenced rule system) (brought : Brought system)
    (turn : Turn rule system after) : Brought after := by
  obtain ⟨calls, pushed⟩ := brought
  constructor
  · intro who task call
    cases turn_shows turn with
    | silent _ log _ same | started _ _ _ log same | finished _ _ _ _ log same =>
      rw [log, handed_append]
      exact List.mem_append_left _ (calls who task (same ▸ call))
    | returned caller newTask _ log changed =>
      rw [changed, Function.update_apply] at call
      rw [log, handed_append]
      split at call
      · cases call
      · exact List.mem_append_left _ (calls who task call)
    | called caller newTask log changed =>
      rw [changed, Function.update_apply] at call
      rw [log, handed_append]
      split at call
      · obtain rfl := Option.some.inj call
        exact List.mem_append_right _ (by simp [handed])
      · exact List.mem_append_left _ (calls who task call)
  · intro destination task inside
    have grown {more : List (Event concurrentTaskCount τ)} (old : task ∈ handed system.log) :
        task ∈ handed (system.log ++ more) := by
      rw [handed_append]
      exact List.mem_append_left _ old
    let Known (other : Fin concurrentTaskCount)
      (seen : EventDispatcher.System (Caller concurrentTaskCount) τ) : Prop :=
      task ∈ EventDispatcher.pushedTasks seen.log → task ∈ handed system.log
    have known : ∀ other, Known other (system.seenAt other) := fun other => pushed other task
    cases turn with
    | nothing => exact pushed destination task inside
    | call => exact grown (known destination (by simpa using inside))
    | finish => exact grown (known destination (by simpa using inside))
    | choose =>
      rw [seenAt_chosen] at inside
      exact known destination inside
    | forward caller newTask taskDestination pc =>
      refine grown (updated_all Known ?_ (fun other _ => known other) destination inside)
      intro sent
      exact known taskDestination (by simpa using sent)
    | advance caller newTask taskDestination pc enabled =>
      obtain ⟨_, _, _, only⟩ := advance_keeps sequenced pc enabled
      refine grown (updated_all Known ?_ (fun other _ => known other) destination inside)
      intro sent
      rw [EventDispatcher.pushedTasks_append, List.mem_append] at sent
      rcases sent with before | now
      · exact known taskDestination before
      · rw [only task now]
        exact calls caller newTask (by simp [System.call, pc, CallerPc.bringing])
    | eventLoop own moved events enabled ended ran =>
      obtain ⟨_, _, none⟩ := EventDispatcher.eventLoop_keeps (sequenced.unstopped own) ran
      refine grown (updated_all Known ?_ (fun other _ => known other) destination inside)
      intro sent
      exact known own (by simpa [EventDispatcher.pushedTasks_append, none] using sent)

theorem reachable_brought (positive : 0 < concurrentTaskCount)
    (reached : Reachable (program concurrentTaskCount rule) system) :
    Sequenced rule system ∧ Brought system := by
  apply reached.invariant fun system => Sequenced rule system ∧ Brought system
  · exact ⟨.start rule positive, nofun, nofun⟩
  · rintro state move next ⟨sequenced, brought⟩ allowed ran
    have turn := exec_turn allowed ran
    exact ⟨sequenced_turn sequenced turn, brought_turn sequenced brought turn⟩

section Order

variable {earlier later before rest : List (Event concurrentTaskCount τ)} {first second : UnitTask τ}
  {caller caller' : Caller concurrentTaskCount} {answer : Bool}

/-- Where a task starts, in the log of its dispatcher. -/
private theorem started_split (sequenced : Sequenced rule system)
    (log : system.log = earlier ++ .dispatched destination (.started task) :: later) :
    SerialQueue.Accepts (EventDispatcher.queueLog (logOf destination earlier) ++
        .started task :: EventDispatcher.queueLog (logOf destination later))
      (system.seenAt destination).dispatcher.toServer := by
  have accepts := (EventDispatcher.reachable_ready (sequenced.reached destination)).refines.accepts
  have split : EventDispatcher.queueLog (system.seenAt destination).log =
      EventDispatcher.queueLog (logOf destination earlier) ++
        .started task :: EventDispatcher.queueLog (logOf destination later) := by
    simp only [System.seenAt, log, logOf_split]
    exact EventDispatcher.queueLog_split _ _ rfl
  exact split ▸ accepts

/-- A task that starts was pushed where it starts, and had not started before. -/
theorem started_pushed (sequenced : Sequenced rule system)
    (log : system.log = earlier ++ .dispatched destination (.started task) :: later) :
    task ∈ EventDispatcher.pushedTasks (logOf destination earlier) ∧
      .dispatched destination (.started task) ∉ earlier := by
  obtain ⟨pushed, _, unstarted, _⟩ := (started_split sequenced log).started_at
  refine ⟨pushed, ?_⟩
  intro member
  apply unstarted
  refine List.mem_filterMap.mpr ⟨.started task, List.mem_filterMap.mpr ⟨.started task, ?_, rfl⟩, rfl⟩
  exact mem_logOf.mpr member

/-- Where a task was pushed is where the rule sends it. -/
private theorem pushed_routed (sequenced : Sequenced rule system)
    (log : system.log = earlier ++ later)
    (pushed : task ∈ EventDispatcher.pushedTasks (logOf destination earlier)) :
    Routed rule system.dispatcher task.id destination := by
  apply sequenced.routed destination task
  right
  simp only [System.seenAt, log, logOf_append, EventDispatcher.pushedTasks_append, List.mem_append]
  exact .inl pushed

/-- No task starts twice, at no dispatcher. -/
theorem started_once {other : Fin concurrentTaskCount} (sequenced : Sequenced rule system)
    (log : system.log = earlier ++ .dispatched destination (.started task) :: later) :
    .dispatched other (.started task) ∉ earlier := by
  intro member
  obtain ⟨pushed, unstarted⟩ := started_pushed sequenced log
  obtain ⟨front, back, rfl⟩ := List.append_of_mem member
  have whole : system.log = front ++ .dispatched other (.started task) ::
      (back ++ .dispatched destination (.started task) :: later) := by simp [log]
  obtain ⟨there, _⟩ := started_pushed sequenced whole
  have here := pushed_routed sequenced log pushed
  obtain rfl : other = destination := Fin.ext ((pushed_routed sequenced whole there).unique here)
  exact unstarted member

/-- A task whose call had returned when the call with another of its id began has run to
its end when the other one starts. -/
theorem finished_before (sequenced : Sequenced rule system)
    (log : system.log = before ++ .called caller (some second) :: rest)
    (returned : .returned caller' first answer ∈ before) (same : first.id = second.id)
    (started : .dispatched destination (.started second) ∈ system.log) :
    .dispatched destination (.finished first) ∈ system.log := by
  -- Both were pushed at this dispatcher, the first one before the call.
  obtain ⟨front, back, shape⟩ := List.append_of_mem returned
  have returnedAt : system.log = front ++ .returned caller' first answer ::
      (back ++ .called caller (some second) :: rest) := by simp [log, shape]
  obtain ⟨there, pushedEarly⟩ := sequenced.settled _ _ _ returnedAt
  have pushedFirst : first ∈ EventDispatcher.pushedTasks (logOf there before) := by
    rw [shape, logOf_append, EventDispatcher.pushedTasks_append]
    exact List.mem_append_left _ pushedEarly
  obtain ⟨earlier, later, startedAt⟩ := List.append_of_mem started
  obtain ⟨pushedSecond, _⟩ := started_pushed sequenced startedAt
  have routedFirst := pushed_routed sequenced log pushedFirst
  have routedSecond := pushed_routed sequenced startedAt pushedSecond
  obtain rfl : there = destination := Fin.ext ((same ▸ routedFirst).unique routedSecond)
  -- The second one was not, so it is behind the first in the queue.
  have unpushed : second ∉ EventDispatcher.pushedTasks (logOf there before) :=
    sequenced.settled _ _ _ log second rfl there
  have parts : EventDispatcher.pushedTasks (logOf there system.log) =
      EventDispatcher.pushedTasks (logOf there before) ++
        EventDispatcher.pushedTasks (logOf there (.called caller (some second) :: rest)) := by
    rw [log, logOf_append, EventDispatcher.pushedTasks_append]
  have inside : second ∈ EventDispatcher.pushedTasks (logOf there system.log) := by
    rw [startedAt, logOf_append, EventDispatcher.pushedTasks_append]
    exact List.mem_append_left _ pushedSecond
  rw [parts] at inside
  obtain ⟨middle, last, tail⟩ := List.append_of_mem ((List.mem_append.mp inside).resolve_left unpushed)
  have order : EventDispatcher.pushedTasks (logOf there system.log) =
      (EventDispatcher.pushedTasks (logOf there before) ++ middle) ++ second :: last := by
    rw [parts, tail, List.append_assoc]
  have accepts := started_split sequenced startedAt
  have split : EventDispatcher.queueLog (logOf there system.log) =
      EventDispatcher.queueLog (logOf there earlier) ++
        .started second :: EventDispatcher.queueLog (logOf there later) := by
    rw [startedAt, logOf_split]
    exact EventDispatcher.queueLog_split _ _ rfl
  rw [EventDispatcher.pushedTasks, split] at order
  obtain ⟨_, finished | skipped⟩ := accepts.started_in_order order (List.mem_append_left _ pushedFirst)
  · rw [startedAt]
    exact List.mem_append_left _ (mem_logOf.mp (finished_mem finished))
  · exact absurd skipped (not_skipped sequenced split)

end Order

end MPEventDispatcher
end EventDisp
