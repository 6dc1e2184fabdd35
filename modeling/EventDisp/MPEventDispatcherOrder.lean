import EventDisp.MPEventDispatcherRouting

/-! Tasks with one id: all dispatchers together keep them in the order their
calls return. -/
namespace EventDisp.MPEventDispatcher

open Execution

variable {τ : Type} [DecidableEq τ] {concurrentTaskCount : Nat} {rule : Rule τ}
variable {system : System concurrentTaskCount τ} {destination : Fin concurrentTaskCount}

/-- What the dispatchers promise about tasks with one id. -/
structure SequentialConsistency (rule : Rule τ) (system : System concurrentTaskCount τ) : Prop where
  /-- Tasks with one id go to one dispatcher. -/
  oneDestination : ∀ one two caller caller' task task',
    .dispatched one (.called caller (some task)) ∈ system.log →
    .dispatched two (.called caller' (some task')) ∈ system.log → task.id = task'.id → one = two
  /-- No two of them are being executed. -/
  oneAtATime : ∀ one two task task', (system.dispatcher.dispatchers one).eventLoop =
    .executing task →
    (system.dispatcher.dispatchers two).eventLoop = .executing task' → task.id = task'.id →
    one = two ∧ task = task'
  /-- When the call for the first returned before the call for the second began,
  the first has run to its end when the second starts. -/
  inOrder : ∀ before caller first answer between caller' second rest,
    system.log = before ++ .returned caller first answer ::
    (between ++ .called caller' (some second) :: rest) →
    first.id = second.id → ∀ destination earlier later,
    system.log = earlier ++ .dispatched destination (.started second) :: later →
    .dispatched destination (.finished first) ∈ earlier
  /-- No step goes wrong but that of a call with a null pointer. -/
  continues : ∀ move, (program concurrentTaskCount rule).allowed system move →
    (∃ after, (program concurrentTaskCount rule).exec system move = .ok after) ∨
      ∃ caller, move = .caller caller ∧ system.dispatcher.callers caller = .choose none

omit [DecidableEq τ] in
theorem logOf_split (earlier later : List (Event concurrentTaskCount τ))
    (destination : Fin concurrentTaskCount)
    (event : EventDispatcher.Event (Caller concurrentTaskCount) τ) :
    logOf destination (earlier ++ .dispatched destination event :: later) =
      logOf destination earlier ++ event :: logOf destination later := by
  simp [logOf]

omit [DecidableEq τ] in
theorem mem_logOf {log : List (Event concurrentTaskCount τ)}
    {event : EventDispatcher.Event (Caller concurrentTaskCount) τ} :
    event ∈ logOf destination log ↔ .dispatched destination event ∈ log := by
  simp only [logOf, List.mem_filterMap]
  constructor
  · rintro ⟨shown, member, picked⟩
    cases shown with
    | dispatched there inner =>
      simp only [Option.ite_none_right_eq_some, Option.some.injEq] at picked
      obtain ⟨rfl, rfl⟩ := picked
      exact member
    | called | returned => cases picked
  · exact fun member => ⟨_, member, by simp⟩

private theorem dispatch_returns (sequenced : Sequenced rule system) (own : Fin concurrentTaskCount)
    (move : EventDispatcher.Move (Caller concurrentTaskCount) τ) :
    ∃ next, system.dispatcher.dispatch own move = .ok next := by
  have sound := (EventDispatcher.reachable_ready (sequenced.reached own)).refines.sound
  obtain ⟨moved, events, stepped⟩ := EventDispatcher.step_returns sound move
  have ran : (system.dispatcher.dispatchers own).step move = .ok (moved, events) := stepped
  simp only [dispatch, ran]
  exact ⟨_, rfl⟩

theorem step_continues (sequenced : Sequenced rule system)
    (move : Move concurrentTaskCount τ) :
    (∃ next, system.dispatcher.step rule move = .ok next) ∨
      ∃ caller, move = .caller caller ∧ system.dispatcher.callers caller = .choose none := by
  cases move with
  | enqueueTask | stop | resume => exact .inl ⟨_, rfl⟩
  | eventLoop own => exact .inl (dispatch_returns sequenced own .eventLoop)
  | caller caller =>
    have located := sequenced.located caller
    simp only [step, callerStep]
    cases pc : system.dispatcher.callers caller with
    | idle => exact .inl ⟨_, rfl⟩
    | choose newTask =>
      cases newTask with
      | none => exact .inr ⟨caller, rfl, pc⟩
      | some newTask => exact .inl ⟨_, rfl⟩
    | forward newTask taskDestination =>
      simp only [Located, pc] at located
      simp only [located.2.2, dite_true]
      exact .inl ⟨_, rfl⟩
    | inside newTask taskDestination =>
      by_cases ended : (system.dispatcher.dispatchers taskDestination).callers caller = .idle
      · simp only [ended, if_true]
        exact .inl ⟨_, rfl⟩
      · simp only [ended, if_false]
        exact .inl (dispatch_returns sequenced taskDestination (.caller caller))

/-- A task that is running was sent where it runs. -/
theorem executing_routed (sequenced : Sequenced rule system) {task : UnitTask τ}
    (executing : (system.dispatcher.dispatchers destination).eventLoop = .executing task) :
    Routed rule system.dispatcher task.id destination := by
  obtain ⟨sound, _, accepts⟩ :=
    (EventDispatcher.reachable_ready (sequenced.reached destination)).refines
  have front : (system.seenAt destination).dispatcher.taskQueue.head? = some task := by
    have knows := sound.loopKnows
    have place : (system.seenAt destination).dispatcher.eventLoop = .executing task := executing
    simpa only [EventDispatcher.LoopKnows, place] using knows
  exact sequenced.routed destination task
    (.inr (accepts.queued_not_removed (List.mem_of_head? front)).1)

/-- A dispatcher that nobody destroys skips no task. -/
theorem not_skipped (sequenced : Sequenced rule system) {task : UnitTask τ}
    {earlier later : List (SerialQueue.Event (UnitTask τ))}
    (shape : EventDispatcher.queueLog (system.seenAt destination).log = earlier ++ later) :
    task ∉ SerialQueue.skipped earlier := by
  intro skipped
  have accounts :=
    (EventDispatcher.reachable_ready (sequenced.reached destination)).refines.accepts.accounts
  rw [shape] at accounts
  have dying := accounts.skipping task (by simp [skipped])
  have living := (sequenced.unstopped destination).living
  simp only [EventDispatcher.toServer] at dying
  rw [living] at dying
  cases dying

omit [DecidableEq τ] in
theorem finished_mem {ρ : Type} {log : List (EventDispatcher.Event ρ τ)} {task : UnitTask τ}
    (finished : task ∈ SerialQueue.finished (EventDispatcher.queueLog log)) :
    .finished task ∈ log := by
  obtain ⟨shown, inside, kind⟩ := List.mem_filterMap.mp finished
  obtain ⟨event, member, shows⟩ := List.mem_filterMap.mp inside
  cases event <;> simp_all [EventDispatcher.Event.queueEvent?] <;> subst shown <;> simp_all

/-- **Tasks with one id keep their order.** For any number of dispatchers and both
rules, in every interleaving: they all go to one dispatcher, no two of them are
executed at once, and one whose call had returned before another's began has run
to its end when the other starts. -/
theorem sequential_consistency (positive : 0 < concurrentTaskCount)
    (reached : Reachable (program concurrentTaskCount rule) system) :
    SequentialConsistency rule system := by
  have sequenced := reachable_sequenced positive reached
  refine ⟨?_, ?_, ?_, ?_⟩
  · intro one two caller caller' task task' first second same
    have here :=
      sequenced.routed one task (.inl (List.mem_filterMap.mpr ⟨_, mem_logOf.mpr first, rfl⟩))
    have there :=
      sequenced.routed two task' (.inl (List.mem_filterMap.mpr ⟨_, mem_logOf.mpr second, rfl⟩))
    exact Fin.ext (here.unique (same ▸ there))
  · intro one two task task' first second same
    have here := executing_routed sequenced first
    have there := executing_routed sequenced second
    obtain rfl : one = two := Fin.ext (here.unique (same ▸ there))
    rw [first] at second
    exact ⟨rfl, by simpa using second⟩
  · intro before caller first answer between caller' second rest log same destination earlier later
      started
    have accepts :=
      (EventDispatcher.reachable_ready (sequenced.reached destination)).refines.accepts
    -- The first was pushed before its call returned, where the rule sends both.
    obtain ⟨there, pushedFirst⟩ := sequenced.settled _ _ _ log
    have split : EventDispatcher.queueLog (system.seenAt destination).log =
        EventDispatcher.queueLog (logOf destination earlier) ++
          .started second :: EventDispatcher.queueLog (logOf destination later) := by
      simp only [System.seenAt, started, logOf_split]
      exact EventDispatcher.queueLog_split _ _ rfl
    have pushedSecond : second ∈ EventDispatcher.pushedTasks (system.seenAt destination).log := by
      have inside := (split ▸ accepts).started_at.1
      simp only [EventDispatcher.pushedTasks, split, SerialQueue.project_append, List.mem_append]
      exact .inl inside
    have routedSecond := sequenced.routed destination second (.inr pushedSecond)
    have routedFirst := sequenced.routed there first (.inr (by
      simp only [System.seenAt, log, logOf_append, EventDispatcher.pushedTasks_append,
        List.mem_append]
      exact .inl pushedFirst))
    obtain rfl : there = destination := Fin.ext ((same ▸ routedFirst).unique routedSecond)
    -- The second was not pushed before its call began, so it comes after the first.
    have whole : (before ++ .returned caller first answer :: between) ++ .called caller'
      (some second) :: rest =
      system.log := by simp [log]
    have unpushed := sequenced.settled _ _ _ whole.symm second rfl there
    have parts : EventDispatcher.pushedTasks (system.seenAt there).log =
        EventDispatcher.pushedTasks
          (logOf there (before ++ .returned caller first answer :: between)) ++
          EventDispatcher.pushedTasks (logOf there (.called caller' (some second) :: rest)) := by
      simp only [System.seenAt, ← whole, logOf_append, EventDispatcher.pushedTasks_append]
    have after : second ∈ EventDispatcher.pushedTasks (logOf there
      (.called caller' (some second) :: rest)) := by
      rw [parts] at pushedSecond
      exact (List.mem_append.mp pushedSecond).resolve_left unpushed
    obtain ⟨middle, back, tail⟩ := List.append_of_mem after
    have order : EventDispatcher.pushedTasks (system.seenAt there).log =
        (EventDispatcher.pushedTasks (logOf there
          (before ++ .returned caller first answer :: between)) ++ middle) ++
          second :: back := by
      rw [parts, tail, List.append_assoc]
    have ahead : first ∈ EventDispatcher.pushedTasks (logOf there
      (before ++ .returned caller first answer :: between)) ++
        middle := by
      simp only [logOf_append, EventDispatcher.pushedTasks_append, List.mem_append]
      exact .inl (.inl pushedFirst)
    rw [EventDispatcher.pushedTasks, split] at order
    obtain ⟨_, finished | skipped⟩ := (split ▸ accepts).started_in_order order ahead
    · exact mem_logOf.mp (finished_mem finished)
    · exact absurd skipped (not_skipped sequenced split)
  · intro move allowed
    rcases step_continues sequenced move with ⟨⟨next, events⟩, ran⟩ | stuck
    · exact .inl ⟨⟨next, system.log ++ events⟩, by simp only [program, System.exec, ran]⟩
    · exact .inr stuck

/-- Two tasks with one id from two threads, and one with another id in between
that a second dispatcher runs. -/
def sampleMoves : List (Move 2 Nat) :=
  let enqueue (number : Nat) (task : UnitTask Nat) : List (Move 2 Nat) :=
    .enqueueTask (.thread number) (some task) :: List.replicate 7 (.caller (.thread number))
  List.flatten [enqueue 0 ⟨0, 7⟩, List.replicate 5 (.eventLoop firstOfTwo), enqueue 1 ⟨1, 8⟩,
    List.replicate 5 (.eventLoop secondOfTwo), enqueue 1 ⟨2, 7⟩,
    List.replicate 10 (.eventLoop firstOfTwo)]

theorem sequential_consistency_run :
    ∃ system, (program 2 .roundRobin).replay (program 2 .roundRobin).start sampleMoves =
    .ok system ∧
      .dispatched 0 (.started ⟨2, 7⟩) ∈ system.log ∧ SequentialConsistency .roundRobin system :=
  ⟨_, rfl, by decide +kernel, sequential_consistency (by decide)
    ⟨_, Execution.replayed (program 2 .roundRobin) sampleMoves (by decide +kernel)⟩⟩

end EventDisp.MPEventDispatcher
