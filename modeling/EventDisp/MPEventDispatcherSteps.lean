import EventDisp.MPEventDispatcher
import EventDisp.EventDispatcherDiscipline

/-! What one step of several dispatchers can be, and what each dispatcher sees of
it: a step of its own, or nothing. -/
namespace EventDisp.MPEventDispatcher

open Execution

variable {τ : Type} [DecidableEq τ] {concurrentTaskCount : Nat} {rule : Rule τ}
variable {system after : System concurrentTaskCount τ} {move : Move concurrentTaskCount τ}
variable {log more : List (Event concurrentTaskCount τ)}
  {destination other : Fin concurrentTaskCount}

/-- The dispatchers where there are two of them. -/
def firstOfTwo : Fin 2 := 0

def secondOfTwo : Fin 2 := 1

/-- What happened at one dispatcher. -/
def logOf (destination : Fin concurrentTaskCount) (log : List (Event concurrentTaskCount τ)) :
    List (EventDispatcher.Event (Caller concurrentTaskCount) τ) :=
  log.filterMap fun
    | .dispatched there event => if there = destination then some event else none
    | .called .. | .returned .. => none

/-- One dispatcher and what happened at it. -/
def System.seenAt (system : System concurrentTaskCount τ) (destination : Fin concurrentTaskCount) :
    EventDispatcher.System (Caller concurrentTaskCount) τ :=
  ⟨system.dispatcher.dispatchers destination, logOf destination system.log⟩

omit [DecidableEq τ] in
@[simp] theorem logOf_append : logOf destination (log ++ more) = logOf destination log ++
    logOf destination more :=
  List.filterMap_append ..

omit [DecidableEq τ] in
@[simp] theorem logOf_own (events : List (EventDispatcher.Event (Caller concurrentTaskCount) τ)) :
    logOf destination (events.map (.dispatched destination)) = events := by
  simp [logOf, List.filterMap_map]

omit [DecidableEq τ] in
theorem logOf_other (events : List (EventDispatcher.Event (Caller concurrentTaskCount) τ))
    (different : other ≠ destination) : logOf other (events.map (.dispatched destination)) =
    [] := by
  simp [logOf, different.symm]

omit [DecidableEq τ] in
@[simp] theorem logOf_called (caller : Caller concurrentTaskCount) (newTask : Option (UnitTask τ)) :
    logOf destination [.called caller newTask] = [] := rfl

omit [DecidableEq τ] in
@[simp] theorem logOf_returned (caller : Caller concurrentTaskCount) (newTask : UnitTask τ)
    (answer : Bool) :
    logOf destination [.returned caller newTask answer] = [] := rfl

/-- A dispatcher in the middle of all, after a step of its own. -/
def System.updated (system : System concurrentTaskCount τ) (destination : Fin concurrentTaskCount)
    (moved : EventDispatcher (Caller concurrentTaskCount) τ)
    (events : List (EventDispatcher.Event (Caller concurrentTaskCount) τ)) :
    System concurrentTaskCount τ :=
  ⟨{ system.dispatcher with dispatchers := Function.update system.dispatcher.dispatchers destination moved },
    system.log ++ events.map (.dispatched destination)⟩

section With

variable {moved : EventDispatcher (Caller concurrentTaskCount) τ}
variable {events : List (EventDispatcher.Event (Caller concurrentTaskCount) τ)}

omit [DecidableEq τ] in
@[simp] theorem updated_seenAt_own :
    (system.updated destination moved events).seenAt destination =
    ⟨moved, (system.seenAt destination).log ++ events⟩ := by
  simp [System.updated, System.seenAt]

omit [DecidableEq τ] in
theorem updated_seenAt_other (different : other ≠ destination) :
    (system.updated destination moved events).seenAt other = system.seenAt other := by
  simp [System.updated, System.seenAt, different, logOf_other events different]

omit [DecidableEq τ] in
@[simp] theorem updated_callers :
    (system.updated destination moved events).dispatcher.callers = system.dispatcher.callers := rfl

end With

/-- A caller goes on, and the dispatchers see nothing of it. -/
def System.goto (system : System concurrentTaskCount τ) (caller : Caller concurrentTaskCount)
    (pc : CallerPc concurrentTaskCount τ) : System concurrentTaskCount τ :=
  ⟨system.dispatcher.goto caller pc, system.log⟩

omit [DecidableEq τ] in
@[simp] theorem goto_seenAt (caller : Caller concurrentTaskCount)
    (pc : CallerPc concurrentTaskCount τ) :
    (system.goto caller pc).seenAt destination = system.seenAt destination := rfl

omit [DecidableEq τ] in
@[simp] theorem called_seenAt (caller : Caller concurrentTaskCount)
    (pc : CallerPc concurrentTaskCount τ) (newTask : Option (UnitTask τ)) :
    System.seenAt ⟨system.dispatcher.goto caller pc, system.log ++ [.called caller newTask]⟩
    destination =
      system.seenAt destination := by
  simp [System.seenAt, MPEventDispatcher.goto]

omit [DecidableEq τ] in
@[simp] theorem returned_seenAt (caller : Caller concurrentTaskCount)
    (pc : CallerPc concurrentTaskCount τ) (newTask : UnitTask τ) (answer : Bool) :
    System.seenAt ⟨system.dispatcher.goto caller pc,
    system.log ++ [.returned caller newTask answer]⟩ destination =
      system.seenAt destination := by
  simp [System.seenAt, MPEventDispatcher.goto]

/-- The steps of all dispatchers and their callers, one constructor for each place
a step is made from. -/
inductive Turn (rule : Rule τ) (system : System concurrentTaskCount τ) :
    System concurrentTaskCount τ → Prop where
  | nothing : Turn rule system system
  | call (caller : Caller concurrentTaskCount) (newTask : Option (UnitTask τ))
      (free : system.dispatcher.mayCall caller = true)
      (fresh : ∀ task, newTask = some task →
        task.number ∉ (handed system.log).map UnitTask.number) :
      Turn rule system ⟨system.dispatcher.goto caller (.choose newTask),
        system.log ++ [.called caller newTask]⟩
  | choose (caller : Caller concurrentTaskCount) (newTask : UnitTask τ)
      (pc : system.dispatcher.callers caller = .choose (some newTask)) :
      Turn rule system
        ⟨(system.dispatcher.chooseDestination rule newTask.id).1.goto caller
          (.forward newTask (system.dispatcher.chooseDestination rule newTask.id).2), system.log⟩
  | forward (caller : Caller concurrentTaskCount) (newTask : UnitTask τ)
      (taskDestination : Fin concurrentTaskCount)
      (pc : system.dispatcher.callers caller = .forward newTask taskDestination) :
      Turn rule system
        ((system.goto caller (.inside newTask taskDestination)).updated taskDestination
          ((system.seenAt taskDestination).dispatcher.goto caller (.enqueueLock (some newTask)))
          [.called caller (some newTask)])
  | advance (caller : Caller concurrentTaskCount) (newTask : UnitTask τ)
      (taskDestination : Fin concurrentTaskCount)
      (pc : system.dispatcher.callers caller = .inside newTask taskDestination)
      (enabled : (system.seenAt taskDestination).dispatcher.enabled (.task taskDestination)
        (.caller caller) = true) :
      Turn rule system
        (system.updated taskDestination
          ((system.seenAt taskDestination).dispatcher.callerStep caller).1
          ((system.seenAt taskDestination).dispatcher.callerStep caller).2)
  | finish (caller : Caller concurrentTaskCount) (newTask : UnitTask τ)
      (taskDestination : Fin concurrentTaskCount)
      (pc : system.dispatcher.callers caller = .inside newTask taskDestination)
      (ended : (system.seenAt taskDestination).dispatcher.callers caller = .idle) :
      Turn rule system
        ⟨system.dispatcher.goto caller .idle, system.log ++ [.returned caller newTask true]⟩
  | eventLoop (own : Fin concurrentTaskCount) (moved : EventDispatcher (Caller concurrentTaskCount) τ)
      (events : List (EventDispatcher.Event (Caller concurrentTaskCount) τ))
      (enabled : (system.seenAt own).dispatcher.enabled (.task own) .eventLoop = true)
      (ended : (system.seenAt own).dispatcher.eventLoop.isExecuting = true →
        system.dispatcher.callers (.task own) = .idle)
      (ran : (system.seenAt own).dispatcher.eventLoopStep = .ok (moved, events)) :
      Turn rule system (system.updated own moved events)

private theorem turn_caller {caller : Caller concurrentTaskCount}
    (enabled : system.dispatcher.enabled (.caller caller) = true)
    (ran : (program concurrentTaskCount rule).exec system (.caller caller) = .ok after) :
    Turn rule system after := by
  simp only [program, System.exec, step, callerStep] at ran
  cases pc : system.dispatcher.callers caller with
  | idle => simp [MPEventDispatcher.enabled, pc] at enabled
  | choose newTask =>
    cases newTask with
    | none => simp [pc] at ran
    | some newTask =>
      simp only [pc, Except.ok.injEq] at ran
      subst ran
      simpa using Turn.choose caller newTask pc
  | forward newTask taskDestination =>
    simp only [pc] at ran
    by_cases bound : taskDestination < concurrentTaskCount
    · simp only [bound, dite_true, dispatch, EventDispatcher.step, Except.ok.injEq] at ran
      subst ran
      exact Turn.forward caller newTask ⟨taskDestination, bound⟩ pc
    · simp [bound] at ran
  | inside newTask taskDestination =>
    simp only [pc] at ran
    by_cases ended : (system.dispatcher.dispatchers taskDestination).callers caller = .idle
    · simp only [ended, if_true, Except.ok.injEq] at ran
      subst ran
      exact .finish caller newTask taskDestination pc ended
    · simp only [ended, if_false, dispatch, EventDispatcher.step, Except.ok.injEq] at ran
      subst ran
      refine .advance caller newTask taskDestination pc ?_
      simpa [MPEventDispatcher.enabled, pc, ended, System.seenAt] using enabled

/-- Every step is a turn. -/
theorem exec_turn (allowed : (program concurrentTaskCount rule).allowed system move)
    (ran : (program concurrentTaskCount rule).exec system move = .ok after) :
    Turn rule system after := by
  obtain ⟨enabled, fresh⟩ := allowed
  cases move with
  | enqueueTask caller newTask =>
    simp only [program, System.exec, step, Except.ok.injEq] at ran
    subst ran
    refine .call caller newTask enabled ?_
    rintro task rfl
    exact fresh
  | stop | resume =>
    simp only [program, System.exec, step, List.append_nil, Except.ok.injEq] at ran
    subst ran
    exact .nothing
  | caller caller => exact turn_caller enabled ran
  | eventLoop own =>
    simp only [program, System.exec, step, dispatch, EventDispatcher.step] at ran
    split at ran
    · rename_i stepped
      split at stepped
      · rename_i moved events loop
        simp only [Except.ok.injEq, Prod.mk.injEq] at stepped ran
        obtain ⟨rfl, rfl⟩ := stepped
        subst ran
        simp only [MPEventDispatcher.enabled, Bool.and_eq_true, Bool.or_eq_true, Bool.not_eq_true',
          decide_eq_true_eq] at enabled
        refine .eventLoop own moved events enabled.1 (fun running => enabled.2.resolve_left ?_) loop
        intro quiet
        have busy : (system.dispatcher.dispatchers own).eventLoop.isExecuting = true := running
        rw [quiet] at busy
        cases busy
      · cases stepped
    · cases ran

end EventDisp.MPEventDispatcher
