import Mathlib.Logic.Function.Basic
import Mathlib.Algebra.Group.Nat.Defs
import EventDisp.Fault
import EventDisp.General.Execution

/-! `event_dispatcher.h` and `event_dispatcher.cc`: one queue of tasks and the
thread that runs them. Any number of threads, and the task that is being run, are
in the middle of `enqueueTask`, `stop` or `resume`. A lock is held from one step
to a later one; the fields `isStopped_` and `isDying_` are read and written in
steps of their own. -/
namespace EventDisp

/-- `UnitTask`; the number stands for its address. -/
structure UnitTask (τ : Type) where
  number : Nat
  id : τ
  deriving DecidableEq, Repr

namespace EventDispatcher

/-- Where a caller is in `enqueueTask`, `stop` or `resume`. -/
inductive CallerPc (τ : Type) where
  | idle
  /-- About to lock `queueMutex_`. -/
  | enqueueLock (newTask : Option (UnitTask τ))
  /-- Before the test of `isStopped_`. -/
  | enqueueTest (newTask : Option (UnitTask τ))
  | enqueuePush (newTask : UnitTask τ)
  /-- Before `taskCount_[newTask->id]++`. -/
  | enqueueCount (newTask : UnitTask τ)
  | enqueueDiscard (newTask : Option (UnitTask τ))
  /-- About to lock `stoppedMutex_`. -/
  | stopLock
  | stopWrite
  /-- About to lock `stoppedMutex_`. -/
  | resumeLock
  /-- Before the test of `isDying_`. -/
  | resumeTest
  | resumeWrite
  deriving DecidableEq, Repr

inductive DestructorPc where
  | notCalled
  /-- About to lock `stoppedMutex_`. -/
  | lock
  | writeStopped
  | writeDying
  /-- In `pthread_join`. -/
  | join
  | done
  deriving DecidableEq, Repr

/-- Where the event loop is. -/
inductive LoopPc (τ : Type) where
  /-- About to lock `queueMutex_` for the front of the queue. -/
  | lock
  /-- Before `taskQueue_.empty()` in the test of the inner loop. -/
  | waitTest
  /-- Before `!isDying_` in the test of the inner loop. -/
  | waitTestDying
  /-- In `timedWait`, with `queueMutex_` released. -/
  | wait
  /-- Before `isDying_` in the test for the return. -/
  | returnTest
  /-- Before `taskQueue_.empty()` in the test for the return. -/
  | returnTestEmpty
  | front
  /-- Before `!isDying_` in the test for the execution. -/
  | executeTest (nextTask : UnitTask τ)
  | executing (nextTask : UnitTask τ)
  /-- About to lock `queueMutex_` to remove the task. -/
  | popLock (nextTask : UnitTask τ)
  | pop (nextTask : UnitTask τ)
  /-- Before `taskCount_[nextTask->id]--`. -/
  | popCount (nextTask : UnitTask τ)
  | delete (nextTask : UnitTask τ)
  | returned
  deriving DecidableEq, Repr

def LoopPc.isExecuting : LoopPc τ → Bool
  | .executing _ => true
  | .lock | .waitTest | .waitTestDying | .wait | .returnTest | .returnTestEmpty | .front
  | .executeTest _ | .popLock _ | .pop _ | .popCount _ | .delete _ | .returned => false

/-- A holder of a lock. -/
inductive Holder (ρ : Type) where
  | caller (caller : ρ)
  | destructor
  | eventLoop
  deriving DecidableEq, Repr

/-- What a step shows: the calls, the fate of the tasks and the flags. -/
inductive Event (ρ τ : Type) where
  | called (caller : ρ) (newTask : Option (UnitTask τ))
  | returned (caller : ρ) (newTask : Option (UnitTask τ)) (answer : Bool)
  | pushed (task : UnitTask τ)
  | discarded (task : UnitTask τ)
  | started (task : UnitTask τ)
  | skipped (task : UnitTask τ)
  | finished (task : UnitTask τ)
  | removed (task : UnitTask τ)
  | deleted (task : UnitTask τ)
  | stopped (caller : ρ)
  | resumed (caller : ρ)
  | dying
  | loopReturned
  deriving DecidableEq, Repr

end EventDispatcher

open EventDispatcher in
/-- The fields of `EventDispatcher` and where everybody is. `ρ` are the callers
and `runner` is the one that stands for the task being run. -/
structure EventDispatcher (ρ τ : Type) where
  queueMutex : Option (Holder ρ) := none
  stoppedMutex : Option (Holder ρ) := none
  taskQueue : List (UnitTask τ) := []
  isExecuting : Bool := false
  taskCount : τ → Nat := fun _ => 0
  isStopped : Bool := false
  isDying : Bool := false
  callers : ρ → CallerPc τ := fun _ => .idle
  destructor : DestructorPc := .notCalled
  eventLoop : LoopPc τ := .lock

namespace EventDispatcher

variable {ρ τ : Type} [DecidableEq ρ] [DecidableEq τ]

/-- Who moves: a caller begins a call or takes its next step, the destructor is
called or takes its next step, or the event loop does. -/
inductive Move (ρ τ : Type) where
  | enqueueTask (caller : ρ) (newTask : Option (UnitTask τ))
  | stop (caller : ρ)
  | resume (caller : ρ)
  | caller (caller : ρ)
  | destroy
  | destructor
  | eventLoop

def goto (dispatcher : EventDispatcher ρ τ) (caller : ρ) (pc : CallerPc τ) : EventDispatcher ρ τ :=
  { dispatcher with callers := Function.update dispatcher.callers caller pc }

omit [DecidableEq τ] in
@[simp] theorem goto_callers (dispatcher : EventDispatcher ρ τ) (caller other : ρ)
    (pc : CallerPc τ) :
    (dispatcher.goto caller pc).callers other = if other = caller then pc else dispatcher.callers
    other :=
  Function.update_apply ..

/-- A caller may begin a call; the runner only while a task is being run. -/
def mayCall (runner : ρ) (dispatcher : EventDispatcher ρ τ) (caller : ρ) : Bool :=
  dispatcher.callers caller = .idle && (caller ≠ runner || dispatcher.eventLoop.isExecuting)

/-- Whether the move can be made: its lock is free, and what it waits for is over. -/
def enabled (runner : ρ) (dispatcher : EventDispatcher ρ τ) : Move ρ τ → Bool
  | .enqueueTask caller _ | .stop caller | .resume caller => dispatcher.mayCall runner caller
  | .caller caller =>
    match dispatcher.callers caller with
    | .idle => false
    | .enqueueLock _ => dispatcher.queueMutex.isNone
    | .stopLock | .resumeLock => dispatcher.stoppedMutex.isNone
    | .enqueueTest _ | .enqueuePush _ | .enqueueCount _ | .enqueueDiscard _ | .stopWrite
    | .resumeTest | .resumeWrite => true
  | .destroy => dispatcher.destructor = .notCalled
  | .destructor =>
    match dispatcher.destructor with
    | .notCalled | .done => false
    | .lock => dispatcher.stoppedMutex.isNone
    | .join => dispatcher.eventLoop = .returned
    | .writeStopped | .writeDying => true
  | .eventLoop =>
    match dispatcher.eventLoop with
    | .lock | .wait | .popLock _ => dispatcher.queueMutex.isNone
    | .executing _ => dispatcher.callers runner = .idle
    | .returned => false
    | .waitTest | .waitTestDying | .returnTest | .returnTestEmpty | .front | .executeTest _ | .pop _
    | .popCount _ | .delete _ => true

/-- The next step of a caller in `enqueueTask`, `stop` or `resume`. `enqueueTask`
answers `true` whether or not it pushed the task. -/
def callerStep (dispatcher : EventDispatcher ρ τ) (caller : ρ) :
    EventDispatcher ρ τ × List (Event ρ τ) :=
  match dispatcher.callers caller with
  | .idle => (dispatcher, [])
  | .enqueueLock newTask =>
    ({ dispatcher.goto caller (.enqueueTest newTask) with queueMutex := some (.caller caller) }, [])
  | .enqueueTest newTask =>
    match dispatcher.isStopped, newTask with
    | false, some task => (dispatcher.goto caller (.enqueuePush task), [])
    | _, _ => (dispatcher.goto caller (.enqueueDiscard newTask), [])
  | .enqueuePush task =>
    ({ dispatcher.goto caller (.enqueueCount task) with taskQueue := dispatcher.taskQueue ++ [task] },
      [.pushed task])
  | .enqueueCount task =>
    ({ dispatcher.goto caller .idle with
        queueMutex := none
        taskCount := Function.update dispatcher.taskCount task.id
          ((dispatcher.taskCount task.id + 1) % 2 ^ 64) },
      [.returned caller (some task) true])
  | .enqueueDiscard newTask =>
    ({ dispatcher.goto caller .idle with queueMutex := none },
      newTask.toList.map .discarded ++ [.returned caller newTask true])
  | .stopLock =>
    ({ dispatcher.goto caller .stopWrite with stoppedMutex := some (.caller caller) }, [])
  | .stopWrite =>
    ({ dispatcher.goto caller .idle with stoppedMutex := none, isStopped := true },
      [.stopped caller])
  | .resumeLock =>
    ({ dispatcher.goto caller .resumeTest with stoppedMutex := some (.caller caller) }, [])
  | .resumeTest =>
    if dispatcher.isDying then ({ dispatcher.goto caller .idle with stoppedMutex := none }, [])
    else (dispatcher.goto caller .resumeWrite, [])
  | .resumeWrite =>
    ({ dispatcher.goto caller .idle with stoppedMutex := none, isStopped := false },
      [.resumed caller])

/-- A caller moves neither the other callers nor the destructor nor the loop. -/
theorem callerStep_frame (dispatcher : EventDispatcher ρ τ) (caller : ρ) :
    (∀ other, other ≠ caller → (dispatcher.callerStep caller).1.callers other =
      dispatcher.callers other) ∧
      (dispatcher.callerStep caller).1.eventLoop = dispatcher.eventLoop ∧
      (dispatcher.callerStep caller).1.destructor = dispatcher.destructor := by
  unfold callerStep
  split
  case h_3 => split <;> simp +contextual [goto]
  case h_10 => split <;> simp +contextual [goto]
  all_goals simp +contextual [goto]

/-- The next step of `~EventDispatcher`. -/
def destructorStep (dispatcher : EventDispatcher ρ τ) : EventDispatcher ρ τ × List (Event ρ τ) :=
  match dispatcher.destructor with
  | .notCalled | .done => (dispatcher, [])
  | .lock => ({ dispatcher with destructor := .writeStopped, stoppedMutex := some .destructor }, [])
  | .writeStopped => ({ dispatcher with destructor := .writeDying, isStopped := true }, [])
  | .writeDying =>
    ({ dispatcher with destructor := .join, isDying := true, stoppedMutex := none }, [.dying])
  | .join => ({ dispatcher with destructor := .done }, [])

omit [DecidableEq ρ] [DecidableEq τ] in
/-- The destructor moves neither the callers nor the loop. -/
theorem destructorStep_frame (dispatcher : EventDispatcher ρ τ) :
    dispatcher.destructorStep.1.callers = dispatcher.callers ∧
      dispatcher.destructorStep.1.eventLoop = dispatcher.eventLoop := by
  unfold destructorStep
  split <;> exact ⟨rfl, rfl⟩

/-- The next step of `eventLoop`. `front` and `pop` on an empty queue would read a
task that is not there. -/
def eventLoopStep (dispatcher : EventDispatcher ρ τ) :
    Except Fault (EventDispatcher ρ τ × List (Event ρ τ)) :=
  match dispatcher.eventLoop with
  | .lock | .wait =>
    .ok ({ dispatcher with eventLoop := .waitTest, queueMutex := some .eventLoop }, [])
  | .waitTest =>
    let eventLoop := if dispatcher.taskQueue.isEmpty then .waitTestDying else .returnTest
    .ok ({ dispatcher with eventLoop }, [])
  | .waitTestDying =>
    if dispatcher.isDying then .ok ({ dispatcher with eventLoop := .returnTest }, [])
    else .ok ({ dispatcher with eventLoop := .wait, queueMutex := none }, [])
  | .returnTest =>
    let eventLoop := if dispatcher.isDying then .returnTestEmpty else .front
    .ok ({ dispatcher with eventLoop }, [])
  | .returnTestEmpty =>
    if dispatcher.taskQueue.isEmpty then
      .ok ({ dispatcher with eventLoop := .returned, queueMutex := none }, [.loopReturned])
    else .ok ({ dispatcher with eventLoop := .front }, [])
  | .front =>
    match dispatcher.taskQueue with
    | [] => .error .dangling
    | nextTask :: _ =>
      .ok ({ dispatcher with eventLoop := .executeTest nextTask, isExecuting := true, queueMutex := none }, [])
  | .executeTest nextTask =>
    if dispatcher.isDying then .ok ({ dispatcher with eventLoop := .popLock nextTask },
      [.skipped nextTask])
    else .ok ({ dispatcher with eventLoop := .executing nextTask }, [.started nextTask])
  | .executing nextTask =>
    .ok ({ dispatcher with eventLoop := .popLock nextTask }, [.finished nextTask])
  | .popLock nextTask =>
    .ok ({ dispatcher with eventLoop := .pop nextTask, queueMutex := some .eventLoop }, [])
  | .pop nextTask =>
    match dispatcher.taskQueue with
    | [] => .error .dangling
    | front :: taskQueue =>
      .ok ({ dispatcher with eventLoop := .popCount nextTask, taskQueue, isExecuting := false },
        [.removed front])
  | .popCount nextTask =>
    .ok ({ dispatcher with
        eventLoop := .delete nextTask
        queueMutex := none
        taskCount := Function.update dispatcher.taskCount nextTask.id
          ((dispatcher.taskCount nextTask.id + (2 ^ 64 - 1)) % 2 ^ 64) }, [])
  | .delete nextTask => .ok ({ dispatcher with eventLoop := .lock }, [.deleted nextTask])
  | .returned => .ok (dispatcher, [])

omit [DecidableEq ρ] in
/-- The loop moves no caller. -/
theorem eventLoopStep_frame {dispatcher next : EventDispatcher ρ τ} {events : List (Event ρ τ)}
    (ran : dispatcher.eventLoopStep = .ok (next, events)) : next.callers = dispatcher.callers := by
  unfold eventLoopStep at ran
  repeat' split at ran
  all_goals cases ran <;> rfl

def step (dispatcher : EventDispatcher ρ τ) :
    Move ρ τ → Except Fault (EventDispatcher ρ τ × List (Event ρ τ))
  | .enqueueTask caller newTask =>
    .ok (dispatcher.goto caller (.enqueueLock newTask), [.called caller newTask])
  | .stop caller => .ok (dispatcher.goto caller .stopLock, [])
  | .resume caller => .ok (dispatcher.goto caller .resumeLock, [])
  | .caller caller => .ok (dispatcher.callerStep caller)
  | .destroy => .ok ({ dispatcher with destructor := .lock }, [])
  | .destructor => .ok dispatcher.destructorStep
  | .eventLoop => dispatcher.eventLoopStep

/-- A dispatcher and what has happened to it so far. -/
structure System (ρ τ : Type) where
  dispatcher : EventDispatcher ρ τ
  log : List (Event ρ τ)

/-- The tasks callers have handed over. -/
def handed (log : List (Event ρ τ)) : List (UnitTask τ) :=
  log.filterMap fun
    | .called _ newTask => newTask
    | _ => none

/-- No task is handed over twice. -/
def Fresh (log : List (Event ρ τ)) : Move ρ τ → Prop
  | .enqueueTask _ (some task) => task.number ∉ (handed log).map UnitTask.number
  | .enqueueTask _ none | .stop _ | .resume _ | .caller _ | .destroy | .destructor | .eventLoop =>
    True

instance (log : List (Event ρ τ)) : DecidablePred (Fresh log)
  | .enqueueTask _ (some task) =>
    inferInstanceAs (Decidable (task.number ∉ (handed log).map UnitTask.number))
  | .enqueueTask _ none | .stop _ | .resume _ | .caller _ | .destroy | .destructor | .eventLoop =>
    isTrue trivial

def System.exec (system : System ρ τ) (move : Move ρ τ) : Except Fault (System ρ τ) :=
  match system.dispatcher.step move with
  | .ok (dispatcher, events) => .ok ⟨dispatcher, system.log ++ events⟩
  | .error fault => .error fault

/-- Every interleaving of the callers, the destructor and the event loop. -/
def program (runner : ρ) : Execution.Program (System ρ τ) (Move ρ τ) Fault where
  start := ⟨{}, []⟩
  allowed system move := system.dispatcher.enabled runner move = true ∧ Fresh system.log move
  exec := System.exec

instance (runner : ρ) (system : System ρ τ) : DecidablePred ((program runner).allowed system) :=
  fun move =>
  inferInstanceAs (Decidable (system.dispatcher.enabled runner move = true ∧ Fresh system.log move))

end EventDispatcher
end EventDisp
