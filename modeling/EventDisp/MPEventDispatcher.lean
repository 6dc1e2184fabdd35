import EventDisp.EventDispatcher
import EventDisp.General.FiniteMap

/-! `mp_event_dispatcher.h` and `mp_event_dispatcher.cc`: several dispatchers, and
the rule that picks one of them for each task. The critical section on
`tokenMutex_` and `taskTableMutex_` is one step; the task is handed over to the
chosen dispatcher in later steps. Nobody destroys the dispatchers. -/
namespace EventDisp

namespace MPEventDispatcher

/-- The threads, and the task that each dispatcher runs. -/
inductive Caller (concurrentTaskCount : Nat) where
  | thread (number : Nat)
  | task (dispatcher : Fin concurrentTaskCount)
  deriving DecidableEq, Repr

/-- Whether `USE_HASHING` is defined. -/
inductive Rule (τ : Type) where
  | hashing (hasher : τ → Nat)
  | roundRobin

/-- Where a caller is in `enqueueTask`. -/
inductive CallerPc (concurrentTaskCount : Nat) (τ : Type) where
  | idle
  /-- Before the choice of the destination. -/
  | choose (newTask : Option (UnitTask τ))
  /-- Before the call of the destination's `enqueueTask`. -/
  | forward (newTask : UnitTask τ) (taskDestination : Nat)
  /-- In the destination's `enqueueTask`. -/
  | inside (newTask : UnitTask τ) (taskDestination : Fin concurrentTaskCount)
  deriving DecidableEq, Repr

/-- What a step shows: the calls, and what happens at one of the dispatchers. -/
inductive Event (concurrentTaskCount : Nat) (τ : Type) where
  | called (caller : Caller concurrentTaskCount) (newTask : Option (UnitTask τ))
  | returned (caller : Caller concurrentTaskCount) (newTask : UnitTask τ) (answer : Bool)
  | dispatched (destination : Fin concurrentTaskCount)
      (event : EventDispatcher.Event (Caller concurrentTaskCount) τ)
  deriving DecidableEq, Repr

end MPEventDispatcher

open MPEventDispatcher in
/-- The fields of `MPEventDispatcher` and where the callers are. -/
structure MPEventDispatcher (concurrentTaskCount : Nat) (τ : Type) where
  dispatchers : Fin concurrentTaskCount → EventDispatcher (Caller concurrentTaskCount) τ :=
    fun _ => {}
  taskIDTable : FiniteMap τ Nat := ∅
  roundRobinToken : Nat := 0
  callers : Caller concurrentTaskCount → CallerPc concurrentTaskCount τ := fun _ => .idle

namespace MPEventDispatcher

variable {τ : Type} [DecidableEq τ] {concurrentTaskCount : Nat}

/-- Who moves: a caller begins a call or takes its next step, or an event loop does. -/
inductive Move (concurrentTaskCount : Nat) (τ : Type) where
  | enqueueTask (caller : Caller concurrentTaskCount) (newTask : Option (UnitTask τ))
  | stop (caller : Caller concurrentTaskCount)
  | resume (caller : Caller concurrentTaskCount)
  | caller (caller : Caller concurrentTaskCount)
  | eventLoop (dispatcher : Fin concurrentTaskCount)

def goto (dispatcher : MPEventDispatcher concurrentTaskCount τ)
    (caller : Caller concurrentTaskCount) (pc : CallerPc concurrentTaskCount τ) :
    MPEventDispatcher concurrentTaskCount τ :=
  { dispatcher with callers := Function.update dispatcher.callers caller pc }

omit [DecidableEq τ] in
@[simp] theorem goto_callers (dispatcher : MPEventDispatcher concurrentTaskCount τ)
    (caller other : Caller concurrentTaskCount) (pc : CallerPc concurrentTaskCount τ) :
    (dispatcher.goto caller pc).callers other = if other = caller then pc else dispatcher.callers
    other :=
  Function.update_apply ..

/-- A caller may begin a call; a task only while it is being run. -/
def mayCall (dispatcher : MPEventDispatcher concurrentTaskCount τ)
    (caller : Caller concurrentTaskCount) : Bool :=
  dispatcher.callers caller = .idle &&
    match caller with
    | .thread _ => true
    | .task own => (dispatcher.dispatchers own).eventLoop.isExecuting

/-- Whether the move can be made. A task has run to its end only when it is in no
call. -/
def enabled (dispatcher : MPEventDispatcher concurrentTaskCount τ) : Move concurrentTaskCount τ →
    Bool
  | .enqueueTask caller _ | .stop caller | .resume caller => dispatcher.mayCall caller
  | .caller caller =>
    match dispatcher.callers caller with
    | .idle => false
    | .choose _ | .forward .. => true
    | .inside _ taskDestination =>
      (dispatcher.dispatchers taskDestination).callers caller = .idle ||
        (dispatcher.dispatchers taskDestination).enabled (.task taskDestination) (.caller caller)
  | .eventLoop own =>
    (dispatcher.dispatchers own).enabled (.task own) .eventLoop &&
      (!(dispatcher.dispatchers own).eventLoop.isExecuting || dispatcher.callers (.task own) =
        .idle)

/-- The choice of `taskDestination`. -/
def chooseDestination (rule : Rule τ) (dispatcher : MPEventDispatcher concurrentTaskCount τ)
    (id : τ) :
    MPEventDispatcher concurrentTaskCount τ × Nat :=
  match rule with
  | .hashing hasher => (dispatcher, hasher id % concurrentTaskCount)
  | .roundRobin =>
    match dispatcher.taskIDTable.lookup id with
    | some taskDestination => (dispatcher, taskDestination)
    | none =>
      let taskDestination := dispatcher.roundRobinToken
      let token := dispatcher.roundRobinToken + 1
      let roundRobinToken := if token ≥ concurrentTaskCount then 0 else token
      let taskIDTable := dispatcher.taskIDTable.insert id taskDestination
      ({ dispatcher with taskIDTable, roundRobinToken }, taskDestination)

/-- A choice is seen by nobody. -/
theorem chooseDestination_frame (rule : Rule τ)
    (dispatcher : MPEventDispatcher concurrentTaskCount τ) (id : τ) :
    (dispatcher.chooseDestination rule id).1.dispatchers = dispatcher.dispatchers ∧
      (dispatcher.chooseDestination rule id).1.callers = dispatcher.callers := by
  cases rule with
  | hashing hasher => exact ⟨rfl, rfl⟩
  | roundRobin => cases found : dispatcher.taskIDTable.lookup id <;> simp [chooseDestination, found]

/-- One of the dispatchers makes a move of its own. -/
def dispatch (dispatcher : MPEventDispatcher concurrentTaskCount τ)
    (destination : Fin concurrentTaskCount)
    (move : EventDispatcher.Move (Caller concurrentTaskCount) τ) :
    Except Fault (MPEventDispatcher concurrentTaskCount τ × List (Event concurrentTaskCount τ)) :=
  match (dispatcher.dispatchers destination).step move with
  | .ok (moved, events) =>
    .ok ({ dispatcher with dispatchers := Function.update dispatcher.dispatchers destination moved },
      events.map (.dispatched destination))
  | .error fault => .error fault

/-- The next step of a caller in `enqueueTask`. It reads the id of the task before
it looks at anything else. -/
def callerStep (rule : Rule τ) (dispatcher : MPEventDispatcher concurrentTaskCount τ)
    (caller : Caller concurrentTaskCount) :
    Except Fault (MPEventDispatcher concurrentTaskCount τ × List (Event concurrentTaskCount τ)) :=
  match dispatcher.callers caller with
  | .idle => .ok (dispatcher, [])
  | .choose none => .error .nullAccess
  | .choose (some newTask) =>
    let (chosen, taskDestination) := dispatcher.chooseDestination rule newTask.id
    .ok (chosen.goto caller (.forward newTask taskDestination), [])
  | .forward newTask taskDestination =>
    if bound : taskDestination < concurrentTaskCount then
      (dispatcher.goto caller (.inside newTask ⟨taskDestination, bound⟩)).dispatch ⟨taskDestination,
        bound⟩
        (.enqueueTask caller (some newTask))
    else .error .dangling
  | .inside newTask taskDestination =>
    if (dispatcher.dispatchers taskDestination).callers caller = .idle then
      .ok (dispatcher.goto caller .idle, [.returned caller newTask true])
    else dispatcher.dispatch taskDestination (.caller caller)

/-- `stop` and `resume` do nothing. -/
def step (rule : Rule τ) (dispatcher : MPEventDispatcher concurrentTaskCount τ) :
    Move concurrentTaskCount τ →
    Except Fault (MPEventDispatcher concurrentTaskCount τ × List (Event concurrentTaskCount τ))
  | .enqueueTask caller newTask =>
    .ok (dispatcher.goto caller (.choose newTask), [.called caller newTask])
  | .stop _ | .resume _ => .ok (dispatcher, [])
  | .caller caller => dispatcher.callerStep rule caller
  | .eventLoop own => dispatcher.dispatch own .eventLoop

/-- All dispatchers and what has happened so far. -/
structure System (concurrentTaskCount : Nat) (τ : Type) where
  dispatcher : MPEventDispatcher concurrentTaskCount τ
  log : List (Event concurrentTaskCount τ)

/-- The tasks callers have handed over. -/
def handed (log : List (Event concurrentTaskCount τ)) : List (UnitTask τ) :=
  log.filterMap fun
    | .called _ newTask => newTask
    | _ => none

/-- No task is handed over twice. -/
def Fresh (log : List (Event concurrentTaskCount τ)) : Move concurrentTaskCount τ → Prop
  | .enqueueTask _ (some task) => task.number ∉ (handed log).map UnitTask.number
  | .enqueueTask _ none | .stop _ | .resume _ | .caller _ | .eventLoop _ => True

instance (log : List (Event concurrentTaskCount τ)) : DecidablePred (Fresh log)
  | .enqueueTask _ (some task) =>
    inferInstanceAs (Decidable (task.number ∉ (handed log).map UnitTask.number))
  | .enqueueTask _ none | .stop _ | .resume _ | .caller _ | .eventLoop _ => isTrue trivial

def System.exec (rule : Rule τ) (system : System concurrentTaskCount τ)
    (move : Move concurrentTaskCount τ) :
    Except Fault (System concurrentTaskCount τ) :=
  match system.dispatcher.step rule move with
  | .ok (dispatcher, events) => .ok ⟨dispatcher, system.log ++ events⟩
  | .error fault => .error fault

/-- Every interleaving of the callers and the event loops of all dispatchers. -/
def program (concurrentTaskCount : Nat) (rule : Rule τ) :
    Execution.Program (System concurrentTaskCount τ) (Move concurrentTaskCount τ) Fault where
  start := ⟨{}, []⟩
  allowed system move := system.dispatcher.enabled move = true ∧ Fresh system.log move
  exec := System.exec rule

instance (rule : Rule τ) (system : System concurrentTaskCount τ) :
    DecidablePred ((program concurrentTaskCount rule).allowed system) := fun move =>
  inferInstanceAs (Decidable (system.dispatcher.enabled move = true ∧ Fresh system.log move))

end MPEventDispatcher
end EventDisp
