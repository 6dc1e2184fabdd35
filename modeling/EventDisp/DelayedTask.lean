import Mathlib.Logic.Function.Basic
import EventDisp.Fault
import EventDisp.General.Execution
import EventDisp.General.Lock

/-! `delayed_task.cc` instruction by instruction: the timers of the system, the object,
the threads in `timeoutHandler` and in the destructor, and the mutex between them.
`resetTimer` takes no lock. -/
namespace EventDisp.DelayedTask

open Execution

/-- `timespec`. -/
structure Timespec where
  tv_sec : Int
  tv_nsec : Int
  deriving DecidableEq, Repr

/-- Whoever created a timer. -/
inductive Owner where
  | self
  | other (number : Nat)
  deriving DecidableEq, Repr

/-- A timer of the system, and the time it was last set to. -/
structure Timer where
  owner : Owner
  it_value : Option Timespec := none
  deriving DecidableEq, Repr

/-- The timers there are, by `timer_t`. A deleted id may be given out again. -/
abbrev Timers := Nat → Option Timer

/-- `timer_settime`. It fails on an id that is not in use; the times asked for are taken
to be valid ones. -/
def timer_settime (timers : Timers) (id : Nat) (value : Timespec) : Option Timers :=
  (timers id).map fun timer =>
    Function.update timers id (some { timer with it_value := some value })

/-- `timer_delete`. -/
def timer_delete (timers : Timers) (id : Nat) : Timers :=
  Function.update timers id none

/-- A thread in one of the two methods that lock `mutex_`. -/
inductive Thread where
  | handler (number : Nat)
  | destructor
  deriving DecidableEq, Repr

/-- Where a thread is in its method: in front of the lock, of the test of `hasCompleted_`,
of the two calls and of the assignment under it, of the unlock, or past the end. -/
inductive Position where
  | locking
  | testing
  | first
  | second
  | completing
  | unlocking
  | returned
  deriving DecidableEq, Repr

/-- How far the constructor has come. -/
inductive Stage where
  | unborn
  | created
  | constructed
  deriving DecidableEq, Repr

/-- The system's timers, the object, and its threads; `enqueued` and `deleted` count what
has become of `task_`. The object outlives its destructor: a late handler finds the fields as that
left them. -/
structure State where
  timers : Timers := fun _ => none
  stage : Stage := .unborn
  id : Nat := 0
  hasCompleted : Bool := false
  mutex : Option Thread := none
  threads : Thread → Option Position := fun _ => none
  enqueued : Nat := 0
  deleted : Nat := 0

namespace State

variable (state : State) (thread : Thread)

def goto (position : Position) : State :=
  { state with threads := Function.update state.threads thread (some position) }

/-- The two calls in `timeoutHandler`, and the two in the destructor. -/
def firstCall : State :=
  match thread with
  | .handler _ => { state with enqueued := state.enqueued + 1 }
  | .destructor => { state with timers := timer_delete state.timers state.id }

def secondCall : State :=
  match thread with
  | .handler _ => { state with timers := timer_delete state.timers state.id }
  | .destructor => { state with deleted := state.deleted + 1 }

/-- The next instruction of a thread. -/
def advance : Position → State
  | .locking => { state with mutex := some thread }.goto thread .testing
  | .testing => state.goto thread (if state.hasCompleted then .unlocking else .first)
  | .first => (state.firstCall thread).goto thread .second
  | .second => (state.secondCall thread).goto thread .completing
  | .completing => { state with hasCompleted := true }.goto thread .unlocking
  | .unlocking => { state with mutex := none }.goto thread .returned
  | .returned => state

/-- The timer at an id is the object's own. -/
def Owns (id : Nat) : Prop :=
  ∃ timer, state.timers id = some timer ∧ timer.owner = .self

end State

/-- What happens next: the two calls of the constructor, with the answer of `timer_create`;
`resetTimer`; the start of a handler or of the destructor; the next instruction of a thread;
a timer of another object created, set or deleted. -/
inductive Step where
  | create (id : Option Nat)
  | start (delay : Timespec)
  | resetTimer (newDelay : Timespec)
  | expire (number : Nat)
  | destroy
  | advance (thread : Thread)
  | others (id : Nat) (timer : Option (Nat × Timespec))
  deriving DecidableEq, Repr

def exec (state : State) : Step → Except Fault State
  | .create none => .error (.assertion .timerCreated)
  | .create (some id) =>
    .ok { state with stage := .created, id, timers := Function.update state.timers id (some { owner := .self }) }
  | .start delay =>
    match timer_settime state.timers state.id delay with
    | some timers => .ok { state with stage := .constructed, timers }
    | none => .error (.assertion .timerStarted)
  | .resetTimer newDelay =>
    match timer_settime state.timers state.id newDelay with
    | some timers => .ok { state with timers }
    | none => .error (.assertion .timerReset)
  | .expire number => .ok (state.goto (.handler number) .locking)
  | .destroy => .ok (state.goto .destructor .locking)
  | .advance thread => .ok (state.advance thread ((state.threads thread).getD .returned))
  | .others id timer =>
    .ok { state with timers := Function.update state.timers id (timer.map fun (number, value) => ⟨.other number, some value⟩) }

/-- The constructor runs once, to its end, before anything else; `resetTimer` and the
destructor are called on a live object; a lock waits; other objects have timers of their own. -/
def Allowed (state : State) : Step → Prop
  | .create id => state.stage = .unborn ∧ ∀ given ∈ id, state.timers given = none
  | .start _ => state.stage = .created
  | .resetTimer _ | .destroy => state.stage = .constructed ∧ state.threads .destructor = none
  | .expire number => state.stage = .constructed ∧ state.threads (.handler number) = none
  | .advance thread =>
    state.threads thread ≠ none ∧ (state.threads thread = some .locking → state.mutex = none)
  | .others id _ => ∀ timer ∈ state.timers id, timer.owner ≠ .self

instance (state : State) : DecidablePred (Allowed state)
  | .create _ => inferInstanceAs (Decidable (_ ∧ _))
  | .start _ => inferInstanceAs (Decidable (_ = _))
  | .resetTimer _ | .destroy => inferInstanceAs (Decidable (_ ∧ _))
  | .expire _ => inferInstanceAs (Decidable (_ ∧ _))
  | .advance _ => inferInstanceAs (Decidable (_ ∧ _))
  | .others _ _ => inferInstanceAs (Decidable (∀ timer ∈ _, _))

def program : Program State Step Fault where
  start := {}
  allowed := Allowed
  exec := exec

instance (state : State) : DecidablePred (program.allowed state) :=
  inferInstanceAs (DecidablePred (Allowed state))

end EventDisp.DelayedTask
