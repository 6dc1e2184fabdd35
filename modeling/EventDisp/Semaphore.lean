import Mathlib.Data.Fintype.Basic
import Mathlib.Logic.Function.Basic
import EventDisp.General.Execution

/-! `Semaphore` of `lock.h`: an `int` under a mutex, and a condition variable to wait on
until it is positive. Any number of threads are in the middle of `up` or `down`; a wait
may end without a signal. -/
namespace EventDisp

open Execution

namespace Semaphore

/-- Where a thread is in `up` or `down`. -/
inductive Pc where
  | idle
  /-- About to lock `mutex_`. -/
  | upLock
  | increment
  /-- Before the test of `val_` in `up`. -/
  | upTest
  | signal
  | upUnlock
  /-- About to lock `mutex_`. -/
  | downLock
  /-- Before the test of the loop. -/
  | downTest
  /-- About to wait on `cond_`. -/
  | wait
  /-- In `cond_.wait`, with `mutex_` released. -/
  | sleeping
  /-- Woken, and about to lock `mutex_` again. -/
  | relock
  | decrement
  | downUnlock
  deriving DecidableEq, Repr

/-- Between the constructor and the destructor of the `ScopedLock`, and not in the wait. -/
def Pc.locks : Pc → Bool
  | .increment | .upTest | .signal | .upUnlock | .downTest | .wait | .decrement | .downUnlock => true
  | .idle | .upLock | .downLock | .sleeping | .relock => false

inductive Event (κ : Type) where
  | incremented (who : κ)
  | decremented (who : κ)
  deriving DecidableEq, Repr

/-- `val_` leaves the range of an `int`. -/
inductive Overflow where
  | increment
  | decrement
  deriving DecidableEq, Repr

/-- The least and the greatest `int`. -/
def intMin : Int := -2147483648
def intMax : Int := 2147483647

end Semaphore

open Semaphore in
/-- The fields of `Semaphore`, where the threads are, and what has been done to `val_`.
Whoever waits on `cond_` is `sleeping`. -/
structure Semaphore (κ : Type) where
  val : Int
  mutex : Option κ := none
  threads : κ → Pc := fun _ => .idle
  log : List (Event κ) := []

namespace Semaphore

variable {κ : Type} [DecidableEq κ]

/-- A thread calls `up` or `down`, or takes its next step, with the sleeper that a signal
wakes; a sleeper wakes by itself. -/
inductive Move (κ : Type) where
  | up (who : κ)
  | down (who : κ)
  | advance (who : κ) (woken : Option κ)
  | wake (who : κ)
  deriving DecidableEq, Repr

def goto (semaphore : Semaphore κ) (who : κ) (pc : Pc) : Semaphore κ :=
  { semaphore with threads := Function.update semaphore.threads who pc }

/-- The next step of a thread. -/
def advance (semaphore : Semaphore κ) (who : κ) (woken : Option κ) :
    Except Overflow (Semaphore κ) :=
  match semaphore.threads who with
  | .idle | .sleeping => .ok semaphore
  | .upLock => .ok ({ semaphore with mutex := some who }.goto who .increment)
  | .increment =>
    if semaphore.val = intMax then .error .increment
    else .ok ({ semaphore with
      val := semaphore.val + 1, log := semaphore.log ++ [Event.incremented who] }.goto who .upTest)
  | .upTest => .ok (semaphore.goto who (if semaphore.val > 0 then .signal else .upUnlock))
  | .signal =>
    match woken with
    | some sleeper => .ok ((semaphore.goto sleeper .relock).goto who .upUnlock)
    | none => .ok (semaphore.goto who .upUnlock)
  | .downLock | .relock => .ok ({ semaphore with mutex := some who }.goto who .downTest)
  | .downTest => .ok (semaphore.goto who (if semaphore.val ≤ 0 then .wait else .decrement))
  | .wait => .ok ({ semaphore with mutex := none }.goto who .sleeping)
  | .decrement =>
    if semaphore.val = intMin then .error .decrement
    else .ok ({ semaphore with
      val := semaphore.val - 1, log := semaphore.log ++ [Event.decremented who] }.goto who .downUnlock)
  | .upUnlock | .downUnlock => .ok ({ semaphore with mutex := none }.goto who .idle)

def exec (semaphore : Semaphore κ) : Move κ → Except Overflow (Semaphore κ)
  | .up who => .ok (semaphore.goto who .upLock)
  | .down who => .ok (semaphore.goto who .downLock)
  | .advance who woken => semaphore.advance who woken
  | .wake who => .ok (semaphore.goto who .relock)

/-- A signal wakes one sleeper, if there is one. -/
def Wakes (semaphore : Semaphore κ) : Option κ → Prop
  | some sleeper => semaphore.threads sleeper = .sleeping
  | none => ∀ who, semaphore.threads who ≠ .sleeping

/-- Whether the next step from a place can be taken: a lock waits. -/
def Ready (semaphore : Semaphore κ) (woken : Option κ) : Pc → Prop
  | .idle | .sleeping => False
  | .upLock | .downLock | .relock => semaphore.mutex = none
  | .signal => semaphore.Wakes woken
  | .increment | .upTest | .upUnlock | .downTest | .wait | .decrement | .downUnlock => True

/-- Whether the move can be made: a thread is in one call at a time. -/
def Allowed (semaphore : Semaphore κ) : Move κ → Prop
  | .up who | .down who => semaphore.threads who = .idle
  | .advance who woken => semaphore.Ready woken (semaphore.threads who)
  | .wake who => semaphore.threads who = .sleeping

instance [Fintype κ] (semaphore : Semaphore κ) : DecidablePred semaphore.Wakes
  | some _ => inferInstanceAs (Decidable (_ = _))
  | none => inferInstanceAs (Decidable (∀ _, _))

instance [Fintype κ] (semaphore : Semaphore κ) (woken : Option κ) :
    DecidablePred (semaphore.Ready woken)
  | .idle | .sleeping => isFalse id
  | .upLock | .downLock | .relock => inferInstanceAs (Decidable (_ = _))
  | .signal => inferInstanceAs (Decidable (semaphore.Wakes woken))
  | .increment | .upTest | .upUnlock | .downTest | .wait | .decrement | .downUnlock =>
    isTrue trivial

instance [Fintype κ] (semaphore : Semaphore κ) : DecidablePred semaphore.Allowed
  | .up _ | .down _ | .wake _ => inferInstanceAs (Decidable (_ = _))
  | .advance _ woken => inferInstanceAs (Decidable (semaphore.Ready woken _))

/-- Every interleaving of any number of threads, from the constructor on. -/
def program (κ : Type) [DecidableEq κ] (initVal : Int) :
    Program (Semaphore κ) (Move κ) Overflow where
  start := { val := initVal }
  allowed := Allowed
  exec := exec

instance [Fintype κ] (initVal : Int) (semaphore : Semaphore κ) :
    DecidablePred ((program κ initVal).allowed semaphore) :=
  inferInstanceAs (DecidablePred semaphore.Allowed)

end Semaphore
end EventDisp
