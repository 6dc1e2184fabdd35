import EventDisp.MPEventDispatcherProgress

/-! What `enqueueTask` of several dispatchers answers. `stop` and `resume` do nothing
there: whatever is brought is put on a queue and executed, and the answer is `true`. -/
namespace EventDisp.MPEventDispatcher

open Execution EventDispatcher EventDispatcherInterface

variable {τ : Type} [DecidableEq τ] {concurrentTaskCount : Nat} {rule : Rule τ}
variable {system : System concurrentTaskCount τ} {destination : Fin concurrentTaskCount}

def Event.mark? : Event concurrentTaskCount τ → Option (Mark τ)
  | .called _ newTask => some (.called newTask)
  | .returned _ newTask answer => some (.answered (some newTask) answer)
  | .dispatched _ (.pushed task) => some (.pushed task)
  | .dispatched _ (.started task) => some (.started task)
  | .dispatched .. => none

/-- What the callers see of one attempt. -/
def marksOf (rule : Rule τ) (attempt : System concurrentTaskCount τ × Move concurrentTaskCount τ) :
    List (Mark τ) :=
  match attempt.2 with
  | .stop _ => [.stopped]
  | .resume _ => [.resumed]
  | .enqueueTask .. | .caller _ | .eventLoop _ =>
    match attempt.1.dispatcher.step rule attempt.2 with
    | .ok (_, events) => events.filterMap Event.mark?
    | .error _ => []

/-- What the callers see of a run. -/
def marks (rule : Rule τ)
    (attempts : List (System concurrentTaskCount τ × Move concurrentTaskCount τ)) : List (Mark τ) :=
  attempts.flatMap (marksOf rule)

end EventDisp.MPEventDispatcher
