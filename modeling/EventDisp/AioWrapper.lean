import Mathlib.Logic.Function.Basic
import EventDisp.Fault

/-! `aio_wrapper.cc` in its two builds: the objects a request owns, what each function
reads and decides, and the calls and deletions it then makes, in order. -/
namespace EventDisp.AioWrapper

/-- `IOCallback`; `κ` is the type of the user's functions. -/
structure IOCallback (κ : Type) where
  id : Nat
  okCB : Option κ
  errCB : Option κ
  deriving DecidableEq, Repr

/-- The parts of an `aiocb` that are set. -/
structure Aiocb where
  aio_fildes : Int
  aio_buf : Nat
  aio_nbytes : Nat
  aio_offset : Int
  sival_ptr : Option Nat := none
  deriving DecidableEq, Repr

structure AIOSigHandlerInfo where
  aioCB : Nat
  callback : Option Nat
  deriving DecidableEq, Repr

/-- What a task of the dispatcher does, with the bound arguments. -/
inductive Job (κ : Type) where
  | checkIOProgress (aioCB : Nat) (callback : Option Nat)
  | okCB (function : κ) (fd : Int) (buff : Nat) (ioResult : Int)
  | errCB (function : κ) (fd : Int) (status : Int)
  deriving DecidableEq, Repr

structure UnitTask (κ : Type) where
  task : Job κ
  id : Nat
  deriving DecidableEq, Repr

/-- What others see of a function once it has decided. -/
inductive Action (κ : Type) where
  | enqueue (task : UnitTask κ)
  | deleteCallback (callback : Nat)
  | deleteAiocb (aioCB : Nat)
  | deleteInfo (info : Nat)
  deriving DecidableEq, Repr

/-- The objects that have not been deleted, and the address of the next request's. The
addresses of deleted objects are not used again. -/
structure Heap (κ : Type) where
  callbacks : Nat → Option (IOCallback κ) := fun _ => none
  aiocbs : Nat → Option Aiocb := fun _ => none
  infos : Nat → Option AIOSigHandlerInfo := fun _ => none
  next : Nat := 0

/-- What the system answers: the result of `::aio_read` or `::aio_write`, `errno` where it
is read, and the results of `aio_error` and `aio_return`. -/
structure Answer where
  ret : Int := 0
  errno : Int := 0
  status : Int := 0
  ioResult : Int := 0
  deriving DecidableEq, Repr

/-- Whether `LIBEVENT_USE_SIG` is defined. -/
inductive Build where
  | polling
  | signal
  deriving DecidableEq, Repr

inductive AioFunc where
  | aio_read
  | aio_write
  deriving DecidableEq, Repr

/-- A call of `aio_read` or `aio_write`. -/
structure Call (κ : Type) where
  aio_func : AioFunc
  fd : Int
  buff : Nat
  len : Nat
  offset : Int
  callback : Option (IOCallback κ)
  deriving DecidableEq, Repr

def EINPROGRESS : Int := 115

section Code

variable {κ : Type}

namespace Heap

variable (heap : Heap κ)

def callback : Option Nat → Except Fault (IOCallback κ)
  | none => .error .nullAccess
  | some address =>
    match heap.callbacks address with
    | some callback => .ok callback
    | none => .error .dangling

def aiocb (address : Nat) : Except Fault Aiocb :=
  match heap.aiocbs address with
  | some aiocb => .ok aiocb
  | none => .error .dangling

def info (address : Nat) : Except Fault AIOSigHandlerInfo :=
  match heap.infos address with
  | some info => .ok info
  | none => .error .dangling

/-- Deleting what has been deleted is a use of it. -/
def perform : Action κ → Except Fault (Heap κ)
  | .enqueue _ => .ok heap
  | .deleteCallback address => do
    let _ ← heap.callback (some address)
    return { heap with callbacks := Function.update heap.callbacks address none }
  | .deleteAiocb address => do
    let _ ← heap.aiocb address
    return { heap with aiocbs := Function.update heap.aiocbs address none }
  | .deleteInfo address => do
    let _ ← heap.info address
    return { heap with infos := Function.update heap.infos address none }

end Heap

/-- The call of `okCB` or `errCB`, unless it is NULL. -/
def IOCallback.notify (callback : IOCallback κ) (job : Option (Job κ)) : List (Action κ) :=
  (job.map fun task => .enqueue ⟨task, callback.id⟩).toList

/-- The user's function for a final status. -/
def IOCallback.completed (callback : IOCallback κ) (aiocb : Aiocb) (answer : Answer) :
    Option (Job κ) :=
  if answer.status = 0 then callback.okCB.map fun okCB =>
    .okCB okCB aiocb.aio_fildes aiocb.aio_buf answer.ioResult
  else callback.errCB.map fun errCB => .errCB errCB aiocb.aio_fildes answer.status

/-- `checkIOProgress`. -/
def checkIOProgress (heap : Heap κ) (answer : Answer) (aioCB : Nat) (callback : Option Nat) :
    Except Fault (List (Action κ)) := do
  let aiocb ← heap.aiocb aioCB
  if answer.status = EINPROGRESS then
    let held ← heap.callback callback
    return [.enqueue ⟨.checkIOProgress aioCB callback, held.id⟩]
  else
    match callback with
    | none => return [.deleteAiocb aioCB]
    | some address => do
      let held ← heap.callback callback
      return held.notify (held.completed aiocb answer) ++ [.deleteCallback address,
      .deleteAiocb aioCB]

/-- The end of `aioSkeletonFunction` in the polling build, when the system has refused. -/
def refused (heap : Heap κ) (answer : Answer) (aioCB : Nat) (callback : Option Nat) :
    Except Fault (List (Action κ)) := do
  let aiocb ← heap.aiocb aioCB
  match callback with
  | none => return [.deleteAiocb aioCB]
  | some address => do
    let held ← heap.callback callback
    return held.notify (held.errCB.map fun errCB => .errCB errCB aiocb.aio_fildes answer.errno) ++
      [.deleteCallback address, .deleteAiocb aioCB]

/-- `~AIOSigHandlerInfo`. -/
def AIOSigHandlerInfo.delete (info : AIOSigHandlerInfo) (address : Nat) : List (Action κ) :=
  (info.callback.map Action.deleteCallback).toList ++ [.deleteAiocb info.aioCB, .deleteInfo address]

/-- `aio_done`, for a `SIGIO` with the given `sival_ptr`. -/
def aio_done (heap : Heap κ) (answer : Answer) (sival_ptr : Nat) :
    Except Fault (List (Action κ)) := do
  let origInfo ← heap.info sival_ptr
  let aiocb ← heap.aiocb origInfo.aioCB
  match origInfo.callback with
  | none => return origInfo.delete sival_ptr
  | some _ => do
    let held ← heap.callback origInfo.callback
    return held.notify (held.completed aiocb answer) ++ origInfo.delete sival_ptr

/-- The `aiocb` that `aioSkeletonFunction` fills in. -/
def Call.aioCB (call : Call κ) : Aiocb :=
  { aio_fildes := call.fd, aio_buf := call.buff, aio_nbytes := call.len, aio_offset := call.offset }

/-- `aioSkeletonFunction`, with the address of its `aiocb` and what it has left to do. -/
def aioSkeletonFunction (build : Build) (heap : Heap κ) (call : Call κ) (callback : Option Nat)
    (answer : Answer) :
    Except Fault (Heap κ × Nat × List (Action κ)) := do
  let aioCB := heap.next
  let heap :=
    { heap with next := aioCB + 1, aiocbs := Function.update heap.aiocbs aioCB (some call.aioCB) }
  match build with
  | .polling => do
    let script ← if 0 ≤ answer.ret then checkIOProgress heap answer aioCB callback else refused heap answer aioCB callback
    return (heap, aioCB, script)
  | .signal => do
    let heap :=
      { heap with
        infos := Function.update heap.infos aioCB (some ⟨aioCB, callback⟩)
        aiocbs :=
          Function.update heap.aiocbs aioCB (some { call.aioCB with sival_ptr := some aioCB }) }
    if 0 ≤ answer.ret then return (heap, aioCB, [])
    else
      let origInfo ← heap.info aioCB
      return (heap, aioCB, origInfo.delete aioCB)

/-- The caller makes the `IOCallback` and calls `aio_read` or `aio_write` with it. -/
def request (build : Build) (heap : Heap κ) (call : Call κ) (answer : Answer) :
    Except Fault (Heap κ × Nat × List (Action κ)) :=
  match call.callback with
  | none => aioSkeletonFunction build heap call none answer
  | some callback =>
    aioSkeletonFunction build
      { heap with callbacks := Function.update heap.callbacks heap.next (some callback) } call
      (some heap.next) answer

/-- The objects there are once a request has been made. -/
def Heap.asked (heap : Heap κ) (call : Call κ) : Heap κ :=
  { heap with
    callbacks := match call.callback with
      | none => heap.callbacks
      | some callback => Function.update heap.callbacks heap.next (some callback)
    aiocbs := Function.update heap.aiocbs heap.next (some call.aioCB)
    next := heap.next + 1 }

theorem request_polling (heap : Heap κ) (call : Call κ) (answer : Answer) :
    request .polling heap call answer =
    (if 0 ≤ answer.ret then checkIOProgress (heap.asked call) answer heap.next
      (call.callback.map fun _ => heap.next)
      else refused (heap.asked call) answer heap.next (call.callback.map fun _ => heap.next)).map
        fun script => (heap.asked call, heap.next, script) := by
  unfold request Heap.asked
  cases call.callback <;> by_cases accepted : 0 ≤ answer.ret <;>
    simp only [aioSkeletonFunction, accepted, if_true, if_false, Option.map_none,
    Option.map_some] <;> rfl

/-- The same in the signal build. -/
def Heap.signalled (heap : Heap κ) (call : Call κ) : Heap κ :=
  { heap.asked call with
    infos := Function.update heap.infos heap.next
      (some ⟨heap.next, call.callback.map fun _ => heap.next⟩)
    aiocbs :=
      Function.update heap.aiocbs heap.next (some { call.aioCB with sival_ptr := some heap.next }) }

theorem request_signal (heap : Heap κ) (call : Call κ) (answer : Answer) :
    request .signal heap call answer =
    .ok (heap.signalled call, heap.next,
      if 0 ≤ answer.ret then [] else AIOSigHandlerInfo.delete ⟨heap.next, call.callback.map fun _ =>
        heap.next⟩ heap.next) := by
  unfold request Heap.signalled Heap.asked
  cases call.callback <;> by_cases accepted : 0 ≤ answer.ret <;>
    simp [aioSkeletonFunction, accepted, Heap.info, bind, Except.bind, pure, Except.pure]

end Code

end EventDisp.AioWrapper
