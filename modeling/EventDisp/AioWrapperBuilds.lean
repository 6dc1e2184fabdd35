import EventDisp.AioWrapper

/-! The two builds of `aio_wrapper.cc` beside each other, request by request: the tasks
that one request has enqueued when it is over. -/
namespace EventDisp.AioWrapper

variable {κ : Type}

def Action.task : Action κ → List (UnitTask κ)
  | .enqueue task => [task]
  | .deleteCallback _ | .deleteAiocb _ | .deleteInfo _ => []

namespace Heap

/-- All that a function has left to do, with the tasks it enqueues. -/
def play (heap : Heap κ) : List (Action κ) → Except Fault (Heap κ × List (UnitTask κ))
  | [] => .ok (heap, [])
  | action :: rest => do
    let heap ← heap.perform action
    let (heap, tasks) ← heap.play rest
    return (heap, action.task ++ tasks)

end Heap

/-- What `aio_error` answers with so many `EINPROGRESS` still to come. -/
def Answer.pending (answer : Answer) : Nat → Answer
  | 0 => answer
  | _ + 1 => { answer with status := EINPROGRESS }

/-- The task that polls runs until it has enqueued another one, or none. -/
def poll (answer : Answer) : Nat → Heap κ → List (UnitTask κ) →
    Except Fault (Heap κ × List (UnitTask κ))
  | polls + 1, heap, [⟨.checkIOProgress aioCB callback, _⟩] => do
    let script ← checkIOProgress heap (answer.pending polls) aioCB callback
    let (heap, tasks) ← heap.play script
    poll answer polls heap tasks
  | _, heap, tasks => .ok (heap, tasks)

/-- A request in the polling build; `aio_error` answers `EINPROGRESS` so many times. -/
def pollingRun (heap : Heap κ) (call : Call κ) (answer : Answer) (polls : Nat) :
    Except Fault (Heap κ × List (UnitTask κ)) := do
  let (heap, _, script) ← request .polling heap call (answer.pending polls)
  let (heap, tasks) ← heap.play script
  poll answer polls heap tasks

/-- A request in the signal build; the system sends `SIGIO` when it is over. -/
def signalRun (heap : Heap κ) (call : Call κ) (answer : Answer) :
    Except Fault (Heap κ × List (UnitTask κ)) := do
  let (heap, aioCB, script) ← request .signal heap call answer
  let (heap, tasks) ← heap.play script
  if 0 ≤ answer.ret then
    let aiocb ← heap.aiocb aioCB
    match aiocb.sival_ptr with
    | none => .error .nullAccess
    | some sival_ptr => do
      let script ← aio_done heap answer sival_ptr
      let (heap, completed) ← heap.play script
      return (heap, tasks ++ completed)
  else return (heap, tasks)

/-- Both builds end without a fault and have enqueued the same tasks. -/
def Agree (heap : Heap κ) (call : Call κ) (answer : Answer) (polls : Nat) : Prop :=
  ∃ polling signal tasks, pollingRun heap call answer polls = .ok (polling, tasks) ∧
    signalRun heap call answer = .ok (signal, tasks)

variable {heap : Heap κ} {call : Call κ} {answer : Answer} {polls : Nat} {callback : IOCallback κ}
  {address aioCB : Nat} {aiocb : Aiocb}

/-- The task for the user's function. -/
def IOCallback.notified (callback : IOCallback κ) (job : Option (Job κ)) : List (UnitTask κ) :=
  (job.map fun task => ⟨task, callback.id⟩).toList

theorem play_notify (job : Option (Job κ)) (rest : List (Action κ)) :
    heap.play (callback.notify job ++ rest) = (heap.play rest).map fun (heap, tasks) =>
      (heap, callback.notified job ++ tasks) := by
  cases job with
  | none =>
    cases played : heap.play rest <;> simp [IOCallback.notify, IOCallback.notified, played,
      Except.map]
  | some task =>
    cases played : heap.play rest <;>
      simp [IOCallback.notify, IOCallback.notified, Heap.play, Heap.perform, Action.task, played,
      Except.map, bind, Except.bind, pure, Except.pure]

/-- Objects that are there are deleted. -/
theorem play_deletes (held : heap.callbacks address = some callback)
    (own : heap.aiocbs aioCB = some aiocb) (job : Option (Job κ)) :
    ∃ after, heap.play (callback.notify job ++ [.deleteCallback address, .deleteAiocb aioCB]) =
    .ok (after, callback.notified job) := by
  rw [play_notify]
  exact ⟨_, by simp [Heap.play, Heap.perform, Heap.callback, Heap.aiocb, held, own, Action.task, Except.map, bind, Except.bind, pure, Except.pure]; rfl⟩

/-- One check and all that follow from it. -/
def round (answer : Answer) (polls : Nat) (heap : Heap κ) (aioCB : Nat) (callback : Option Nat) :
    Except Fault (Heap κ × List (UnitTask κ)) := do
  let script ← checkIOProgress heap (answer.pending polls) aioCB callback
  let (heap, tasks) ← heap.play script
  poll answer polls heap tasks

/-- However often it polls, the user's function for the final status is enqueued. -/
theorem round_completes (final : answer.status ≠ EINPROGRESS)
    (held : heap.callbacks address = some callback) (own : heap.aiocbs aioCB = some aiocb) :
    ∃ after, round answer polls heap aioCB (some address) = .ok (after,
    callback.notified (callback.completed aiocb answer)) := by
  induction polls with
  | zero =>
    obtain ⟨after, played⟩ := play_deletes held own (callback.completed aiocb answer)
    refine ⟨after, ?_⟩
    simp only [round, checkIOProgress, Answer.pending, Heap.aiocb, own, Heap.callback, held, final,
      if_false, bind, Except.bind, pure,
      Except.pure, played, poll]
  | succ polls ih =>
    obtain ⟨after, ran⟩ := ih
    refine ⟨after, ?_⟩
    rw [← ran]
    simp [round, checkIOProgress, Answer.pending, Heap.aiocb, own, Heap.callback, held, Heap.play,
      Heap.perform, Action.task, poll, bind,
      Except.bind, pure, Except.pure]

/-- Without a callback the first check must be the last. -/
theorem round_null (polls : Nat) (final : answer.status ≠ EINPROGRESS)
    (own : heap.aiocbs aioCB = some aiocb) :
    (∃ after, round answer 0 heap aioCB none = .ok (after, [])) ∧
    round answer (polls + 1) heap aioCB none = .error .nullAccess := by
  constructor
  · exact ⟨_, by simp [round, checkIOProgress, Answer.pending, Heap.aiocb, own, final, Heap.play, Heap.perform, Action.task, poll, bind, Except.bind,
      pure, Except.pure]; rfl⟩
  · simp [round, checkIOProgress, Answer.pending, Heap.aiocb, own, Heap.callback, bind, Except.bind]

/-- The user's functions are no polls. -/
theorem poll_notified {job : Option (Job κ)}
    (users : ∀ aioCB callback, job ≠ some (.checkIOProgress aioCB callback)) :
    poll answer polls heap (callback.notified job) = .ok (heap, callback.notified job) := by
  match job, polls with
  | none, 0 | none, _ + 1 => rfl
  | some (.okCB ..), 0 | some (.okCB ..), _ + 1 => rfl
  | some (.errCB ..), 0 | some (.errCB ..), _ + 1 => rfl
  | some (.checkIOProgress aioCB callback), _ => exact absurd rfl (users aioCB callback)

theorem Answer.pending_ret : (answer.pending polls).ret = answer.ret := by cases polls <;> rfl

theorem Answer.pending_errno : (answer.pending polls).errno = answer.errno := by cases polls <;> rfl

theorem asked_held (given : call.callback = some callback) :
    (heap.asked call).callbacks heap.next = some callback := by
  simp [Heap.asked, given]

theorem asked_own (heap : Heap κ) (call : Call κ) :
    (heap.asked call).aiocbs heap.next = some call.aioCB := by
  simp [Heap.asked]

/-- An accepted request is the first check and what follows from it. -/
theorem pollingRun_accepted (accepted : 0 ≤ answer.ret) : pollingRun heap call answer polls =
    round answer polls (heap.asked call) heap.next (call.callback.map fun _ => heap.next) := by
  rw [pollingRun, request_polling, Answer.pending_ret, if_pos accepted, round]
  cases checkIOProgress (heap.asked call) (answer.pending polls) heap.next
    (call.callback.map fun _ => heap.next) <;> rfl

theorem poll_nil : poll answer polls heap [] = .ok (heap, []) := by cases polls <;> rfl

/-- A refused one is deleted, and `errCB` is told. -/
theorem pollingRun_refused (heap : Heap κ) (call : Call κ) (polls : Nat)
    (rejected : ¬ 0 ≤ answer.ret) : ∃ after, pollingRun heap call answer polls = .ok (after,
    match call.callback with
    | none => []
    | some callback =>
      callback.notified (callback.errCB.map fun errCB => .errCB errCB call.fd answer.errno)) := by
  rw [pollingRun, request_polling, Answer.pending_ret, if_neg rejected]
  cases given : call.callback with
  | none =>
    simp only [refused, Heap.aiocb, asked_own, Option.map_none, bind, Except.bind, pure,
      Except.pure, Except.map, Heap.play,
      Heap.perform, Action.task, List.append_nil, poll_nil]
    exact ⟨_, rfl⟩
  | some callback =>
    obtain ⟨after, played⟩ := play_deletes (asked_held given) (asked_own heap call)
      (callback.errCB.map fun errCB => .errCB errCB call.fd answer.errno)
    refine ⟨after, ?_⟩
    simp only [refused, Heap.aiocb, asked_own, Option.map_some, Heap.callback, asked_held given,
      bind, Except.bind, pure, Except.pure,
      Except.map, Answer.pending_errno, Call.aioCB, played]
    apply poll_notified
    intro aioCB pointer poll
    cases told : callback.errCB <;> simp [told] at poll

/-- `~AIOSigHandlerInfo` finds what it deletes. -/
theorem play_info {info : AIOSigHandlerInfo} {pointer : Nat}
    (noted : heap.infos pointer = some info) (own : heap.aiocbs info.aioCB = some aiocb)
    (held : ∀ address ∈ info.callback, heap.callbacks address ≠ none) :
    ∃ after, heap.play (info.delete pointer) = .ok (after, []) := by
  obtain ⟨aioCB, callback⟩ := info
  cases callback with
  | none =>
    exact ⟨_, by simp [AIOSigHandlerInfo.delete, Heap.play, Heap.perform, Heap.aiocb, own, Heap.info, noted, Action.task, bind,
      Except.bind, pure, Except.pure]; rfl⟩
  | some address =>
    obtain ⟨callback, found⟩ := Option.ne_none_iff_exists'.mp (held address rfl)
    exact ⟨_, by simp [AIOSigHandlerInfo.delete, Heap.play, Heap.perform, Heap.callback, found, Heap.aiocb, own, Heap.info, noted,
      Action.task, bind, Except.bind, pure, Except.pure]; rfl⟩

/-- What the signal build enqueues. -/
theorem signalRun_ends (heap : Heap κ) (call : Call κ) (answer : Answer) : ∃ after,
    signalRun heap call answer = .ok (after,
    match call.callback with
    | none => []
    | some callback =>
      if 0 ≤ answer.ret then callback.notified (callback.completed call.aioCB answer) else []) := by
  have noted : (heap.signalled call).infos heap.next = some ⟨heap.next, call.callback.map fun _ =>
    heap.next⟩ := by
    simp [Heap.signalled]
  have own : (heap.signalled call).aiocbs heap.next =
    some { call.aioCB with sival_ptr := some heap.next } := by
    simp [Heap.signalled]
  have there (address : Nat) (pointed : address ∈ call.callback.map fun _ => heap.next) :
      (heap.signalled call).callbacks address ≠ none := by
    obtain ⟨callback, given, rfl⟩ := Option.map_eq_some_iff.mp pointed
    simp [Heap.signalled, asked_held given]
  obtain ⟨after, played⟩ := play_info noted own there
  refine ⟨after, ?_⟩
  by_cases accepted : 0 ≤ answer.ret
  · cases given : call.callback with
    | none =>
      rw [given] at noted played
      simp only [Option.map_none] at noted played
      simp [signalRun, request_signal, accepted, Heap.play, Heap.aiocb, own, aio_done, Heap.info,
        noted, played, bind,
        Except.bind, pure, Except.pure]
    | some callback =>
      have held : (heap.signalled call).callbacks heap.next = some callback := asked_held given
      rw [given] at noted played
      simp only [Option.map_some] at noted played
      simp [signalRun, request_signal, accepted, Heap.play, Heap.aiocb, own, aio_done, Heap.info,
        noted, Heap.callback,
        held, play_notify, played, Except.map, bind, Except.bind, pure, Except.pure,
        IOCallback.completed]
  · simp only [signalRun, request_signal, accepted, if_false, played, bind, Except.bind, pure,
      Except.pure]
    cases call.callback <;> rfl

/-- The two builds enqueue the same for a request, and end, exactly when the request is not
refused with an `errCB` to tell, and a request without a callback is not pending at the
first check. -/
theorem builds_agree_iff (final : answer.status ≠ EINPROGRESS) : Agree heap call answer polls ↔
    ¬ (answer.ret < 0 ∧ ∃ callback, call.callback = some callback ∧ callback.errCB ≠ none) ∧
      ¬ (0 ≤ answer.ret ∧ call.callback = none ∧ 0 < polls) := by
  obtain ⟨signal, ended⟩ := signalRun_ends heap call answer
  -- the signal build always ends, so the polling build has to end with the same tasks
  have same : Agree heap call answer polls ↔ ∃ polling,
    pollingRun heap call answer polls = .ok (polling,
      match call.callback with
      | none => []
      | some callback =>
        if 0 ≤ answer.ret then callback.notified
          (callback.completed call.aioCB answer) else []) := by
    constructor
    · rintro ⟨polling, _, tasks, ran, signalled⟩
      cases ended.symm.trans signalled
      exact ⟨polling, ran⟩
    · rintro ⟨polling, ran⟩
      exact ⟨polling, signal, _, ran, ended⟩
  rw [same]
  by_cases accepted : 0 ≤ answer.ret
  · have kept : ¬ answer.ret < 0 := by omega
    simp only [pollingRun_accepted accepted, accepted, kept, false_and, not_false_eq_true, true_and,
      if_true]
    cases given : call.callback with
    | none =>
      cases polls with
      | zero => exact iff_of_true (round_null 0 final (asked_own heap call)).1 (by simp)
      | succ polls =>
        refine iff_of_false ?_ (by simp)
        rintro ⟨_, ran⟩
        cases (round_null polls final (asked_own heap call)).2.symm.trans ran
    | some callback =>
      exact iff_of_true (round_completes final (asked_held given) (asked_own heap call)) (by simp)
  · have rejected : answer.ret < 0 := by omega
    obtain ⟨polling, ran⟩ := pollingRun_refused heap call polls accepted
    simp only [rejected, true_and, accepted, false_and, not_false_eq_true, and_true, if_false]
    rw [ran]
    cases call.callback with
    | none => exact iff_of_true ⟨polling, rfl⟩ (by simp)
    | some callback =>
      cases told : callback.errCB with
      | none => exact iff_of_true ⟨polling, by simp [told, IOCallback.notified]⟩ (by simp [told])
      | some errCB =>
        refine iff_of_false ?_ (by simp [told])
        rintro ⟨_, none_told⟩
        simp [told, IOCallback.notified] at none_told

private def unasked : Call Char :=
  { aio_func := .aio_write, fd := 5, buff := 100, len := 8, offset := 0, callback := none }

private def asked : Call Char := { unasked with callback := some ⟨3, some 'o', some 'e'⟩ }

theorem builds_agree_run : Agree {} asked { ret := 0, ioResult := 8 } 2 ∧
    Agree {} asked { ret := 0, status := 9 } 2 ∧ Agree {} unasked { ret := -1, errno := 11 } 0 :=
  ⟨(builds_agree_iff (by decide)).mpr (by simp [asked]),
    (builds_agree_iff (by decide)).mpr (by simp [asked]),
    (builds_agree_iff (by decide)).mpr (by simp [unasked])⟩

/-- A refused request is only told to `errCB` in the polling build; and that build reads the
id of a callback that is not there. -/
theorem refusal_untold :
    (∃ polling signal, pollingRun {} asked { ret := -1, errno := 11 } 0 = .ok (polling,
      [⟨.errCB 'e' 5 11, 3⟩]) ∧
      signalRun {} asked { ret := -1, errno := 11 } = .ok (signal, []) ∧
      ¬ Agree {} asked { ret := -1, errno := 11 } 0) ∧
    pollingRun {} unasked { ret := 0, ioResult := 8 } 1 = .error .nullAccess ∧
      ∃ signal, signalRun {} unasked { ret := 0, ioResult := 8 } = .ok (signal, []) := by
  refine ⟨⟨_, _, rfl, rfl, ?_⟩, rfl, _, rfl⟩
  rintro ⟨polling, signal, tasks, polled, signalled⟩
  cases polled
  cases signalled

end EventDisp.AioWrapper
