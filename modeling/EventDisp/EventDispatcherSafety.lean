import EventDisp.EventDispatcher
import EventDisp.General.Lock
import EventDisp.General.SerialQueue

/-! The dispatcher is a serial queue: whatever the interleaving, its log is one a
queue with a single worker can have. -/
namespace EventDisp.EventDispatcher

open Execution

variable {ρ τ : Type} [DecidableEq ρ] [DecidableEq τ] {runner : ρ}
variable {dispatcher next : EventDispatcher ρ τ} {move : Move ρ τ} {log events : List (Event ρ τ)}

/-- The caller is inside the critical section on `queueMutex_`. -/
def CallerPc.locksQueue : CallerPc τ → Bool
  | .enqueueTest _ | .enqueuePush _ | .enqueueCount _ | .enqueueDiscard _ => true
  | .idle | .enqueueLock _ | .stopLock | .stopWrite | .resumeLock | .resumeTest | .resumeWrite =>
    false

/-- The caller is inside the critical section on `stoppedMutex_`. -/
def CallerPc.locksStopped : CallerPc τ → Bool
  | .stopWrite | .resumeTest | .resumeWrite => true
  | .idle | .enqueueLock _ | .enqueueTest _ | .enqueuePush _ | .enqueueCount _ | .enqueueDiscard _
  | .stopLock | .resumeLock => false

def DestructorPc.locksStopped : DestructorPc → Bool
  | .writeStopped | .writeDying => true
  | .notCalled | .lock | .join | .done => false

def LoopPc.locksQueue : LoopPc τ → Bool
  | .waitTest | .waitTestDying | .returnTest | .returnTestEmpty | .front | .pop _ | .popCount _ =>
    true
  | .lock | .wait | .executeTest _ | .executing _ | .popLock _ | .delete _ | .returned => false

/-- What the event loop knows at each place. -/
def LoopKnows (dispatcher : EventDispatcher ρ τ) : Prop :=
  match dispatcher.eventLoop with
  | .returnTest => dispatcher.taskQueue ≠ [] ∨ dispatcher.isDying = true
  | .returnTestEmpty | .returned => dispatcher.isDying = true
  | .front => dispatcher.taskQueue ≠ []
  | .executeTest nextTask | .executing nextTask | .popLock nextTask | .pop nextTask =>
    dispatcher.taskQueue.head? = some nextTask
  | .lock | .waitTest | .waitTestDying | .wait | .popCount _ | .delete _ => True

/-- Who is inside the critical section on `queueMutex_`. -/
def insideQueue (dispatcher : EventDispatcher ρ τ) : Holder ρ → Bool
  | .caller caller => (dispatcher.callers caller).locksQueue
  | .destructor => false
  | .eventLoop => dispatcher.eventLoop.locksQueue

/-- Who is inside the critical section on `stoppedMutex_`. -/
def insideStopped (dispatcher : EventDispatcher ρ τ) : Holder ρ → Bool
  | .caller caller => (dispatcher.callers caller).locksStopped
  | .destructor => dispatcher.destructor.locksStopped
  | .eventLoop => false

/-- The locks exclude, and what a caller, the destructor or the loop has read is
still so. -/
structure Sound (dispatcher : EventDispatcher ρ τ) : Prop where
  queueLock : Lock.Guards dispatcher.queueMutex dispatcher.insideQueue
  stoppedLock : Lock.Guards dispatcher.stoppedMutex dispatcher.insideStopped
  resuming : ∀ caller, dispatcher.callers caller = .resumeWrite → dispatcher.isDying = false
  closing : dispatcher.destructor = .writeDying → dispatcher.isStopped = true
  dying : dispatcher.isDying = true → dispatcher.isStopped = true
  pushing : ∀ caller task, dispatcher.callers caller = .enqueuePush task →
    dispatcher.eventLoop ≠ .returned
  loopKnows : LoopKnows dispatcher

omit [DecidableEq ρ] [DecidableEq τ] in
theorem Sound.start : Sound ({} : EventDispatcher ρ τ) where
  queueLock := .start fun who => by cases who <;> rfl
  stoppedLock := .start fun who => by cases who <;> rfl
  resuming := nofun
  closing := nofun
  dying := nofun
  pushing := nofun
  loopKnows := trivial

theorem mayCall_idle {caller : ρ} (mayCall : dispatcher.mayCall runner caller = true) :
    dispatcher.callers caller = .idle := by
  simp only [EventDispatcher.mayCall, Bool.and_eq_true, decide_eq_true_eq] at mayCall
  exact mayCall.1

section Callers

variable {caller : ρ} {pc : CallerPc τ}

omit [DecidableEq τ] in
private theorem queue_others (callers : next.callers = (dispatcher.goto caller pc).callers)
    (loop : next.eventLoop = dispatcher.eventLoop) (other : Holder ρ)
    (different : other ≠ .caller caller) :
    next.insideQueue other = dispatcher.insideQueue other := by
  cases other with
  | caller other =>
    have apart : other ≠ caller := fun same => different (by rw [same])
    simp [insideQueue, callers, apart]
  | destructor => rfl
  | eventLoop => simp [insideQueue, loop]

omit [DecidableEq τ] in
private theorem stopped_others (callers : next.callers = (dispatcher.goto caller pc).callers)
    (destructor : next.destructor = dispatcher.destructor) (other : Holder ρ)
    (different : other ≠ .caller caller) :
    next.insideStopped other = dispatcher.insideStopped other := by
  cases other with
  | caller other =>
    have apart : other ≠ caller := fun same => different (by rw [same])
    simp [insideStopped, callers, apart]
  | destructor => simp [insideStopped, destructor]
  | eventLoop => rfl

omit [DecidableEq τ] in
/-- A caller that stays inside or outside the critical section on the queue. -/
private theorem queue_same (sound : Sound dispatcher)
    (same : pc.locksQueue = (dispatcher.callers caller).locksQueue) :
    Lock.Guards dispatcher.queueMutex (dispatcher.goto caller pc).insideQueue := by
  apply sound.queueLock.keep
  intro who
  by_cases own : who = .caller caller
  · subst own
    simp [insideQueue, same]
  · exact queue_others rfl rfl who own

omit [DecidableEq τ] in
/-- A caller that stays inside or outside the critical section on the flags. -/
private theorem stopped_same (sound : Sound dispatcher)
    (same : pc.locksStopped = (dispatcher.callers caller).locksStopped) :
    Lock.Guards dispatcher.stoppedMutex (dispatcher.goto caller pc).insideStopped := by
  apply sound.stoppedLock.keep
  intro who
  by_cases own : who = .caller caller
  · subst own
    simp [insideStopped, same]
  · exact stopped_others rfl rfl who own

omit [DecidableEq ρ] [DecidableEq τ] in
/-- What the loop knows of the queue stays true when a task is pushed. -/
private theorem loopKnows_push (knows : LoopKnows dispatcher)
    (loop : next.eventLoop = dispatcher.eventLoop) (dying : next.isDying = dispatcher.isDying)
    (queue : ∃ rest, next.taskQueue = dispatcher.taskQueue ++ rest) : LoopKnows next := by
  obtain ⟨rest, shape⟩ := queue
  have filled (some : dispatcher.taskQueue ≠ []) : next.taskQueue ≠ [] := by simp [shape, some]
  have head {task : UnitTask τ} (first : dispatcher.taskQueue.head? = some task) :
      next.taskQueue.head? = some task := by
    simp [shape, List.head?_append, first]
  unfold LoopKnows at *
  rw [loop, dying]
  cases place : dispatcher.eventLoop with
  | returnTest =>
    simp only [place] at knows
    exact knows.imp_left filled
  | returnTestEmpty | returned =>
    simp only [place] at knows
    exact knows
  | front =>
    simp only [place] at knows
    exact filled knows
  | executeTest | executing | popLock | pop =>
    simp only [place] at knows
    exact head knows
  | lock | waitTest | waitTestDying | wait | popCount | delete => trivial

omit [DecidableEq τ] in
/-- A step of one caller, with what it needs to know at its next place. -/
private theorem sound_moves (sound : Sound dispatcher)
    (callers : next.callers = (dispatcher.goto caller pc).callers)
    (loop : next.eventLoop = dispatcher.eventLoop)
    (destructor : next.destructor = dispatcher.destructor)
    (dying : next.isDying = dispatcher.isDying)
    (queue : ∃ rest, next.taskQueue = dispatcher.taskQueue ++ rest)
    (queueLock : Lock.Guards next.queueMutex next.insideQueue)
    (stoppedLock : Lock.Guards next.stoppedMutex next.insideStopped)
    (resuming : pc = .resumeWrite → dispatcher.isDying = false)
    (pushing : ∀ task, pc = .enqueuePush task → dispatcher.eventLoop ≠ .returned)
    (stays : dispatcher.isStopped = true → next.isStopped = true ∨
      dispatcher.isDying = false ∧ dispatcher.destructor ≠ .writeDying) : Sound next where
  queueLock := queueLock
  stoppedLock := stoppedLock
  resuming who write := by
    rw [callers, goto_callers] at write
    rw [dying]
    split at write
    · exact resuming write
    · exact sound.resuming who write
  closing write := by
    rw [destructor] at write
    rcases stays (sound.closing write) with stopped | ⟨_, elsewhere⟩
    · exact stopped
    · exact absurd write elsewhere
  dying died := by
    rw [dying] at died
    rcases stays (sound.dying died) with stopped | ⟨living, _⟩
    · exact stopped
    · rw [living] at died
      cases died
  pushing who task push := by
    rw [callers, goto_callers] at push
    rw [loop]
    split at push
    · exact pushing task push
    · exact sound.pushing who task push
  loopKnows := loopKnows_push sound.loopKnows loop dying queue

omit [DecidableEq τ] in
/-- A caller that begins a call holds no lock yet. -/
private theorem sound_goto (sound : Sound dispatcher) (idle : dispatcher.callers caller = .idle)
    (queue : pc.locksQueue = false) (stopped : pc.locksStopped = false) :
    Sound (dispatcher.goto caller pc) := by
  refine sound_moves sound rfl rfl rfl rfl
    ⟨[], by simp [goto]⟩ (queue_same sound (by rw [idle, queue]; rfl))
    (stopped_same sound (by rw [idle, stopped]; rfl)) ?_ ?_ .inl
  · rintro rfl
    cases stopped
  · rintro task rfl
    cases queue

omit [DecidableEq τ] in
private theorem queue_acquired (sound : Sound dispatcher) (opened : dispatcher.queueMutex = none)
    (enters : pc.locksQueue = true) :
    Lock.Guards (some (.caller caller)) (dispatcher.goto caller pc).insideQueue := by
  have guards := sound.queueLock
  rw [opened] at guards
  exact guards.acquire (by simp [insideQueue, enters]) (queue_others rfl rfl)

omit [DecidableEq τ] in
private theorem queue_released (sound : Sound dispatcher)
    (present : (dispatcher.callers caller).locksQueue = true) (leaves : pc.locksQueue = false) :
    Lock.Guards none (dispatcher.goto caller pc).insideQueue :=
  sound.queueLock.release (show dispatcher.insideQueue (.caller caller) = true from present)
    (by simp [insideQueue, leaves]) (queue_others rfl rfl)

omit [DecidableEq τ] in
private theorem stopped_acquired (sound : Sound dispatcher)
    (opened : dispatcher.stoppedMutex = none) (enters : pc.locksStopped = true) :
    Lock.Guards (some (.caller caller)) (dispatcher.goto caller pc).insideStopped := by
  have guards := sound.stoppedLock
  rw [opened] at guards
  exact guards.acquire (by simp [insideStopped, enters]) (stopped_others rfl rfl)

omit [DecidableEq τ] in
private theorem stopped_released (sound : Sound dispatcher)
    (present : (dispatcher.callers caller).locksStopped = true) (leaves : pc.locksStopped = false) :
    Lock.Guards none (dispatcher.goto caller pc).insideStopped :=
  sound.stoppedLock.release (show dispatcher.insideStopped (.caller caller) = true from present)
    (by simp [insideStopped, leaves]) (stopped_others rfl rfl)

private theorem sound_caller (sound : Sound dispatcher)
    (enabled : dispatcher.enabled runner (.caller caller) = true) :
    Sound (dispatcher.callerStep caller).1 := by
  have unmoved : ∃ rest, dispatcher.taskQueue = dispatcher.taskQueue ++ rest := ⟨[], by simp⟩
  simp only [EventDispatcher.enabled] at enabled
  cases pc : dispatcher.callers caller with
  | idle => simp [pc] at enabled
  | enqueueLock newTask =>
    simp only [pc, Option.isNone_iff_eq_none] at enabled
    simp only [callerStep, pc]
    exact sound_moves sound rfl rfl rfl rfl unmoved (queue_acquired sound enabled rfl)
      (stopped_same sound (by rw [pc]; rfl)) nofun nofun .inl
  | enqueueTest newTask =>
    simp only [callerStep, pc]
    split
    · rename_i task accepting
      have living : dispatcher.isDying = false := by
        cases died : dispatcher.isDying with
        | false => rfl
        | true =>
          rw [sound.dying died] at accepting
          cases accepting
      refine sound_moves sound rfl rfl rfl rfl unmoved (queue_same sound (by rw [pc]; rfl))
        (stopped_same sound (by rw [pc]; rfl)) nofun ?_ .inl
      -- The loop returns only when it has seen `isDying_`.
      intro _ _ returned
      have knows := sound.loopKnows
      simp only [LoopKnows, returned] at knows
      rw [living] at knows
      cases knows
    · exact sound_moves sound rfl rfl rfl rfl unmoved (queue_same sound (by rw [pc]; rfl))
        (stopped_same sound (by rw [pc]; rfl)) nofun nofun .inl
  | enqueuePush task =>
    simp only [callerStep, pc]
    exact sound_moves sound rfl rfl rfl rfl ⟨[task], rfl⟩ (queue_same sound (by rw [pc]; rfl))
      (stopped_same sound (by rw [pc]; rfl)) nofun nofun .inl
  | enqueueCount | enqueueDiscard =>
    simp only [callerStep, pc]
    exact sound_moves sound rfl rfl rfl rfl unmoved (queue_released sound (by rw [pc]; rfl) rfl)
      (stopped_same sound (by rw [pc]; rfl)) nofun nofun .inl
  | stopLock | resumeLock =>
    simp only [pc, Option.isNone_iff_eq_none] at enabled
    simp only [callerStep, pc]
    exact sound_moves sound rfl rfl rfl rfl unmoved (queue_same sound (by rw [pc]; rfl))
      (stopped_acquired sound enabled rfl) nofun nofun .inl
  | stopWrite =>
    simp only [callerStep, pc]
    exact sound_moves sound rfl rfl rfl rfl unmoved (queue_same sound (by rw [pc]; rfl))
      (stopped_released sound (by rw [pc]; rfl) rfl) nofun nofun fun _ => .inl rfl
  | resumeTest =>
    simp only [callerStep, pc]
    split
    · exact sound_moves sound rfl rfl rfl rfl unmoved (queue_same sound (by rw [pc]; rfl))
        (stopped_released sound (by rw [pc]; rfl) rfl) nofun nofun .inl
    · rename_i living
      exact sound_moves sound rfl rfl rfl rfl unmoved (queue_same sound (by rw [pc]; rfl))
        (stopped_same sound (by rw [pc]; rfl)) (fun _ => by simpa using living) nofun .inl
  | resumeWrite =>
    simp only [callerStep, pc]
    refine sound_moves sound rfl rfl rfl rfl unmoved (queue_same sound (by rw [pc]; rfl))
      (stopped_released sound (by rw [pc]; rfl) rfl) nofun nofun fun _ =>
        .inr ⟨sound.resuming caller pc, ?_⟩
    -- The destructor would hold the lock the caller holds.
    intro write
    have present : dispatcher.insideStopped (.caller caller) = true := by
      simp [insideStopped, pc, CallerPc.locksStopped]
    have also : dispatcher.insideStopped .destructor = true := by
      simp [insideStopped, write, DestructorPc.locksStopped]
    cases sound.stoppedLock.alone present also

end Callers

omit [DecidableEq ρ] [DecidableEq τ] in
private theorem destructor_others (callers : next.callers = dispatcher.callers) (other : Holder ρ)
    (different : other ≠ .destructor) :
    next.insideStopped other = dispatcher.insideStopped other := by
  cases other with
  | caller other => simp [insideStopped, callers]
  | destructor => exact absurd rfl different
  | eventLoop => rfl

omit [DecidableEq ρ] [DecidableEq τ] in
private theorem sound_destructor (sound : Sound dispatcher) (free : dispatcher.destructor = .lock →
    dispatcher.stoppedMutex = none) : Sound dispatcher.destructorStep.1 := by
  obtain ⟨queueLock, stoppedLock, resuming, closing, dying, pushing, loopKnows⟩ := sound
  have same (who : Holder ρ) (next : EventDispatcher ρ τ)
    (callers : next.callers = dispatcher.callers)
      (loop : next.eventLoop = dispatcher.eventLoop) :
      next.insideQueue who = dispatcher.insideQueue who := by
    cases who <;> simp [insideQueue, callers, loop]
  cases pc : dispatcher.destructor with
  | notCalled | done =>
    simp only [destructorStep, pc]
    exact ⟨queueLock, stoppedLock, resuming, closing, dying, pushing, loopKnows⟩
  | lock =>
    simp only [destructorStep, pc]
    rw [free pc] at stoppedLock
    exact ⟨queueLock.keep fun who => same who _ rfl rfl,
      stoppedLock.acquire (by rfl) (destructor_others rfl), resuming, nofun, dying, pushing,
      loopKnows⟩
  | writeStopped =>
    simp only [destructorStep, pc]
    refine ⟨queueLock.keep fun who => same who _ rfl rfl, stoppedLock.keep ?_, resuming, fun _ =>
      rfl,
      fun _ => rfl, pushing, loopKnows⟩
    intro who
    cases who <;> simp [insideStopped, pc, DestructorPc.locksStopped]
  | writeDying =>
    have present : dispatcher.insideStopped .destructor = true := by
      simp [insideStopped, pc, DestructorPc.locksStopped]
    simp only [destructorStep, pc]
    refine ⟨queueLock.keep fun who => same who _ rfl rfl,
      stoppedLock.release present rfl (destructor_others rfl), ?_,
      nofun, fun _ => closing pc, pushing, ?_⟩
    · -- A resuming caller would hold the lock the destructor holds.
      intro caller write
      have also : dispatcher.insideStopped (.caller caller) = true := by
        have place : dispatcher.callers caller = .resumeWrite := write
        simp [insideStopped, place, CallerPc.locksStopped]
      cases stoppedLock.alone present also
    · unfold LoopKnows at *
      split <;> simp_all
  | join =>
    simp only [destructorStep, pc]
    refine ⟨queueLock.keep fun who => same who _ rfl rfl, stoppedLock.keep ?_, resuming, nofun,
      dying,
      pushing, loopKnows⟩
    intro who
    cases who <;> simp [insideStopped, pc, DestructorPc.locksStopped]

section Loop

variable {eventLoop : LoopPc τ}

omit [DecidableEq ρ] [DecidableEq τ] in
private theorem loop_others (callers : next.callers = dispatcher.callers) (other : Holder ρ)
    (different : other ≠ .eventLoop) : next.insideQueue other = dispatcher.insideQueue other := by
  cases other with
  | caller other => simp [insideQueue, callers]
  | destructor => rfl
  | eventLoop => exact absurd rfl different

omit [DecidableEq ρ] [DecidableEq τ] in
private theorem loop_acquires (sound : Sound dispatcher) (opened : dispatcher.queueMutex = none)
    (callers : next.callers = dispatcher.callers) (enters : next.eventLoop.locksQueue = true) :
    Lock.Guards (some .eventLoop) next.insideQueue := by
  have guards := sound.queueLock
  rw [opened] at guards
  exact guards.acquire enters (loop_others callers)

omit [DecidableEq ρ] [DecidableEq τ] in
private theorem loop_releases (sound : Sound dispatcher)
    (present : dispatcher.eventLoop.locksQueue = true) (callers : next.callers = dispatcher.callers)
    (leaves : next.eventLoop.locksQueue = false) :
    Lock.Guards none next.insideQueue :=
  sound.queueLock.release (show dispatcher.insideQueue .eventLoop = true from present) leaves
    (loop_others callers)

omit [DecidableEq ρ] [DecidableEq τ] in
private theorem loop_stays (sound : Sound dispatcher) (callers : next.callers = dispatcher.callers)
    (mutex : next.queueMutex = dispatcher.queueMutex)
    (same : next.eventLoop.locksQueue = dispatcher.eventLoop.locksQueue) :
    Lock.Guards next.queueMutex next.insideQueue := by
  rw [mutex]
  apply sound.queueLock.keep
  intro who
  cases who with
  | eventLoop => exact same
  | caller | destructor => exact loop_others callers _ nofun

omit [DecidableEq ρ] [DecidableEq τ] in
/-- A step of the event loop, with what it knows at its next place. -/
private theorem sound_loops (sound : Sound dispatcher) (callers : next.callers = dispatcher.callers)
    (destructor : next.destructor = dispatcher.destructor)
    (mutex : next.stoppedMutex = dispatcher.stoppedMutex)
    (stopped : next.isStopped = dispatcher.isStopped) (died : next.isDying = dispatcher.isDying)
    (queueLock : Lock.Guards next.queueMutex next.insideQueue)
    (inside : next.eventLoop = .returned → dispatcher.eventLoop.locksQueue = true)
    (knows : LoopKnows next) : Sound next where
  queueLock := queueLock
  stoppedLock := by
    rw [mutex]
    apply sound.stoppedLock.keep
    intro who
    cases who <;> simp [insideStopped, callers, destructor]
  resuming := by
    rw [callers, died]
    exact sound.resuming
  closing := by
    rw [destructor, stopped]
    exact sound.closing
  dying := by
    rw [died, stopped]
    exact sound.dying
  pushing caller task push returned := by
    -- A pushing caller would hold the lock the loop holds.
    rw [callers] at push
    have present : dispatcher.insideQueue (.caller caller) = true := by
      simp [insideQueue, push, CallerPc.locksQueue]
    have also : dispatcher.insideQueue .eventLoop = true := inside returned
    cases sound.queueLock.alone present also
  loopKnows := knows

end Loop

private theorem sound_eventLoop (sound : Sound dispatcher)
    (enabled : dispatcher.enabled runner .eventLoop = true)
    (ran : dispatcher.eventLoopStep = .ok (next, events)) : Sound next := by
  have knows := sound.loopKnows
  simp only [EventDispatcher.enabled] at enabled
  simp only [LoopKnows] at knows
  cases pc : dispatcher.eventLoop with
  | returned => simp [pc] at enabled
  | lock | wait | popLock =>
    simp only [pc, Option.isNone_iff_eq_none] at enabled knows
    simp only [eventLoopStep, pc, Except.ok.injEq, Prod.mk.injEq] at ran
    obtain ⟨rfl, rfl⟩ := ran
    exact sound_loops sound rfl rfl rfl rfl rfl (loop_acquires sound enabled rfl rfl) nofun knows
  | executing | delete =>
    simp only [pc] at knows
    simp only [eventLoopStep, pc, Except.ok.injEq, Prod.mk.injEq] at ran
    obtain ⟨rfl, rfl⟩ := ran
    exact sound_loops sound rfl rfl rfl rfl rfl (loop_stays sound rfl rfl (by rw [pc]; rfl)) nofun
      knows
  | waitTest =>
    simp only [eventLoopStep, pc] at ran
    cases empty : dispatcher.taskQueue.isEmpty <;> simp only [empty] at ran <;> cases ran
    · refine sound_loops sound rfl rfl rfl rfl rfl (loop_stays sound rfl rfl (by rw [pc]; rfl))
        nofun (.inl ?_)
      simpa using empty
    · exact sound_loops sound rfl rfl rfl rfl rfl (loop_stays sound rfl rfl (by rw [pc]; rfl)) nofun
        trivial
  | waitTestDying =>
    simp only [eventLoopStep, pc] at ran
    split at ran <;> cases ran
    · rename_i dying
      exact sound_loops sound rfl rfl rfl rfl rfl (loop_stays sound rfl rfl (by rw [pc]; rfl)) nofun
        (.inr dying)
    · exact sound_loops sound rfl rfl rfl rfl rfl (loop_releases sound (by rw [pc]; rfl) rfl rfl)
        nofun trivial
  | returnTest =>
    simp only [pc] at knows
    simp only [eventLoopStep, pc] at ran
    by_cases dying : dispatcher.isDying = true
    · rw [if_pos dying] at ran
      cases ran
      exact sound_loops sound rfl rfl rfl rfl rfl (loop_stays sound rfl rfl (by rw [pc]; rfl)) nofun
        dying
    · rw [if_neg dying] at ran
      cases ran
      exact sound_loops sound rfl rfl rfl rfl rfl (loop_stays sound rfl rfl (by rw [pc]; rfl)) nofun
        (knows.resolve_right dying)
  | returnTestEmpty =>
    simp only [pc] at knows
    simp only [eventLoopStep, pc] at ran
    split at ran <;> cases ran
    · exact sound_loops sound rfl rfl rfl rfl rfl (loop_releases sound (by rw [pc]; rfl) rfl rfl)
        (fun _ => by rw [pc]; rfl) knows
    · rename_i filled
      refine sound_loops sound rfl rfl rfl rfl rfl (loop_stays sound rfl rfl (by rw [pc]; rfl))
        nofun ?_
      simpa [LoopKnows] using filled
  | front =>
    simp only [eventLoopStep, pc] at ran
    split at ran <;> cases ran
    rename_i shape
    exact sound_loops sound rfl rfl rfl rfl rfl (loop_releases sound (by rw [pc]; rfl) rfl rfl)
      nofun (by simp [LoopKnows, shape])
  | executeTest =>
    simp only [pc] at knows
    simp only [eventLoopStep, pc] at ran
    split at ran <;> cases ran <;>
      exact sound_loops sound rfl rfl rfl rfl rfl (loop_stays sound rfl rfl (by rw [pc]; rfl)) nofun
      knows
  | pop =>
    simp only [eventLoopStep, pc] at ran
    split at ran <;> cases ran
    exact sound_loops sound rfl rfl rfl rfl rfl (loop_stays sound rfl rfl (by rw [pc]; rfl)) nofun
      trivial
  | popCount =>
    simp only [eventLoopStep, pc, Except.ok.injEq, Prod.mk.injEq] at ran
    obtain ⟨rfl, rfl⟩ := ran
    exact sound_loops sound rfl rfl rfl rfl rfl (loop_releases sound (by rw [pc]; rfl) rfl rfl)
      nofun trivial

theorem Sound.step (sound : Sound dispatcher) (enabled : dispatcher.enabled runner move = true)
    (ran : dispatcher.step move = .ok (next, events)) : Sound next := by
  cases move with
  | enqueueTask | stop | resume =>
    cases ran
    exact sound_goto sound (mayCall_idle enabled) rfl rfl
  | caller caller =>
    obtain rfl : next = (dispatcher.callerStep caller).1 := by rw [Except.ok.inj ran]
    exact sound_caller sound enabled
  | destroy =>
    cases ran
    have uncalled : dispatcher.destructor = .notCalled := by
      simpa [EventDispatcher.enabled] using enabled
    obtain ⟨queueLock, stoppedLock, resuming, closing, dying, pushing, loopKnows⟩ := sound
    refine ⟨queueLock.keep
      fun who => by cases who <;> rfl, stoppedLock.keep fun who => ?_, resuming, nofun, dying,
      pushing, loopKnows⟩
    cases who <;> simp [insideStopped, uncalled, DestructorPc.locksStopped]
  | destructor =>
    obtain rfl : next = dispatcher.destructorStep.1 := by rw [Except.ok.inj ran]
    apply sound_destructor sound
    intro pc
    simpa [EventDispatcher.enabled, pc] using enabled
  | eventLoop => exact sound_eventLoop sound enabled ran

/-- The part of the log a queue with one worker shows. -/
def Event.queueEvent? : Event ρ τ → Option (SerialQueue.Event (UnitTask τ))
  | .pushed task => some (.pushed task)
  | .started task => some (.started task)
  | .skipped task => some (.skipped task)
  | .finished task => some (.finished task)
  | .removed task => some (.removed task)
  | .deleted task => some (.deleted task)
  | .dying => some .closing
  | .loopReturned => some .closed
  | .called .. | .returned .. | .discarded _ | .stopped _ | .resumed _ => none

def queueLog (log : List (Event ρ τ)) : List (SerialQueue.Event (UnitTask τ)) :=
  log.filterMap Event.queueEvent?

def LoopPc.phase : LoopPc τ → SerialQueue.Phase (UnitTask τ)
  | .executing nextTask => .started nextTask
  | .popLock nextTask | .pop nextTask => .served nextTask
  | .popCount nextTask | .delete nextTask => .removed nextTask
  | .lock | .waitTest | .waitTestDying | .wait | .returnTest | .returnTestEmpty | .front
  | .executeTest _ | .returned => .idle

/-- The dispatcher seen as a queue with one worker. -/
def toServer (dispatcher : EventDispatcher ρ τ) : SerialQueue.Server (UnitTask τ) where
  queue := dispatcher.taskQueue
  phase := dispatcher.eventLoop.phase
  isClosing := dispatcher.isDying
  isClosed := dispatcher.eventLoop = .returned

/-- The task a caller has neither pushed nor deleted yet. -/
def CallerPc.holding : CallerPc τ → Option (UnitTask τ)
  | .enqueueLock newTask | .enqueueTest newTask | .enqueueDiscard newTask => newTask
  | .enqueuePush newTask => some newTask
  | .idle | .enqueueCount _ | .stopLock | .stopWrite | .resumeLock | .resumeTest
  | .resumeWrite => none

def handedNumbers (log : List (Event ρ τ)) : List Nat := (handed log).map UnitTask.number

def pushedNumbers (log : List (Event ρ τ)) : List Nat :=
  (SerialQueue.pushed (queueLog log)).map UnitTask.number

/-- The tasks `enqueueTask` deleted without pushing them. -/
def discardedTasks (log : List (Event ρ τ)) : List (UnitTask τ) :=
  log.filterMap fun
    | .discarded task => some task
    | _ => none

def discardedNumbers (log : List (Event ρ τ)) : List Nat := (discardedTasks log).map UnitTask.number

/-- Every task a caller holds has been handed over once, and is neither pushed
nor deleted yet. -/
structure Distinct (dispatcher : EventDispatcher ρ τ) (log : List (Event ρ τ)) : Prop where
  holding : ∀ caller task, (dispatcher.callers caller).holding = some task →
    task.number ∈ handedNumbers log ∧ task.number ∉ pushedNumbers log ∧
    task.number ∉ discardedNumbers log
  apart : ∀ caller other task task', (dispatcher.callers caller).holding = some task →
    (dispatcher.callers other).holding = some task' → task.number = task'.number → caller = other
  handed : ∀ number, number ∈ pushedNumbers log ∨ number ∈ discardedNumbers log →
    number ∈ handedNumbers log
  disjoint : ∀ number ∈ pushedNumbers log, number ∉ discardedNumbers log

omit [DecidableEq ρ] [DecidableEq τ] in
@[simp] theorem queueLog_append (log more : List (Event ρ τ)) :
    queueLog (log ++ more) = queueLog log ++ queueLog more :=
  List.filterMap_append ..

omit [DecidableEq ρ] [DecidableEq τ] in
@[simp] theorem handedNumbers_append (log more : List (Event ρ τ)) :
    handedNumbers (log ++ more) = handedNumbers log ++ handedNumbers more := by
  simp [handedNumbers, handed]

omit [DecidableEq ρ] [DecidableEq τ] in
@[simp] theorem pushedNumbers_append (log more : List (Event ρ τ)) :
    pushedNumbers (log ++ more) = pushedNumbers log ++ pushedNumbers more := by
  simp [pushedNumbers]

omit [DecidableEq ρ] [DecidableEq τ] in
@[simp] theorem discardedNumbers_append (log more : List (Event ρ τ)) :
    discardedNumbers (log ++ more) = discardedNumbers log ++ discardedNumbers more := by
  simp [discardedNumbers, discardedTasks]

/-- The events hand over, push and discard nothing. -/
structure Quiet (events : List (Event ρ τ)) : Prop where
  handed : handedNumbers events = []
  pushed : pushedNumbers events = []
  discarded : discardedNumbers events = []

omit [DecidableEq ρ] [DecidableEq τ] in
/-- A quiet step in which callers keep or give up what they hold. -/
private theorem distinct_quiet (distinct : Distinct dispatcher log) (callers : ∀ caller,
    (next.callers caller).holding = (dispatcher.callers caller).holding ∨
    (next.callers caller).holding = none)
    (quiet : Quiet events) : Distinct next (log ++ events) := by
  obtain ⟨handed, pushed, discarded⟩ := quiet
  have before {caller : ρ} {task : UnitTask τ} (holds : (next.callers caller).holding = some task) :
      (dispatcher.callers caller).holding = some task := by
    rcases callers caller with same | dropped
    · rw [← same, holds]
    · rw [dropped] at holds
      cases holds
  refine ⟨?_, ?_, ?_, ?_⟩
  · intro caller task holds
    simpa [handed, pushed, discarded] using distinct.holding caller task (before holds)
  · intro caller other task task' one two
    exact distinct.apart caller other task task' (before one) (before two)
  · simpa [handed, pushed, discarded] using distinct.handed
  · simpa [pushed, discarded] using distinct.disjoint

omit [DecidableEq ρ] in
/-- Events the queue does not show, in a step that leaves its state alone. -/
private theorem accepts_quiet (accepts : SerialQueue.Accepts (queueLog log) dispatcher.toServer)
    (quiet : queueLog events = []) (same : next.toServer = dispatcher.toServer) :
    SerialQueue.Accepts (queueLog (log ++ events)) next.toServer := by
  rw [queueLog_append, quiet, List.append_nil, same]
  exact accepts

omit [DecidableEq ρ] in
/-- One event the queue shows. -/
private theorem accepts_shown {event : SerialQueue.Event (UnitTask τ)}
    {server : SerialQueue.Server (UnitTask τ)}
    (accepts : SerialQueue.Accepts (queueLog log) dispatcher.toServer)
    (shown : queueLog events = [event])
    (fresh : ∀ task, event = .pushed task → task ∉ SerialQueue.pushed (queueLog log))
    (stepped : SerialQueue.Step dispatcher.toServer event server) (same : next.toServer = server) :
    SerialQueue.Accepts (queueLog (log ++ events)) next.toServer := by
  rw [queueLog_append, shown, same]
  exact accepts.step fresh stepped

private theorem accepts_caller (caller : ρ) (sound : Sound dispatcher)
    (distinct : Distinct dispatcher log)
    (accepts : SerialQueue.Accepts (queueLog log) dispatcher.toServer) :
    SerialQueue.Accepts (queueLog (log ++ (dispatcher.callerStep caller).2))
      (dispatcher.callerStep caller).1.toServer := by
  cases pc : dispatcher.callers caller with
  | enqueuePush task =>
    simp only [callerStep, pc]
    refine accepts_shown accepts rfl ?_ (.push ?_) rfl
    · rintro _ ⟨⟩ inside
      have holds : (dispatcher.callers caller).holding = some task := by simp [pc, CallerPc.holding]
      exact (distinct.holding caller task holds).2.1 (List.mem_map_of_mem inside)
    · simpa [toServer] using sound.pushing caller task pc
  | enqueueTest newTask =>
    simp only [callerStep, pc]
    split <;> exact accepts_quiet accepts rfl rfl
  | resumeTest =>
    simp only [callerStep, pc]
    split <;> exact accepts_quiet accepts rfl rfl
  | enqueueDiscard newTask =>
    simp only [callerStep, pc]
    cases newTask <;> exact accepts_quiet accepts rfl rfl
  | idle | enqueueLock | enqueueCount | stopLock | stopWrite | resumeLock | resumeWrite =>
    simp only [callerStep, pc]
    exact accepts_quiet accepts rfl rfl

omit [DecidableEq ρ] in
private theorem accepts_destructor
    (accepts : SerialQueue.Accepts (queueLog log) dispatcher.toServer) :
    SerialQueue.Accepts (queueLog (log ++ dispatcher.destructorStep.2))
    dispatcher.destructorStep.1.toServer := by
  cases pc : dispatcher.destructor with
  | writeDying =>
    simp only [destructorStep, pc]
    exact accepts_shown accepts rfl nofun .close rfl
  | notCalled | lock | writeStopped | join | done =>
    simp only [destructorStep, pc]
    exact accepts_quiet accepts rfl rfl

omit [DecidableEq ρ] in
private theorem accepts_eventLoop (sound : Sound dispatcher)
    (accepts : SerialQueue.Accepts (queueLog log) dispatcher.toServer)
    (ran : dispatcher.eventLoopStep = .ok (next, events)) :
    SerialQueue.Accepts (queueLog (log ++ events)) next.toServer := by
  have knows := sound.loopKnows
  cases pc : dispatcher.eventLoop with
  | lock | wait | popLock | popCount =>
    simp only [eventLoopStep, pc, Except.ok.injEq, Prod.mk.injEq] at ran
    obtain ⟨rfl, rfl⟩ := ran
    exact accepts_quiet accepts rfl (by simp [toServer, pc, LoopPc.phase])
  | returned =>
    simp only [eventLoopStep, pc, Except.ok.injEq, Prod.mk.injEq] at ran
    obtain ⟨rfl, rfl⟩ := ran
    exact accepts_quiet accepts rfl rfl
  | waitTest | returnTest =>
    simp only [eventLoopStep, pc, Except.ok.injEq, Prod.mk.injEq] at ran
    obtain ⟨rfl, rfl⟩ := ran
    apply accepts_quiet accepts rfl
    split <;> simp [toServer, pc, LoopPc.phase]
  | waitTestDying =>
    simp only [eventLoopStep, pc] at ran
    split at ran <;> cases ran <;>
      exact accepts_quiet accepts rfl (by simp [toServer, pc, LoopPc.phase])
  | returnTestEmpty =>
    simp only [eventLoopStep, pc] at ran
    split at ran <;> cases ran
    · rename_i empty
      simp only [LoopKnows, pc] at knows
      exact accepts_shown accepts rfl nofun
        (.exit knows (List.isEmpty_iff.mp empty) (by simp [toServer, pc, LoopPc.phase]))
        (by simp [toServer, pc, LoopPc.phase])
    · exact accepts_quiet accepts rfl (by simp [toServer, pc, LoopPc.phase])
  | front =>
    simp only [eventLoopStep, pc] at ran
    split at ran <;> cases ran
    exact accepts_quiet accepts rfl (by simp [toServer, pc, LoopPc.phase])
  | executeTest nextTask =>
    simp only [LoopKnows, pc] at knows
    simp only [eventLoopStep, pc] at ran
    split at ran <;> cases ran
    · rename_i dying
      exact accepts_shown accepts rfl nofun
        (.skip knows (by simp [toServer, pc, LoopPc.phase]) dying)
        (by simp [toServer, pc, LoopPc.phase])
    · exact accepts_shown accepts rfl nofun (.start knows (by simp [toServer, pc, LoopPc.phase]))
        (by simp [toServer, pc, LoopPc.phase])
  | executing nextTask =>
    simp only [eventLoopStep, pc, Except.ok.injEq, Prod.mk.injEq] at ran
    obtain ⟨rfl, rfl⟩ := ran
    exact accepts_shown accepts rfl nofun (.finish (by simp [toServer, pc, LoopPc.phase]))
      (by simp [toServer, pc, LoopPc.phase])
  | pop nextTask =>
    simp only [LoopKnows, pc] at knows
    simp only [eventLoopStep, pc] at ran
    split at ran
    · cases ran
    · rename_i front rest shape
      rw [shape, List.head?_cons, Option.some.injEq] at knows
      subst knows
      cases ran
      exact accepts_shown accepts rfl nofun (.remove shape (by simp [toServer, pc, LoopPc.phase]))
        (by simp [toServer, pc, LoopPc.phase])
  | delete nextTask =>
    simp only [eventLoopStep, pc, Except.ok.injEq, Prod.mk.injEq] at ran
    obtain ⟨rfl, rfl⟩ := ran
    exact accepts_shown accepts rfl nofun (.delete (by simp [toServer, pc, LoopPc.phase]))
      (by simp [toServer, pc, LoopPc.phase])

theorem accepts_step (sound : Sound dispatcher) (distinct : Distinct dispatcher log)
    (accepts : SerialQueue.Accepts (queueLog log) dispatcher.toServer)
    (ran : dispatcher.step move = .ok (next, events)) :
    SerialQueue.Accepts (queueLog (log ++ events)) next.toServer := by
  cases move with
  | enqueueTask | stop | resume | destroy =>
    cases ran
    exact accepts_quiet accepts rfl rfl
  | caller caller =>
    have moved := accepts_caller caller sound distinct accepts
    rwa [Except.ok.inj ran] at moved
  | destructor =>
    have moved := accepts_destructor accepts
    rwa [Except.ok.inj ran] at moved
  | eventLoop => exact accepts_eventLoop sound accepts ran

omit [DecidableEq τ] in
/-- A caller that goes on with the task it holds, or holds none. -/
private theorem distinct_goto {caller : ρ} {pc : CallerPc τ} (distinct : Distinct dispatcher log)
    (callers : next.callers = (dispatcher.goto caller pc).callers)
    (holds : pc.holding = (dispatcher.callers caller).holding ∨ pc.holding = none)
    (quiet : Quiet events) :
    Distinct next (log ++ events) := by
  refine distinct_quiet distinct (fun other => ?_) quiet
  rw [callers, goto_callers]
  split
  · rename_i same
    subst same
    exact holds
  · exact .inl rfl

omit [DecidableEq τ] in
/-- A caller that pushes or discards the task it holds. -/
private theorem distinct_settle {caller : ρ} {pc : CallerPc τ} {task : UnitTask τ}
    (distinct : Distinct dispatcher log) (holds : (dispatcher.callers caller).holding = some task)
    (callers : next.callers = (dispatcher.goto caller pc).callers) (released : pc.holding = none)
    (handed : handedNumbers events = [])
    (settled : ∀ number, number ∈ pushedNumbers events ∨ number ∈ discardedNumbers events →
      number = task.number)
    (either : pushedNumbers events = [] ∨ discardedNumbers events = []) :
    Distinct next (log ++ events) := by
  obtain ⟨inside, unpushed, undiscarded⟩ := distinct.holding caller task holds
  have before {other : ρ} {held : UnitTask τ} (now : (next.callers other).holding = some held) :
      other ≠ caller ∧ (dispatcher.callers other).holding = some held := by
    rw [callers, goto_callers] at now
    split at now
    · rw [released] at now
      cases now
    · rename_i elsewhere
      exact ⟨elsewhere, now⟩
  refine ⟨?_, ?_, ?_, ?_⟩
  · intro other held now
    obtain ⟨elsewhere, was⟩ := before now
    obtain ⟨given, notPushed, notDiscarded⟩ := distinct.holding other held was
    have different : held.number ≠ task.number := fun same =>
      elsewhere (distinct.apart other caller held task was holds same)
    simp only [handedNumbers_append, pushedNumbers_append, discardedNumbers_append, handed,
      List.append_nil,
      List.mem_append, not_or]
    exact ⟨given, ⟨notPushed, fun now => different (settled _ (.inl now))⟩,
      ⟨notDiscarded, fun now => different (settled _ (.inr now))⟩⟩
  · intro one two held held' here there
    exact distinct.apart one two held held' (before here).2 (before there).2
  · intro number
    simp only [handedNumbers_append, pushedNumbers_append, discardedNumbers_append, handed,
      List.append_nil,
      List.mem_append]
    rintro ((old | new) | (old | new))
    · exact distinct.handed number (.inl old)
    · exact settled number (.inl new) ▸ inside
    · exact distinct.handed number (.inr old)
    · exact settled number (.inr new) ▸ inside
  · intro number
    simp only [pushedNumbers_append, discardedNumbers_append, List.mem_append, not_or]
    rintro (old | new)
    · refine ⟨distinct.disjoint number old, ?_⟩
      intro now
      rw [settled number (.inr now)] at old
      exact unpushed old
    · refine ⟨settled number (.inl new) ▸ undiscarded, ?_⟩
      intro now
      rcases either with none | none
      · simp [none] at new
      · simp [none] at now

private theorem distinct_caller (caller : ρ) (distinct : Distinct dispatcher log) :
    Distinct (dispatcher.callerStep caller).1 (log ++ (dispatcher.callerStep caller).2) := by
  cases pc : dispatcher.callers caller with
  | enqueuePush task =>
    simp only [callerStep, pc]
    refine distinct_settle distinct (by rw [pc]; rfl) rfl rfl rfl ?_ (.inr rfl)
    rintro number (pushed | discarded)
    · exact List.mem_singleton.mp pushed
    · exact absurd discarded List.not_mem_nil
  | enqueueTest newTask =>
    simp only [callerStep, pc]
    split <;> exact distinct_goto distinct rfl (.inl (by rw [pc]; rfl)) ⟨rfl, rfl, rfl⟩
  | resumeTest =>
    simp only [callerStep, pc]
    split <;> exact distinct_goto distinct rfl (.inr rfl) ⟨rfl, rfl, rfl⟩
  | enqueueLock newTask =>
    simp only [callerStep, pc]
    exact distinct_goto distinct rfl (.inl (by rw [pc]; rfl)) ⟨rfl, rfl, rfl⟩
  | enqueueDiscard newTask =>
    simp only [callerStep, pc]
    cases newTask with
    | none => exact distinct_goto distinct rfl (.inr rfl) ⟨rfl, rfl, rfl⟩
    | some task =>
      refine distinct_settle distinct (by rw [pc]; rfl) rfl rfl rfl ?_ (.inl rfl)
      rintro number (pushed | discarded)
      · exact absurd pushed List.not_mem_nil
      · exact List.mem_singleton.mp discarded
  | enqueueCount | stopLock | stopWrite | resumeLock | resumeWrite =>
    simp only [callerStep, pc]
    exact distinct_goto distinct rfl (.inr rfl) ⟨rfl, rfl, rfl⟩
  | idle =>
    simp only [callerStep, pc]
    exact distinct_quiet distinct (fun _ => .inl rfl) ⟨rfl, rfl, rfl⟩

omit [DecidableEq ρ] [DecidableEq τ] in
private theorem destructor_quiet (dispatcher : EventDispatcher ρ τ) :
    Quiet dispatcher.destructorStep.2 := by
  unfold destructorStep
  split <;> exact ⟨rfl, rfl, rfl⟩

omit [DecidableEq ρ] in
private theorem eventLoop_quiet (ran : dispatcher.eventLoopStep = .ok (next, events)) :
    Quiet events := by
  unfold eventLoopStep at ran
  repeat' split at ran
  all_goals cases ran <;> exact ⟨rfl, rfl, rfl⟩

omit [DecidableEq τ] in
/-- A task handed over is new. -/
private theorem distinct_enqueue {caller : ρ} {newTask : Option (UnitTask τ)}
    (distinct : Distinct dispatcher log)
    (fresh : Fresh log (.enqueueTask caller newTask : Move ρ τ)) :
    Distinct (dispatcher.goto caller (.enqueueLock newTask)) (log ++ [.called caller newTask]) := by
  have added : handedNumbers [Event.called caller newTask] =
    newTask.toList.map UnitTask.number := by
    cases newTask <;> rfl
  have unpushed : pushedNumbers [Event.called caller newTask] = [] := rfl
  have undiscarded : discardedNumbers [Event.called caller newTask] = [] := rfl
  have new {task : UnitTask τ} (given : newTask = some task) : task.number ∉ handedNumbers log := by
    subst given
    exact fresh
  have before {other : ρ} {task : UnitTask τ} (elsewhere : other ≠ caller)
      (now : ((dispatcher.goto caller (.enqueueLock newTask)).callers other).holding = some task) :
      (dispatcher.callers other).holding = some task := by
    rwa [goto_callers, if_neg elsewhere] at now
  have own {task : UnitTask τ}
      (now : ((dispatcher.goto caller (.enqueueLock newTask)).callers caller).holding = some task) :
      newTask = some task := by
    rwa [goto_callers, if_pos rfl] at now
  refine ⟨?_, ?_, ?_, ?_⟩
  · intro other task now
    simp only [handedNumbers_append, pushedNumbers_append, discardedNumbers_append, added, unpushed,
      undiscarded,
      List.append_nil, List.mem_append]
    by_cases elsewhere : other = caller
    · subst elsewhere
      have given := own now
      exact ⟨.inr (by simp [given]), fun pushed => new given (distinct.handed _ (.inl pushed)),
        fun discarded => new given (distinct.handed _ (.inr discarded))⟩
    · obtain ⟨inside, absent⟩ := distinct.holding other task (before elsewhere now)
      exact ⟨.inl inside, absent⟩
  · intro one two task task' here there same
    by_cases first : one = caller <;> by_cases second : two = caller
    · rw [first, second]
    · subst first
      have held := (distinct.holding two task' (before second there)).1
      exact absurd (same ▸ held) (new (own here))
    · subst second
      have held := (distinct.holding one task (before first here)).1
      exact absurd (same ▸ held) (new (own there))
    · exact distinct.apart one two task task' (before first here) (before second there) same
  · intro number
    simp only [handedNumbers_append, pushedNumbers_append, discardedNumbers_append, unpushed,
      undiscarded,
      List.append_nil, List.mem_append]
    intro settled
    exact .inl (distinct.handed number settled)
  · intro number
    simpa [unpushed, undiscarded] using distinct.disjoint number

theorem distinct_step (distinct : Distinct dispatcher log) (fresh : Fresh log move)
    (ran : dispatcher.step move = .ok (next, events)) :
    Distinct next (log ++ events) := by
  cases move with
  | enqueueTask caller newTask =>
    cases ran
    exact distinct_enqueue distinct fresh
  | stop | resume =>
    cases ran
    exact distinct_goto distinct rfl (.inr rfl) ⟨rfl, rfl, rfl⟩
  | caller caller =>
    have moved := distinct_caller caller distinct
    rwa [Except.ok.inj ran] at moved
  | destroy =>
    cases ran
    exact distinct_quiet distinct (fun _ => .inl rfl) ⟨rfl, rfl, rfl⟩
  | destructor =>
    have callers := (destructorStep_frame dispatcher).1
    have quiet := destructor_quiet dispatcher
    rw [Except.ok.inj ran] at callers quiet
    exact distinct_quiet distinct (fun _ => .inl (by rw [callers])) quiet
  | eventLoop =>
    exact distinct_quiet distinct (fun _ => .inl (by rw [eventLoopStep_frame ran]))
      (eventLoop_quiet ran)

/-- What holds of the dispatcher and its log in every interleaving. -/
structure Refines (system : System ρ τ) : Prop where
  sound : Sound system.dispatcher
  distinct : Distinct system.dispatcher system.log
  accepts : SerialQueue.Accepts (queueLog system.log) system.dispatcher.toServer

theorem refines_step {system after : System ρ τ} (refines : Refines system)
    (allowed : (program runner).allowed system move)
    (ran : (program runner).exec system move = .ok after) :
    Refines after := by
  obtain ⟨sound, distinct, accepts⟩ := refines
  obtain ⟨enabled, fresh⟩ := allowed
  simp only [program, System.exec] at ran
  split at ran
  · rename_i dispatcher events stepped
    cases ran
    exact ⟨sound.step enabled stepped, distinct_step distinct fresh stepped,
      accepts_step sound distinct accepts stepped⟩
  · cases ran

end EventDisp.EventDispatcher
