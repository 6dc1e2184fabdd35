import EventDisp.EventDispatcherSafety

/-! No interleaving gets stuck: from every state it reaches, the lock holders, the
running task and the event loop can go on until the queue is empty. -/
namespace EventDisp.EventDispatcher

open Execution

variable {ρ τ : Type} [DecidableEq ρ] [DecidableEq τ] {runner : ρ}
variable {dispatcher next : EventDispatcher ρ τ} {system : System ρ τ} {events : List (Event ρ τ)}

/-- The move is not the call of the destructor. -/
def Spares : Move ρ τ → Prop
  | .destroy => False
  | .enqueueTask .. | .stop _ | .resume _ | .caller _ | .destructor | .eventLoop => True

/-- Every interleaving in which nobody begins to destroy the dispatcher. -/
def living (runner : ρ) : Program (System ρ τ) (Move ρ τ) Fault :=
  { program runner with allowed := fun system move => (program runner).allowed system move ∧ Spares move }

instance : DecidablePred (Spares : Move ρ τ → Prop)
  | .destroy => isFalse id
  | .enqueueTask .. | .stop _ | .resume _ | .caller _ | .destructor | .eventLoop => isTrue trivial

instance (runner : ρ) (system : System ρ τ) : DecidablePred ((living runner).allowed system) :=
  fun move =>
  inferInstanceAs (Decidable ((program runner).allowed system move ∧ Spares move))

/-- The lock a caller is about to take is free. -/
def Available (dispatcher : EventDispatcher ρ τ) (who : ρ) : Prop :=
  match dispatcher.callers who with
  | .enqueueLock _ => dispatcher.queueMutex = none
  | .stopLock | .resumeLock => dispatcher.stoppedMutex = none
  | .idle | .enqueueTest _ | .enqueuePush _ | .enqueueCount _ | .enqueueDiscard _ | .stopWrite
  | .resumeTest | .resumeWrite => True

/-- How many steps a caller is from the end of its call. -/
def CallerPc.rank : CallerPc τ → Nat
  | .idle => 0
  | .enqueueCount _ | .enqueueDiscard _ | .stopWrite | .resumeWrite => 1
  | .enqueuePush _ | .stopLock | .resumeTest => 2
  | .enqueueTest _ | .resumeLock => 3
  | .enqueueLock _ => 4

/-- A step of one caller in the run of a system. -/
private theorem caller_exec (caller : ρ)
    (enabled : system.dispatcher.enabled runner (.caller caller) = true) :
    (program runner).allowed system (.caller caller) ∧
      (program runner).exec system (.caller caller) =
        .ok ⟨(system.dispatcher.callerStep caller).1,
        system.log ++ (system.dispatcher.callerStep caller).2⟩ :=
  ⟨⟨enabled, trivial⟩, rfl⟩

/-- A caller whose lock is free takes one step closer to the end of its call. -/
theorem caller_advances (runner : ρ) {who : ρ} (available : Available dispatcher who)
    (busy : dispatcher.callers who ≠ .idle) :
    dispatcher.enabled runner (.caller who) = true ∧
      Available (dispatcher.callerStep who).1 who ∧
      ((dispatcher.callerStep who).1.callers who).rank < (dispatcher.callers who).rank := by
  simp only [Available, EventDispatcher.enabled] at *
  cases pc : dispatcher.callers who with
  | idle => exact absurd pc busy
  | enqueueTest newTask =>
    cases stopped : dispatcher.isStopped <;> cases newTask <;>
      simp [callerStep, pc, stopped, goto, CallerPc.rank]
  | resumeTest =>
    cases dying : dispatcher.isDying <;>
      simp [callerStep, pc, dying, goto, CallerPc.rank]
  | enqueueLock | enqueuePush | enqueueCount | enqueueDiscard | stopLock | stopWrite | resumeLock
  | resumeWrite =>
    simp only [pc] at available
    simp [callerStep, pc, available, goto, CallerPc.rank]

/-- A caller whose lock is free can end its call, while nobody else moves. -/
private theorem call_ends {who : ρ} (refines : Refines system)
    (available : Available system.dispatcher who) :
    ∃ final, Leads (living runner) system final ∧ Refines final ∧
      final.dispatcher.callers who = .idle ∧
      (∀ other, other ≠ who → final.dispatcher.callers other = system.dispatcher.callers other) ∧
      final.dispatcher.eventLoop = system.dispatcher.eventLoop ∧
      final.dispatcher.destructor = system.dispatcher.destructor := by
  let Kept (state : System ρ τ) : Prop := Refines state ∧ Available state.dispatcher who ∧
    (∀ other, other ≠ who → state.dispatcher.callers other = system.dispatcher.callers other) ∧
    state.dispatcher.eventLoop = system.dispatcher.eventLoop ∧
    state.dispatcher.destructor = system.dispatcher.destructor
  have advances (state : System ρ τ) (kept : Kept state)
    (busy : ¬ state.dispatcher.callers who = .idle) :
      ∃ move next, (living runner).allowed state move ∧ (living runner).exec state move = .ok next ∧
        Kept next ∧ (next.dispatcher.callers who).rank < (state.dispatcher.callers who).rank := by
    obtain ⟨refined, free, others, loop, destructor⟩ := kept
    obtain ⟨enabled, freeNext, less⟩ := caller_advances runner free busy
    obtain ⟨othersNext, loopNext, destructorNext⟩ := callerStep_frame state.dispatcher who
    obtain ⟨allowed, ran⟩ := caller_exec who enabled
    refine ⟨.caller who, _, ⟨allowed, trivial⟩, ran,
      ⟨refines_step refined allowed ran, freeNext, ?_, ?_, ?_⟩, less⟩
    · intro other different
      exact (othersNext other different).trans (others other different)
    · exact loopNext.trans loop
    · exact destructorNext.trans destructor
  obtain ⟨final, leads, ⟨kept, _, others, loop, destructor⟩, idle⟩ :=
    Leads.descend (living runner) Kept
    (fun state => state.dispatcher.callers who = .idle) (fun state =>
      (state.dispatcher.callers who).rank)
    advances system ⟨refines, available, fun _ _ => rfl, rfl, rfl⟩
  exact ⟨final, leads, kept, idle, others, loop, destructor⟩

def DestructorPc.rank : DestructorPc → Nat
  | .writeStopped => 2
  | .writeDying => 1
  | .notCalled | .lock | .join | .done => 0

/-- The destructor can leave its critical section, while nobody else moves. -/
private theorem destructor_releases (runner : ρ) (refines : Refines system) :
    ∃ final, Leads (living runner) system final ∧ Refines final ∧
      final.dispatcher.destructor.locksStopped = false ∧
      final.dispatcher.callers = system.dispatcher.callers ∧
      final.dispatcher.eventLoop = system.dispatcher.eventLoop := by
  let Kept (state : System ρ τ) : Prop := Refines state ∧
    state.dispatcher.callers = system.dispatcher.callers ∧
    state.dispatcher.eventLoop = system.dispatcher.eventLoop
  have advances (state : System ρ τ) (kept : Kept state)
      (inside : ¬ state.dispatcher.destructor.locksStopped = false) :
      ∃ move next, (living runner).allowed state move ∧ (living runner).exec state move = .ok next ∧
        Kept next ∧ next.dispatcher.destructor.rank < state.dispatcher.destructor.rank := by
    obtain ⟨refined, callers, loop⟩ := kept
    have allowed : (program runner).allowed state .destructor := by
      refine ⟨?_, trivial⟩
      cases pc : state.dispatcher.destructor <;>
        simp_all [EventDispatcher.enabled, DestructorPc.locksStopped]
    refine ⟨.destructor, _, ⟨allowed, trivial⟩, rfl, ⟨refines_step refined allowed rfl, ?_, ?_⟩,
      ?_⟩ <;>
      cases pc : state.dispatcher.destructor <;>
      simp_all [DestructorPc.locksStopped, DestructorPc.rank]
  obtain ⟨final, leads, ⟨kept, callers, loop⟩, released⟩ := Leads.descend (living runner) Kept
    (fun state => state.dispatcher.destructor.locksStopped = false)
    (fun state => state.dispatcher.destructor.rank) advances system ⟨refines, rfl, rfl⟩
  exact ⟨final, leads, kept, released, callers, loop⟩

/-- The runner is in a call only while a task is being run. -/
def Calling (runner : ρ) (dispatcher : EventDispatcher ρ τ) : Prop :=
  dispatcher.callers runner ≠ .idle → dispatcher.eventLoop.isExecuting = true

private theorem calling_step {move : Move ρ τ} (calling : Calling runner dispatcher)
    (enabled : dispatcher.enabled runner move = true)
    (ran : dispatcher.step move = .ok (next, events)) :
    Calling runner next := by
  simp only [Calling] at calling ⊢
  cases move with
  | enqueueTask caller | stop caller | resume caller =>
    cases ran
    simp only [EventDispatcher.enabled, mayCall, Bool.and_eq_true, Bool.or_eq_true,
      decide_eq_true_eq] at enabled
    rw [goto_callers]
    split
    · rename_i own
      intro _
      exact enabled.2.resolve_left (not_not_intro own.symm)
    · exact calling
  | caller caller =>
    obtain ⟨others, loop, _⟩ := callerStep_frame dispatcher caller
    rw [Except.ok.inj ran] at others loop
    rw [loop]
    by_cases own : runner = caller
    · subst own
      refine fun _ => calling fun idle => ?_
      simp [EventDispatcher.enabled, idle] at enabled
    · rwa [others runner own]
  | destroy =>
    cases ran
    exact calling
  | destructor =>
    obtain ⟨callers, loop⟩ := destructorStep_frame dispatcher
    rw [Except.ok.inj ran] at callers loop
    rwa [callers, loop]
  | eventLoop =>
    rw [eventLoopStep_frame ran]
    intro busy
    -- The loop leaves the task it runs only when the runner is idle.
    have running := calling busy
    cases pc : dispatcher.eventLoop <;> simp_all [LoopPc.isExecuting, EventDispatcher.enabled]

/-- How far the event loop is from the end of its round, the next task ahead. -/
def LoopPc.rank : LoopPc τ → Nat
  | .popCount _ => 14
  | .delete _ => 13
  | .waitTestDying => 12
  | .lock | .wait => 11
  | .waitTest => 10
  | .returnTest => 9
  | .returnTestEmpty => 8
  | .front => 7
  | .executeTest _ => 6
  | .executing _ => 5
  | .popLock _ => 4
  | .pop _ => 3
  | .returned => 0

/-- Nothing is on the queue, and nothing removed is left to delete. -/
def Drained (dispatcher : EventDispatcher ρ τ) : Prop :=
  dispatcher.taskQueue = [] ∧ dispatcher.eventLoop.phase.deleting = []

omit [DecidableEq ρ] [DecidableEq τ] in
/-- With nobody in the critical section on the queue, its lock is free. -/
private theorem queue_unlocked (sound : Sound dispatcher)
    (free : ∀ caller, (dispatcher.callers caller).locksQueue = false)
    (outside : dispatcher.eventLoop.locksQueue = false) : dispatcher.queueMutex = none := by
  apply sound.queueLock.free
  intro who
  cases who with
  | caller caller => exact free caller
  | destructor => rfl
  | eventLoop => exact outside

omit [DecidableEq ρ] [DecidableEq τ] in
/-- With nobody in the critical section on the flags, its lock is free. -/
private theorem stopped_unlocked (sound : Sound dispatcher)
    (free : ∀ caller, (dispatcher.callers caller).locksStopped = false)
    (outside : dispatcher.destructor.locksStopped = false) : dispatcher.stoppedMutex = none := by
  apply sound.stoppedLock.free
  intro who
  cases who with
  | caller caller => exact free caller
  | destructor => exact outside
  | eventLoop => rfl

/-- With no caller in the way, the event loop takes one step closer to an empty
queue. -/
private theorem eventLoop_advances (runner : ρ) (sound : Sound dispatcher)
    (idle : dispatcher.callers runner = .idle)
    (free : ∀ caller, (dispatcher.callers caller).locksQueue = false)
    (ended : dispatcher.eventLoop = .returned → dispatcher.taskQueue = [])
    (filled : ¬ Drained dispatcher) :
    dispatcher.enabled runner .eventLoop = true ∧
      ∃ next events, dispatcher.eventLoopStep = .ok (next, events) ∧
      next.callers = dispatcher.callers ∧
        15 * next.taskQueue.length + next.eventLoop.rank <
          15 * dispatcher.taskQueue.length + dispatcher.eventLoop.rank := by
  have knows := sound.loopKnows
  simp only [Drained, LoopKnows] at filled knows
  cases pc : dispatcher.eventLoop with
  | lock | wait | popLock =>
    have opened := queue_unlocked sound free (by rw [pc]; rfl)
    simp [EventDispatcher.enabled, eventLoopStep, pc, opened, LoopPc.rank]
  | executing =>
    simp [EventDispatcher.enabled, eventLoopStep, pc, idle, LoopPc.rank]
  | waitTest =>
    simp only [pc, LoopPc.phase, SerialQueue.Phase.deleting, and_true] at filled
    simp [EventDispatcher.enabled, eventLoopStep, pc, filled, LoopPc.rank]
  | waitTestDying | returnTest | executeTest =>
    cases dying : dispatcher.isDying <;>
      simp [EventDispatcher.enabled, eventLoopStep, pc, dying, LoopPc.rank]
  | returnTestEmpty =>
    simp only [pc, LoopPc.phase, SerialQueue.Phase.deleting, and_true] at filled
    simp [EventDispatcher.enabled, eventLoopStep, pc, filled, LoopPc.rank]
  | front =>
    simp only [pc] at knows
    obtain ⟨task, rest, shape⟩ := List.exists_cons_of_ne_nil knows
    simp [EventDispatcher.enabled, eventLoopStep, pc, shape, LoopPc.rank]
  | pop task =>
    simp only [pc] at knows
    obtain ⟨rest, shape⟩ := List.head?_eq_some_iff.mp knows
    simp only [EventDispatcher.enabled, eventLoopStep, pc, shape, LoopPc.rank, true_and]
    refine ⟨_, _, rfl, rfl, ?_⟩
    simp only [List.length_cons]
    omega
  | popCount | delete =>
    simp [EventDispatcher.enabled, eventLoopStep, pc, LoopPc.rank]
  | returned =>
    simp only [pc, LoopPc.phase, SerialQueue.Phase.deleting, and_true] at filled
    exact absurd (ended pc) filled

/-- What holds in every interleaving, the runner included. -/
structure Ready (runner : ρ) (system : System ρ τ) : Prop where
  refines : Refines system
  calling : Calling runner system.dispatcher

theorem ready_step {move : Move ρ τ} {after : System ρ τ} (ready : Ready runner system)
    (allowed : (program runner).allowed system move)
    (ran : (program runner).exec system move = .ok after) :
    Ready runner after := by
  refine ⟨refines_step ready.refines allowed ran, ?_⟩
  simp only [program, System.exec] at ran
  split at ran
  · rename_i stepped
    cases ran
    exact calling_step ready.calling allowed.1 stepped
  · cases ran

theorem reachable_ready (reached : Reachable (program runner) system) : Ready runner system :=
  reached.invariant (Ready runner) ⟨⟨.start, ⟨nofun, nofun, nofun, nofun⟩, .start⟩, fun busy =>
    absurd rfl busy⟩
    fun _ _ _ ready allowed ran => ready_step ready allowed ran

theorem ready_leads {final : System ρ τ} (ready : Ready runner system)
    (leads : Leads (living runner) system final) : Ready runner final :=
  leads.invariant (Ready runner) (fun _ _ _ ready allowed ran => ready_step ready allowed.1 ran)
    ready

/-- The one caller inside a critical section can leave it by ending its call. -/
private theorem section_left (ready : Ready runner system) (inside : CallerPc τ → Bool)
    (outside : inside .idle = false)
    (available : ∀ caller, inside (system.dispatcher.callers caller) = true →
      Available system.dispatcher caller)
    (alone : ∀ one two, inside (system.dispatcher.callers one) = true →
      inside (system.dispatcher.callers two) = true → one = two) :
    ∃ final, Leads (living runner) system final ∧
      (∀ caller, inside (final.dispatcher.callers caller) = false) ∧
      (∀ caller, final.dispatcher.callers caller = system.dispatcher.callers caller ∨
        final.dispatcher.callers caller = .idle) ∧
      final.dispatcher.eventLoop = system.dispatcher.eventLoop := by
  by_cases someone : ∃ caller, inside (system.dispatcher.callers caller) = true
  · obtain ⟨who, held⟩ := someone
    obtain ⟨final, leads, _, idle, others, loop, _⟩ := call_ends ready.refines (available who held)
    refine ⟨final, leads, ?_, ?_, loop⟩
    · intro caller
      by_cases same : caller = who
      · rw [same, idle, outside]
      · rw [others caller same, Bool.eq_false_iff]
        intro also
        exact same (alone caller who also held)
    · intro caller
      by_cases same : caller = who
      · exact .inr (same ▸ idle)
      · exact .inl (others caller same)
  · exact ⟨system, .here, fun caller => Bool.eq_false_iff.mpr fun held => someone ⟨caller, held⟩,
      fun _ => .inl rfl, rfl⟩

/-- The running task can end the call it is in. -/
private theorem runner_ends (ready : Ready runner system)
    (free : ∀ caller, (system.dispatcher.callers caller).locksQueue = false)
    (unlocked : system.dispatcher.stoppedMutex = none) :
    ∃ final, Leads (living runner) system final ∧ final.dispatcher.callers runner = .idle ∧
      ∀ caller, (final.dispatcher.callers caller).locksQueue = false := by
  by_cases idle : system.dispatcher.callers runner = .idle
  · exact ⟨system, .here, idle, free⟩
  · have running := ready.calling idle
    have outside : system.dispatcher.eventLoop.locksQueue = false := by
      cases pc : system.dispatcher.eventLoop <;> simp_all [LoopPc.isExecuting, LoopPc.locksQueue]
    have queueUnlocked := queue_unlocked ready.refines.sound free outside
    have available : Available system.dispatcher runner := by
      unfold Available
      split <;> first | exact queueUnlocked | exact unlocked | trivial
    obtain ⟨final, leads, _, ended, others, _⟩ := call_ends ready.refines available
    refine ⟨final, leads, ended, ?_⟩
    intro caller
    by_cases own : caller = runner
    · rw [own, ended]
      rfl
    · rw [others caller own, free]

/-- Every run in which only the event loop moves. -/
def looping (runner : ρ) : Program (System ρ τ) (Move ρ τ) Fault :=
  { living runner with allowed := fun system move => (living runner).allowed system move ∧ move = .eventLoop }

/-- With no caller in the way, the event loop empties the queue. -/
theorem eventLoop_drains (ready : Ready runner system)
    (idle : system.dispatcher.callers runner = .idle)
    (free : ∀ caller, (system.dispatcher.callers caller).locksQueue = false) :
    ∃ final, Leads (looping runner) system final ∧ Drained final.dispatcher := by
  let Kept (state : System ρ τ) : Prop :=
    Refines state ∧ state.dispatcher.callers = system.dispatcher.callers
  have advances (state : System ρ τ) (kept : Kept state) (filled : ¬ Drained state.dispatcher) :
      ∃ move next, (looping runner).allowed state move ∧ (looping runner).exec state move =
      .ok next ∧ Kept next ∧
        15 * next.dispatcher.taskQueue.length + next.dispatcher.eventLoop.rank <
          15 * state.dispatcher.taskQueue.length + state.dispatcher.eventLoop.rank := by
    obtain ⟨refines, callers⟩ := kept
    have ended (returned : state.dispatcher.eventLoop = .returned) :
      state.dispatcher.taskQueue = [] :=
      (refines.accepts.accounts.empty (by simpa [toServer] using returned)).1
    obtain ⟨enabled, next, events, ran, same, less⟩ := eventLoop_advances runner
      refines.sound (by rw [callers, idle]) (by simpa [callers] using free) ended filled
    have executed : (program runner).exec state .eventLoop = .ok ⟨next, state.log ++ events⟩ := by
      simp [program, System.exec, EventDispatcher.step, ran]
    exact ⟨.eventLoop, _, ⟨⟨⟨enabled, trivial⟩, trivial⟩, rfl⟩, executed,
      ⟨refines_step refines ⟨enabled, trivial⟩ executed, same.trans callers⟩, less⟩
  obtain ⟨final, leads, _, drained⟩ :=
    Leads.descend (looping runner) Kept (fun state => Drained state.dispatcher)
    (fun state => 15 * state.dispatcher.taskQueue.length + state.dispatcher.eventLoop.rank)
    advances system ⟨ready.refines, rfl⟩
  exact ⟨final, leads, drained⟩

/-- From every reachable state the queue can still be emptied, and nobody has to
destroy the dispatcher for it. -/
theorem drains (ready : Ready runner system) :
    ∃ final, Leads (living runner) system final ∧ Drained final.dispatcher := by
  -- The caller inside the critical section on the queue ends its call.
  obtain ⟨first, toFirst, queueFree, _, _⟩ := section_left ready CallerPc.locksQueue rfl
    (fun caller held => by
      unfold Available
      cases pc : system.dispatcher.callers caller <;> simp_all [CallerPc.locksQueue])
    (fun one two held also => by
      have first : system.dispatcher.insideQueue (.caller one) = true := held
      have second : system.dispatcher.insideQueue (.caller two) = true := also
      cases ready.refines.sound.queueLock.alone first second
      rfl)
  have readyFirst := ready_leads ready toFirst
  -- So does the one inside the critical section on the flags.
  obtain ⟨second, toSecond, stoppedFree, kept, _⟩ :=
    section_left readyFirst CallerPc.locksStopped rfl
    (fun caller held => by
      unfold Available
      cases pc : first.dispatcher.callers caller <;> simp_all [CallerPc.locksStopped])
    (fun one two held also => by
      have held' : first.dispatcher.insideStopped (.caller one) = true := held
      have also' : first.dispatcher.insideStopped (.caller two) = true := also
      cases readyFirst.refines.sound.stoppedLock.alone held' also'
      rfl)
  have readySecond := ready_leads readyFirst toSecond
  have queueFreeSecond (caller : ρ) : (second.dispatcher.callers caller).locksQueue = false := by
    rcases kept caller with same | idle
    · rw [same, queueFree]
    · rw [idle]
      rfl
  -- So does the destructor.
  obtain ⟨third, toThird, _, released, callers, _⟩ := destructor_releases runner readySecond.refines
  have readyThird := ready_leads readySecond toThird
  have queueFreeThird (caller : ρ) : (third.dispatcher.callers caller).locksQueue = false := by
    rw [callers, queueFreeSecond]
  have stoppedFreeThird (caller : ρ) : (third.dispatcher.callers caller).locksStopped = false := by
    rw [callers, stoppedFree]
  -- So does the running task; then the event loop is alone.
  obtain ⟨fourth, toFourth, idle, queueFreeFourth⟩ := runner_ends readyThird queueFreeThird
    (stopped_unlocked readyThird.refines.sound stoppedFreeThird released)
  have readyFourth := ready_leads readyThird toFourth
  obtain ⟨final, alone, drained⟩ := eventLoop_drains readyFourth idle queueFreeFourth
  have toFinal : Leads (living runner) fourth final :=
    alone.widen (fun _ _ allowed => allowed.1) rfl
  exact ⟨final, (((toFirst.trans toSecond).trans toThird).trans toFourth).trans toFinal, drained⟩

end EventDisp.EventDispatcher
