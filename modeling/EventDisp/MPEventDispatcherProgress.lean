import EventDisp.EventDispatcherAnswers
import EventDisp.MPEventDispatcherRouting

/-! Several dispatchers get in each other's way only for as long as a call takes:
from every state they reach, every task that is pushed can still be executed. -/
namespace EventDisp

namespace EventDispatcher

variable {ρ τ : Type} [DecidableEq ρ] [DecidableEq τ] {dispatcher : EventDispatcher ρ τ}
  {holder : Holder ρ}

/-- How many steps the event loop is from the end of its critical section. -/
def LoopPc.untilUnlock : LoopPc τ → Nat
  | .waitTest => 5
  | .waitTestDying => 4
  | .returnTest => 3
  | .returnTestEmpty | .pop _ => 2
  | .front | .popCount _ => 1
  | .lock | .wait | .executeTest _ | .executing _ | .popLock _ | .delete _ | .returned => 0

/-- How many steps the holder of `queueMutex_` is from releasing it. -/
def untilUnlock (dispatcher : EventDispatcher ρ τ) : Nat :=
  match dispatcher.queueMutex with
  | some (.caller caller) => (dispatcher.callers caller).rank
  | some .eventLoop => dispatcher.eventLoop.untilUnlock
  | some .destructor | none => 0

/-- A caller that holds `queueMutex_` can always go on. -/
theorem caller_unlocks (runner : ρ) {caller : ρ} (sound : Sound dispatcher)
    (locked : dispatcher.queueMutex = some (.caller caller)) :
    (dispatcher.callers caller).locksQueue = true ∧ dispatcher.enabled runner (.caller caller) =
    true ∧
      (dispatcher.callerStep caller).1.untilUnlock < dispatcher.untilUnlock := by
  have inside : (dispatcher.callers caller).locksQueue = true :=
    (sound.queueLock (.caller caller)).mpr locked
  refine ⟨inside, ?_⟩
  unfold untilUnlock
  rw [locked]
  cases pc : dispatcher.callers caller <;> simp [pc, CallerPc.locksQueue] at inside
  case enqueueTest newTask =>
    cases stopped : dispatcher.isStopped <;> cases newTask <;>
      simp [EventDispatcher.enabled, callerStep, pc, stopped, goto, locked, CallerPc.rank]
  all_goals simp [EventDispatcher.enabled, callerStep, pc, goto, locked, CallerPc.rank]

/-- The event loop, when it holds `queueMutex_`, can always go on. -/
theorem eventLoop_unlocks (runner : ρ) (sound : Sound dispatcher)
    (locked : dispatcher.queueMutex = some .eventLoop) :
    dispatcher.eventLoop.locksQueue = true ∧ dispatcher.enabled runner .eventLoop = true ∧
      ∃ next events, dispatcher.eventLoopStep = .ok (next, events) ∧
      next.untilUnlock < dispatcher.untilUnlock := by
  have inside : dispatcher.eventLoop.locksQueue = true := (sound.queueLock .eventLoop).mpr locked
  have knows := sound.loopKnows
  refine ⟨inside, ?_⟩
  unfold untilUnlock
  rw [locked]
  simp only [LoopKnows] at knows
  cases pc : dispatcher.eventLoop <;> simp [pc, LoopPc.locksQueue] at inside
  case front =>
    simp only [pc] at knows
    obtain ⟨task, rest, shape⟩ := List.exists_cons_of_ne_nil knows
    simp [EventDispatcher.enabled, eventLoopStep, pc, shape, LoopPc.untilUnlock]
  case pop task =>
    simp only [pc] at knows
    obtain ⟨rest, shape⟩ := List.head?_eq_some_iff.mp knows
    simp [EventDispatcher.enabled, eventLoopStep, pc, shape, locked, LoopPc.untilUnlock]
  case waitTestDying =>
    cases dying : dispatcher.isDying <;>
      simp [EventDispatcher.enabled, eventLoopStep, pc, dying, locked, LoopPc.untilUnlock]
  case returnTest =>
    cases dying : dispatcher.isDying <;>
      simp [EventDispatcher.enabled, eventLoopStep, pc, dying, locked, LoopPc.untilUnlock]
  case waitTest =>
    cases empty : dispatcher.taskQueue <;>
      simp [EventDispatcher.enabled, eventLoopStep, pc, empty, locked, LoopPc.untilUnlock]
  case returnTestEmpty =>
    cases empty : dispatcher.taskQueue <;>
      simp [EventDispatcher.enabled, eventLoopStep, pc, empty, locked, LoopPc.untilUnlock]
  case popCount task =>
    simp [EventDispatcher.enabled, eventLoopStep, pc, LoopPc.untilUnlock]

end EventDispatcher

namespace MPEventDispatcher

open Execution EventDispatcher

variable {τ : Type} [DecidableEq τ] {concurrentTaskCount : Nat} {rule : Rule τ}
variable {system after : System concurrentTaskCount τ} {destination : Fin concurrentTaskCount}
variable {caller : Caller concurrentTaskCount} {newTask : UnitTask τ}

/-- A step of a caller inside one of the dispatchers. -/
private theorem caller_lifts (rule : Rule τ)
    (inside : system.dispatcher.callers caller = .inside newTask destination)
    (busy : (system.seenAt destination).dispatcher.callers caller ≠ .idle)
    (enabled : (system.seenAt destination).dispatcher.enabled (.task destination)
      (.caller caller) = true) :
    (program concurrentTaskCount rule).allowed system (.caller caller) ∧
      (program concurrentTaskCount rule).exec system (.caller caller) =
        .ok (system.updated destination ((system.seenAt destination).dispatcher.callerStep caller).1
          ((system.seenAt destination).dispatcher.callerStep caller).2) := by
  have away : (system.dispatcher.dispatchers destination).callers caller ≠ .idle := busy
  have ready : (system.dispatcher.dispatchers destination).enabled (.task destination)
    (.caller caller) = true := enabled
  refine ⟨⟨?_, trivial⟩, ?_⟩
  · simp [MPEventDispatcher.enabled, inside, ready]
  · simp only [program, System.exec, step, callerStep, inside, away, if_false, dispatch,
      EventDispatcher.step]
    rfl

/-- A step of one of the event loops. -/
private theorem eventLoop_lifts (rule : Rule τ)
    {moved : EventDispatcher (Caller concurrentTaskCount) τ}
    {events : List (EventDispatcher.Event (Caller concurrentTaskCount) τ)}
    (enabled : (system.seenAt destination).dispatcher.enabled (.task destination) .eventLoop = true)
    (ended : (system.seenAt destination).dispatcher.eventLoop.isExecuting = true →
      system.dispatcher.callers (.task destination) = .idle)
    (ran : (system.seenAt destination).dispatcher.eventLoopStep = .ok (moved, events)) :
    (program concurrentTaskCount rule).allowed system (.eventLoop destination) ∧
      (program concurrentTaskCount rule).exec system (.eventLoop destination) =
        .ok (system.updated destination moved events) := by
  have ready : (system.dispatcher.dispatchers destination).enabled (.task destination) .eventLoop =
    true := enabled
  have stepped : (system.dispatcher.dispatchers destination).eventLoopStep = .ok (moved, events) :=
    ran
  refine ⟨⟨?_, trivial⟩, ?_⟩
  · simp only [MPEventDispatcher.enabled, ready, Bool.true_and, Bool.or_eq_true, Bool.not_eq_true',
      decide_eq_true_eq]
    by_cases executing : (system.dispatcher.dispatchers destination).eventLoop.isExecuting = true
    · exact .inr (ended executing)
    · exact .inl (by simpa using executing)
  · simp only [program, System.exec, step, dispatch, EventDispatcher.step, stepped]
    rfl

theorem sequenced_leads (sequenced : Sequenced rule system)
    (leads : Leads (program concurrentTaskCount rule) system after) :
    Sequenced rule after :=
  leads.invariant (Sequenced rule) (fun _ _ _ sequenced allowed ran =>
    sequenced_turn sequenced (exec_turn allowed ran))
    sequenced

/-- Who is inside a dispatcher has been sent there. -/
private theorem inside_of_busy (sequenced : Sequenced rule system)
    (busy : (system.seenAt destination).dispatcher.callers caller ≠ .idle) :
    ∃ newTask, system.dispatcher.callers caller = .inside newTask destination := by
  have located := sequenced.located caller
  unfold Located at located
  cases pc : system.dispatcher.callers caller with
  | idle | choose | forward =>
    simp only [pc] at located
    first | exact absurd (located destination) busy | exact absurd (located.1 destination) busy
  | inside newTask there =>
    simp only [pc] at located
    by_cases same : destination = there
    · exact ⟨newTask, by rw [same]⟩
    · exact absurd (located.1 destination same) busy

/-- What stays when only the holder of a dispatcher's `queueMutex_` moves. -/
private structure Kept (destination : Fin concurrentTaskCount)
    (system after : System concurrentTaskCount τ) : Prop where
  callers : after.dispatcher.callers = system.dispatcher.callers
  outside : ∀ caller, ((system.seenAt destination).dispatcher.callers caller).locksQueue = false →
    (after.seenAt destination).dispatcher.callers caller =
    (system.seenAt destination).dispatcher.callers caller

/-- The `queueMutex_` of a dispatcher can be released. -/
private theorem releases (sequenced : Sequenced rule system)
    (destination : Fin concurrentTaskCount) :
    ∃ final, Leads (program concurrentTaskCount rule) system final ∧ Kept destination system final ∧
      (final.seenAt destination).dispatcher.queueMutex = none := by
  have advances (state : System concurrentTaskCount τ) (invariant : Sequenced rule state ∧
    Kept destination system state)
      (locked : ¬ (state.seenAt destination).dispatcher.queueMutex = none) :
      ∃ move next, (program concurrentTaskCount rule).allowed state move ∧
        (program concurrentTaskCount rule).exec state move = .ok next ∧
        (Sequenced rule next ∧ Kept destination system next) ∧
        (next.seenAt destination).dispatcher.untilUnlock <
          (state.seenAt destination).dispatcher.untilUnlock := by
    obtain ⟨ordered, kept⟩ := invariant
    have sound := (reachable_ready (ordered.reached destination)).refines.sound
    obtain ⟨holder, held⟩ := Option.ne_none_iff_exists'.mp locked
    cases holder with
    | caller caller =>
      obtain ⟨inside, enabled, less⟩ := caller_unlocks (.task destination) sound held
      have busy : (state.seenAt destination).dispatcher.callers caller ≠ .idle := by
        intro idle
        rw [idle] at inside
        cases inside
      obtain ⟨newTask, sent⟩ := inside_of_busy ordered busy
      obtain ⟨allowed, ran⟩ := caller_lifts rule sent busy enabled
      refine ⟨_, _, allowed, ran, ⟨sequenced_turn ordered (exec_turn allowed ran), kept.callers,
        ?_⟩, ?_⟩
      · intro other outside
        have different : other ≠ caller := by
          rintro rfl
          rw [kept.outside other outside, outside] at inside
          cases inside
        rw [updated_seenAt_own]
        exact ((callerStep_frame (state.seenAt destination).dispatcher caller).1 other
          different).trans
          (kept.outside other outside)
      · rwa [updated_seenAt_own]
    | destructor => cases (sound.queueLock .destructor).mpr held
    | eventLoop =>
      obtain ⟨inside, enabled, moved, events, stepped, less⟩ :=
        eventLoop_unlocks (.task destination) sound held
      have ended : (state.seenAt destination).dispatcher.eventLoop.isExecuting = true →
          state.dispatcher.callers (.task destination) = .idle := by
        intro executing
        cases pc : (state.seenAt destination).dispatcher.eventLoop <;>
          simp_all [LoopPc.locksQueue, LoopPc.isExecuting]
      obtain ⟨allowed, ran⟩ := eventLoop_lifts rule enabled ended stepped
      refine ⟨_, _, allowed, ran, ⟨sequenced_turn ordered (exec_turn allowed ran), kept.callers,
        ?_⟩, ?_⟩
      · intro other outside
        rw [updated_seenAt_own]
        exact (congrFun (eventLoopStep_frame stepped) other).trans (kept.outside other outside)
      · rwa [updated_seenAt_own]
  obtain ⟨final, leads, ⟨_, kept⟩, free⟩ := Leads.descend (program concurrentTaskCount rule)
    (fun state => Sequenced rule state ∧ Kept destination system state)
    (fun state => (state.seenAt destination).dispatcher.queueMutex = none)
    (fun state => (state.seenAt destination).dispatcher.untilUnlock) advances system ⟨sequenced,
      rfl, fun _ _ => rfl⟩
  exact ⟨final, leads, kept, free⟩

/-- Inside a dispatcher a call comes to its end. -/
private theorem inside_ends (sequenced : Sequenced rule system)
    (inside : system.dispatcher.callers caller = .inside newTask destination) :
    ∃ final, Leads (program concurrentTaskCount rule) system final ∧
    final.dispatcher.callers caller = .idle := by
  obtain ⟨start, first, kept, free⟩ := releases sequenced destination
  have available : Available (start.seenAt destination).dispatcher caller := by
    unfold Available
    split
    · exact free
    · have located := (sequenced_leads sequenced first).located caller
      simp_all [Located, EventDispatcher.Handing, kept.callers]
    · have located := (sequenced_leads sequenced first).located caller
      simp_all [Located, EventDispatcher.Handing, kept.callers]
    all_goals trivial
  have advances (state : System concurrentTaskCount τ)
      (invariant : Sequenced rule state ∧ state.dispatcher.callers caller =
        .inside newTask destination ∧
        Available (state.seenAt destination).dispatcher caller)
      (busy : ¬ (state.seenAt destination).dispatcher.callers caller = .idle) :
      ∃ move next, (program concurrentTaskCount rule).allowed state move ∧
        (program concurrentTaskCount rule).exec state move = .ok next ∧
        (Sequenced rule next ∧ next.dispatcher.callers caller = .inside newTask destination ∧
          Available (next.seenAt destination).dispatcher caller) ∧
        ((next.seenAt destination).dispatcher.callers caller).rank <
          ((state.seenAt destination).dispatcher.callers caller).rank := by
    obtain ⟨ordered, here, open'⟩ := invariant
    obtain ⟨enabled, still, less⟩ := caller_advances (.task destination) open' busy
    obtain ⟨allowed, ran⟩ := caller_lifts rule here busy enabled
    refine ⟨_, _, allowed, ran, ⟨sequenced_turn ordered (exec_turn allowed ran), here, ?_⟩, ?_⟩
    · rwa [updated_seenAt_own]
    · rwa [updated_seenAt_own]
  obtain ⟨there, second, ⟨ordered, here, _⟩, idle⟩ :=
    Leads.descend (program concurrentTaskCount rule) _
    (fun state => (state.seenAt destination).dispatcher.callers caller = .idle)
    (fun state => ((state.seenAt destination).dispatcher.callers caller).rank) advances start
    ⟨sequenced_leads sequenced first, by rw [kept.callers, inside], available⟩
  -- The destination's call is over; the call on all of them ends with the next step.
  have done : (there.dispatcher.dispatchers destination).callers caller = .idle := idle
  have allowed : (program concurrentTaskCount rule).allowed there (.caller caller) :=
    ⟨by simp [MPEventDispatcher.enabled, here, done], trivial⟩
  refine ⟨⟨there.dispatcher.goto caller .idle, there.log ++ [.returned caller newTask true]⟩,
    (first.trans second).step allowed ?_, by simp⟩
  simp [program, System.exec, step, callerStep, here, done]

/-- A call that brings a task comes to its end. -/
private theorem call_ends (sequenced : Sequenced rule system)
    (brings : system.dispatcher.callers caller ≠ .choose none) :
    ∃ final, Leads (program concurrentTaskCount rule) system final ∧
    final.dispatcher.callers caller = .idle := by
  have forward_ends (state : System concurrentTaskCount τ) (ordered : Sequenced rule state)
    (newTask : UnitTask τ)
      (taskDestination : Nat) (pc : state.dispatcher.callers caller =
      .forward newTask taskDestination) :
      ∃ final, Leads (program concurrentTaskCount rule) state final ∧
        final.dispatcher.callers caller = .idle := by
    have located := ordered.located caller
    simp only [Located, pc] at located
    have bound := located.2.2
    have allowed : (program concurrentTaskCount rule).allowed state (.caller caller) :=
      ⟨by simp [MPEventDispatcher.enabled, pc], trivial⟩
    obtain ⟨next, stepped⟩ : ∃ next, (program concurrentTaskCount rule).exec state
      (.caller caller) = .ok next := by
      simp [program, System.exec, step, callerStep, pc, bound, dispatch, EventDispatcher.step]
    have inside : next.dispatcher.callers caller = .inside newTask ⟨taskDestination, bound⟩ := by
      simp only [program, System.exec, step, callerStep, pc, bound, dite_true, dispatch,
        EventDispatcher.step,
        Except.ok.injEq] at stepped
      rw [← stepped]
      exact (goto_callers ..).trans (if_pos rfl)
    obtain ⟨final, leads, idle⟩ :=
      inside_ends (sequenced_turn ordered (exec_turn allowed stepped)) inside
    exact ⟨final, (Leads.here.step allowed stepped).trans leads, idle⟩
  cases pc : system.dispatcher.callers caller with
  | idle => exact ⟨system, .here, pc⟩
  | choose brought =>
    cases brought with
    | none => exact absurd pc brings
    | some newTask =>
      have allowed : (program concurrentTaskCount rule).allowed system (.caller caller) :=
        ⟨by simp [MPEventDispatcher.enabled, pc], trivial⟩
      have ran : (program concurrentTaskCount rule).exec system (.caller caller) =
          .ok ⟨(system.dispatcher.chooseDestination rule newTask.id).1.goto caller
            (.forward newTask (system.dispatcher.chooseDestination rule newTask.id).2),
            system.log⟩ := by
        simp [program, System.exec, step, callerStep, pc]
      obtain ⟨final, leads, idle⟩ :=
        forward_ends _ (sequenced_turn sequenced (exec_turn allowed ran)) newTask _
        ((goto_callers ..).trans (if_pos rfl))
      exact ⟨final, (Leads.here.step allowed ran).trans leads, idle⟩
  | forward newTask taskDestination =>
    exact forward_ends system sequenced newTask taskDestination pc
  | inside newTask taskDestination => exact inside_ends sequenced pc

end MPEventDispatcher
end EventDisp
