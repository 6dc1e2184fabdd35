import EventDisp.EventDispatcherProgress

/-! What becomes of the tasks pushed on a dispatcher, read off its log. -/
namespace EventDisp.EventDispatcher

open Execution

variable {ρ τ : Type} [DecidableEq ρ] [DecidableEq τ] {runner : ρ}
variable {dispatcher : EventDispatcher ρ τ} {log : List (Event ρ τ)}

def pushedTasks (log : List (Event ρ τ)) : List (UnitTask τ) := SerialQueue.pushed (queueLog log)
def startedTasks (log : List (Event ρ τ)) : List (UnitTask τ) := SerialQueue.started (queueLog log)
def skippedTasks (log : List (Event ρ τ)) : List (UnitTask τ) := SerialQueue.skipped (queueLog log)
def finishedTasks (log : List (Event ρ τ)) : List (UnitTask τ) :=
  SerialQueue.finished (queueLog log)
def removedTasks (log : List (Event ρ τ)) : List (UnitTask τ) := SerialQueue.removed (queueLog log)
def deletedTasks (log : List (Event ρ τ)) : List (UnitTask τ) := SerialQueue.deleted (queueLog log)

omit [DecidableEq ρ] [DecidableEq τ] in
@[simp] theorem pushedTasks_append (log more : List (Event ρ τ)) :
    pushedTasks (log ++ more) = pushedTasks log ++ pushedTasks more := by
  simp [pushedTasks]

omit [DecidableEq ρ] [DecidableEq τ] in
@[simp] theorem handed_append (log more : List (Event ρ τ)) :
    handed (log ++ more) = handed log ++ handed more := by
  simp [handed]

omit [DecidableEq ρ] [DecidableEq τ] in
@[simp] theorem handed_called (caller : ρ) (newTask : Option (UnitTask τ)) :
    handed [.called caller newTask] = newTask.toList := by
  cases newTask <;> rfl

omit [DecidableEq ρ] [DecidableEq τ] in
@[simp] theorem pushedTasks_called (caller : ρ) (newTask : Option (UnitTask τ)) :
    pushedTasks [.called caller newTask] = [] := rfl

/-- What the dispatcher promises about the tasks pushed on its queue. -/
structure TaskDiscipline (runner : ρ) (system : System ρ τ) : Prop where
  /-- No task is pushed twice, and none that was pushed is deleted by `enqueueTask`. -/
  pushedOnce : (pushedTasks system.log).Nodup
  notDiscarded : ∀ task ∈ pushedTasks system.log, task ∉ discardedTasks system.log
  /-- Tasks are removed, and then deleted, in push order; what was pushed and is
  not removed is on the queue, and at most the last removed task is not deleted. -/
  removed : pushedTasks system.log = removedTasks system.log ++ system.dispatcher.taskQueue
  deleted : ∃ rest, removedTasks system.log = deletedTasks system.log ++ rest ∧ rest.length ≤ 1
  /-- A task is started once, while it is on the queue, when no other is running. -/
  started : ∀ earlier task later, system.log = earlier ++ .started task :: later →
    task ∈ pushedTasks earlier ∧ task ∉ removedTasks earlier ∧ task ∉ startedTasks earlier ∧
      startedTasks earlier = finishedTasks earlier
  /-- A task is removed after it has run to its end or was skipped. -/
  settled : ∀ earlier task later, system.log = earlier ++ .removed task :: later →
    task ∈ finishedTasks earlier ∨ task ∈ skippedTasks earlier
  /-- A task is skipped only after `isDying_` was set. -/
  skipped : ∀ earlier task later, system.log = earlier ++ .skipped task :: later →
    .dying ∈ earlier ∧ task ∉ startedTasks earlier
  /-- When the event loop returns, everything is deleted; nothing is pushed later. -/
  returned : ∀ earlier later, system.log = earlier ++ .loopReturned :: later →
    deletedTasks earlier = pushedTasks earlier ∧ pushedTasks later = []
  empty : system.dispatcher.eventLoop = .returned → system.dispatcher.taskQueue = []
  /-- No move reads from an empty queue, and every pushed task can still be deleted. -/
  continues : ∀ move, (program runner).allowed system move → ∃ after,
    (program runner).exec system move = .ok after
  completes : ∀ task ∈ pushedTasks system.log, ∃ final, Leads (program runner) system final ∧
    task ∈ deletedTasks final.log

omit [DecidableEq ρ] [DecidableEq τ] in
theorem queueLog_split (earlier later : List (Event ρ τ)) {event : Event ρ τ}
    {shown : SerialQueue.Event (UnitTask τ)} (shows : event.queueEvent? = some shown) :
    queueLog (earlier ++ event :: later) = queueLog earlier ++ shown :: queueLog later := by
  simp [queueLog, shows]

omit [DecidableEq ρ] [DecidableEq τ] in
private theorem closing_mem (seen : .closing ∈ queueLog log) : .dying ∈ log := by
  obtain ⟨event, member, shows⟩ := List.mem_filterMap.mp seen
  cases event <;> simp_all [Event.queueEvent?]

/-- Every step of a dispatcher that is in order returns. -/
theorem step_returns (sound : Sound dispatcher) (move : Move ρ τ) :
    ∃ next events, dispatcher.step move = .ok (next, events) := by
  have knows := sound.loopKnows
  cases move with
  | enqueueTask | stop | resume | caller | destroy | destructor => exact ⟨_, _, rfl⟩
  | eventLoop =>
    simp only [EventDispatcher.step]
    simp only [LoopKnows] at knows
    cases pc : dispatcher.eventLoop with
    | front =>
      simp only [pc] at knows
      obtain ⟨task, rest, shape⟩ := List.exists_cons_of_ne_nil knows
      simp [eventLoopStep, pc, shape]
    | pop task =>
      simp only [pc] at knows
      obtain ⟨rest, shape⟩ := List.head?_eq_some_iff.mp knows
      simp [eventLoopStep, pc, shape]
    | waitTestDying | executeTest =>
      cases dying : dispatcher.isDying <;> simp [eventLoopStep, pc, dying]
    | returnTestEmpty => cases empty : dispatcher.taskQueue <;> simp [eventLoopStep, pc, empty]
    | lock | waitTest | wait | returnTest | executing | popLock | popCount | delete | returned =>
      simp [eventLoopStep, pc]

/-- The log only grows. -/
theorem log_grows {system final : System ρ τ} (leads : Leads (living runner) system final) :
    ∃ more, final.log = system.log ++ more := by
  refine leads.invariant (fun state => ∃ more, state.log = system.log ++ more) ?_ ⟨[], by simp⟩
  rintro state move next ⟨more, shape⟩ _ ran
  simp only [living, program, System.exec] at ran
  split at ran
  · cases ran
    exact ⟨_, by rw [shape, List.append_assoc]⟩
  · cases ran

/-- **Every pushed task is run at most once, in order and alone, then removed and
deleted.** It holds in every interleaving of any callers, the tasks themselves,
the destructor and the event loop; only a dying dispatcher skips tasks, and when
its loop returns nothing is left and nothing is pushed any more. -/
theorem task_discipline {system : System ρ τ} (reached : Reachable (program runner) system) :
    TaskDiscipline runner system := by
  have ready := reachable_ready reached
  obtain ⟨sound, distinct, accepts⟩ := ready.refines
  have accounts := accepts.accounts
  refine ⟨accounts.distinct, ?_, accounts.order, ⟨_, accounts.deletion, ?_⟩, ?_, ?_, ?_,
    ?_, ?_, ?_, ?_⟩
  · intro task pushed discarded
    exact distinct.disjoint _ (List.mem_map_of_mem pushed) (List.mem_map_of_mem discarded)
  · cases system.dispatcher.toServer.phase <;> simp
  · intro earlier task later shape
    rw [shape, queueLog_split earlier later rfl] at accepts
    exact accepts.started_at
  · intro earlier task later shape
    rw [shape, queueLog_split earlier later rfl] at accepts
    exact accepts.removed_at
  · intro earlier task later shape
    rw [shape, queueLog_split earlier later rfl] at accepts
    obtain ⟨_, _, unstarted, closing⟩ := accepts.skipped_at
    exact ⟨closing_mem closing, unstarted⟩
  · intro earlier later shape
    rw [shape, queueLog_split earlier later rfl] at accepts
    exact ⟨accepts.closed_at.2, accepts.nothing_pushed_after_closed⟩
  · intro returned
    exact (accounts.empty (by simpa [toServer] using returned)).1
  · intro move allowed
    obtain ⟨next, events, stepped⟩ := step_returns sound move
    exact ⟨⟨next, system.log ++ events⟩, by simp [program, System.exec, stepped]⟩
  · intro task pushed
    obtain ⟨final, leads, drained⟩ := drains ready
    obtain ⟨more, longer⟩ := log_grows leads
    have wide := leads.widen (fun _ _ allowed => allowed.1) rfl
    have all := (ready_leads ready leads).refines.accepts.accounts
    refine ⟨final, wide, ?_⟩
    have everything : pushedTasks final.log = deletedTasks final.log := by
      have order := all.order
      have deletion := all.deletion
      simp only [toServer, drained.1, drained.2, List.append_nil] at order deletion
      exact order.trans deletion
    rw [← everything, longer]
    simp only [pushedTasks, queueLog_append, SerialQueue.project_append, List.mem_append]
    exact .inl pushed

/-- A task hands over another while it runs, the dispatcher is stopped and
destroyed meanwhile, and a late task is discarded. -/
def sampleMoves : List (Move Nat Nat) :=
  List.flatten [[.enqueueTask 1 (some ⟨0, 7⟩)], List.replicate 4 (.caller 1),
    List.replicate 5 .eventLoop,
    [.enqueueTask 0 (some ⟨1, 8⟩)], List.replicate 4 (.caller 0),
    [.stop 2, .caller 2, .caller 2, .destroy],
    List.replicate 3 .destructor, [.enqueueTask 1 (some ⟨2, 7⟩)], List.replicate 3 (.caller 1),
    List.replicate 20 .eventLoop, [.destructor]]

theorem task_discipline_run :
    ∃ system, (program 0).replay (program 0).start sampleMoves = .ok system ∧
    TaskDiscipline 0 system :=
  ⟨_, rfl, task_discipline ⟨_, replayed (program 0) sampleMoves (by decide +kernel)⟩⟩

end EventDisp.EventDispatcher
