import Mathlib.Algebra.BigOperators.Group.Finset.Basic
import Mathlib.Algebra.GroupWithZero.Nat
import EventDisp.EventDispatcherDiscipline

/-! What `taskCount_` says: between critical sections on `queueMutex_`, how many
tasks with an id are in the queue. -/
namespace EventDisp.EventDispatcher

open Execution

variable {ρ τ : Type} [DecidableEq ρ] [DecidableEq τ] {runner : ρ}
variable {dispatcher next : EventDispatcher ρ τ} {move : Move ρ τ} {system after : System ρ τ}
  {events : List (Event ρ τ)}

/-- `pendingTasks`, where `taskCount_` has entries for these ids. -/
def pendingTasks (dispatcher : EventDispatcher ρ τ) (entries : List τ) : Nat :=
  entries.foldl (fun count id => (count + dispatcher.taskCount id) % 2 ^ 64) 0

/-- How many of the tasks have the id. -/
def tasksWith (id : τ) (tasks : List (UnitTask τ)) : Nat := (tasks.map UnitTask.id).count id

/-- The task a caller has pushed and not counted. -/
def CallerPc.uncounted : CallerPc τ → List (UnitTask τ)
  | .enqueueCount newTask => [newTask]
  | .idle | .enqueueLock _ | .enqueueTest _ | .enqueuePush _ | .enqueueDiscard _ | .stopLock
  | .stopWrite | .resumeLock | .resumeTest | .resumeWrite => []

/-- The task the loop has removed and still counts. -/
def LoopPc.stillCounted : LoopPc τ → List (UnitTask τ)
  | .popCount nextTask => [nextTask]
  | .lock | .waitTest | .waitTestDying | .wait | .returnTest | .returnTestEmpty | .front
  | .executeTest _ | .executing _ | .popLock _ | .pop _ | .delete _ | .returned => []

/-- The task that is pushed and not counted. -/
def uncounted (dispatcher : EventDispatcher ρ τ) : List (UnitTask τ) :=
  match dispatcher.queueMutex with
  | some (.caller caller) => (dispatcher.callers caller).uncounted
  | _ => []

/-- The counters count what is in the queue, but for the one task that whoever holds `queueMutex_`
is about to count or has stopped to. -/
structure Counts (dispatcher : EventDispatcher ρ τ) : Prop where
  fits : ∀ id, dispatcher.taskCount id < 2 ^ 64
  balance : ∀ id, (dispatcher.taskCount id + tasksWith id dispatcher.uncounted) % 2 ^ 64 =
    (tasksWith id dispatcher.taskQueue + tasksWith id dispatcher.eventLoop.stillCounted) % 2 ^ 64

omit [DecidableEq ρ] in
theorem Counts.start : Counts ({} : EventDispatcher ρ τ) :=
  ⟨fun _ => Nat.two_pow_pos 64, fun _ => rfl⟩

@[simp] theorem tasksWith_nil (id : τ) : tasksWith id [] = 0 := rfl

@[simp] theorem tasksWith_append (id : τ) (tasks more : List (UnitTask τ)) :
    tasksWith id (tasks ++ more) = tasksWith id tasks + tasksWith id more := by
  simp [tasksWith]

@[simp] theorem tasksWith_cons (id : τ) (task : UnitTask τ) (tasks : List (UnitTask τ)) :
    tasksWith id (task :: tasks) = tasksWith id tasks + if task.id = id then 1 else 0 := by
  simp [tasksWith, List.count_cons]

omit [DecidableEq ρ] in
/-- Steps that count nothing and move no task. -/
theorem Counts.keep (counts : Counts dispatcher) (counters : next.taskCount = dispatcher.taskCount)
    (queue : next.taskQueue = dispatcher.taskQueue) (pushed : next.uncounted = dispatcher.uncounted)
    (removed : next.eventLoop.stillCounted = dispatcher.eventLoop.stillCounted) : Counts next := by
  constructor
  · intro id
    rw [counters]
    exact counts.fits id
  · intro id
    rw [counters, queue, pushed, removed]
    exact counts.balance id

omit [DecidableEq τ] in
/-- A caller that goes on without counting. -/
theorem uncounted_goto {caller : ρ} {pc : CallerPc τ}
    (callers : next.callers = (dispatcher.goto caller pc).callers)
    (mutex : next.queueMutex = dispatcher.queueMutex)
    (same : pc.uncounted = (dispatcher.callers caller).uncounted) :
    next.uncounted = dispatcher.uncounted := by
  simp only [uncounted, callers, mutex, goto_callers]
  cases dispatcher.queueMutex with
  | none => rfl
  | some holder =>
    cases holder with
    | destructor | eventLoop => rfl
    | caller holder =>
      simp only
      split
      · rename_i own
        rw [own, same]
      · rfl

omit [DecidableEq ρ] [DecidableEq τ] in
/-- Who is inside the critical section holds the lock. -/
theorem Sound.holds {who : Holder ρ} (sound : Sound dispatcher)
    (inside : dispatcher.insideQueue who = true) :
    dispatcher.queueMutex = some who :=
  (sound.queueLock who).mp inside

theorem counts_caller {caller : ρ} (sound : Sound dispatcher) (counts : Counts dispatcher)
    (enabled : dispatcher.enabled runner (.caller caller) = true) :
    Counts (dispatcher.callerStep caller).1 := by
  have own (inside : (dispatcher.callers caller).locksQueue = true) :
    dispatcher.queueMutex = some (.caller caller) :=
    sound.holds inside
  simp only [EventDispatcher.enabled] at enabled
  cases pc : dispatcher.callers caller with
  | idle => simp [pc] at enabled
  | enqueueLock newTask =>
    simp only [pc, Option.isNone_iff_eq_none] at enabled
    simp only [callerStep, pc]
    exact counts.keep rfl rfl (by simp [uncounted, enabled, CallerPc.uncounted]) rfl
  | enqueueTest newTask =>
    simp only [callerStep, pc]
    split <;> exact counts.keep rfl rfl (uncounted_goto rfl rfl (by rw [pc]; rfl)) rfl
  | enqueuePush task =>
    have mutex := own (by rw [pc]; rfl)
    simp only [callerStep, pc]
    refine ⟨counts.fits, ?_⟩
    intro id
    have balance := counts.balance id
    have before : dispatcher.uncounted = [] := by simp [uncounted, mutex, pc, CallerPc.uncounted]
    have now : uncounted
      { dispatcher.goto caller (.enqueueCount task) with taskQueue := dispatcher.taskQueue ++ [task] } =
        [task] := by
      simp [uncounted, goto, mutex, CallerPc.uncounted]
    rw [before] at balance
    rw [now]
    simp only [goto, tasksWith_append, tasksWith_cons, tasksWith_nil] at balance ⊢
    omega
  | enqueueCount task =>
    have mutex := own (by rw [pc]; rfl)
    simp only [callerStep, pc]
    constructor
    · intro id
      simp only [Function.update_apply]
      split
      · exact Nat.mod_lt _ (Nat.two_pow_pos 64)
      · exact counts.fits id
    · intro id
      have balance := counts.balance id
      have before : dispatcher.uncounted = [task] := by
        simp [uncounted, mutex, pc, CallerPc.uncounted]
      rw [before] at balance
      simp only [uncounted, goto, Function.update_apply, tasksWith_cons, tasksWith_nil,
        eq_comm (a := task.id)] at balance ⊢
      split at balance <;> simp_all
  | enqueueDiscard newTask =>
    have mutex := own (by rw [pc]; rfl)
    simp only [callerStep, pc]
    exact counts.keep rfl rfl (by simp [uncounted, mutex, pc, CallerPc.uncounted]) rfl
  | stopLock | stopWrite | resumeLock | resumeWrite =>
    simp only [callerStep, pc]
    exact counts.keep rfl rfl (uncounted_goto rfl rfl (by rw [pc]; rfl)) rfl
  | resumeTest =>
    simp only [callerStep, pc]
    split <;> exact counts.keep rfl rfl (uncounted_goto rfl rfl (by rw [pc]; rfl)) rfl

omit [DecidableEq ρ] in
theorem counts_destructor (counts : Counts dispatcher) : Counts dispatcher.destructorStep.1 := by
  unfold destructorStep
  split <;> exact counts.keep rfl rfl rfl rfl

omit [DecidableEq ρ] [DecidableEq τ] in
/-- Nobody is about to count while the loop holds the lock. -/
theorem uncounted_loop (sound : Sound dispatcher)
    (inside : dispatcher.eventLoop.locksQueue = true) :
    dispatcher.uncounted = [] := by
  have mutex : dispatcher.queueMutex = some .eventLoop := sound.holds inside
  simp [uncounted, mutex]

theorem counts_eventLoop (sound : Sound dispatcher) (counts : Counts dispatcher)
    (enabled : dispatcher.enabled runner .eventLoop = true)
    (ran : dispatcher.eventLoopStep = .ok (next, events)) :
    Counts next := by
  have knows := sound.loopKnows
  simp only [LoopKnows] at knows
  simp only [EventDispatcher.enabled] at enabled
  cases pc : dispatcher.eventLoop with
  | returned => simp [pc] at enabled
  | lock | wait | popLock =>
    simp only [pc, Option.isNone_iff_eq_none] at enabled
    simp only [eventLoopStep, pc, Except.ok.injEq, Prod.mk.injEq] at ran
    obtain ⟨rfl, rfl⟩ := ran
    exact counts.keep rfl rfl (by simp [uncounted, enabled]) (by rw [pc]; rfl)
  | waitTest | returnTest =>
    simp only [eventLoopStep, pc, Except.ok.injEq, Prod.mk.injEq] at ran
    obtain ⟨rfl, rfl⟩ := ran
    refine counts.keep rfl rfl rfl ?_
    split <;> (rw [pc]; rfl)
  | waitTestDying | returnTestEmpty =>
    have quiet := uncounted_loop sound (by rw [pc]; rfl)
    simp only [eventLoopStep, pc] at ran
    split at ran <;> cases ran <;>
      exact counts.keep rfl rfl (by rw [quiet]; first | rfl | exact quiet) (by rw [pc]; rfl)
  | front =>
    have quiet := uncounted_loop sound (by rw [pc]; rfl)
    simp only [eventLoopStep, pc] at ran
    split at ran <;> cases ran
    exact counts.keep rfl rfl quiet.symm (by rw [pc]; rfl)
  | executeTest =>
    simp only [eventLoopStep, pc] at ran
    split at ran <;> cases ran <;> exact counts.keep rfl rfl rfl (by rw [pc]; rfl)
  | executing | delete =>
    simp only [eventLoopStep, pc, Except.ok.injEq, Prod.mk.injEq] at ran
    obtain ⟨rfl, rfl⟩ := ran
    exact counts.keep rfl rfl rfl (by rw [pc]; rfl)
  | pop nextTask =>
    simp only [pc] at knows
    simp only [eventLoopStep, pc] at ran
    split at ran <;> cases ran
    rename_i front rest shape
    rw [shape, List.head?_cons, Option.some.injEq] at knows
    subst knows
    refine ⟨counts.fits, ?_⟩
    intro id
    have balance := counts.balance id
    simp only [shape, pc, LoopPc.stillCounted, tasksWith_cons, tasksWith_nil] at balance ⊢
    simpa [uncounted, Nat.add_assoc] using balance
  | popCount nextTask =>
    have quiet := uncounted_loop sound (by rw [pc]; rfl)
    simp only [eventLoopStep, pc, Except.ok.injEq, Prod.mk.injEq] at ran
    obtain ⟨rfl, rfl⟩ := ran
    constructor
    · intro id
      simp only [Function.update_apply]
      split
      · exact Nat.mod_lt _ (Nat.two_pow_pos 64)
      · exact counts.fits id
    · intro id
      have balance := counts.balance id
      simp only [quiet, pc, LoopPc.stillCounted, tasksWith_cons, tasksWith_nil,
        eq_comm (a := nextTask.id)] at balance
      simp only [uncounted, LoopPc.stillCounted, Function.update_apply, tasksWith_nil]
      split at balance
      · rename_i own
        rw [if_pos own, own]
        rw [own] at balance
        omega
      · rename_i other
        rw [if_neg other]
        exact balance

theorem counts_step (sound : Sound dispatcher) (counts : Counts dispatcher)
    (enabled : dispatcher.enabled runner move = true)
    (ran : dispatcher.step move = .ok (next, events)) :
    Counts next := by
  cases move with
  | enqueueTask | stop | resume =>
    cases ran
    refine counts.keep rfl rfl (uncounted_goto rfl rfl ?_) rfl
    rw [mayCall_idle enabled]
    rfl
  | caller caller =>
    obtain rfl : next = (dispatcher.callerStep caller).1 := by rw [Except.ok.inj ran]
    exact counts_caller sound counts enabled
  | destroy =>
    cases ran
    exact counts.keep rfl rfl rfl rfl
  | destructor =>
    obtain rfl : next = dispatcher.destructorStep.1 := by rw [Except.ok.inj ran]
    exact counts_destructor counts
  | eventLoop => exact counts_eventLoop sound counts enabled ran

theorem reachable_counts (reached : Reachable (program runner) system) :
    Counts system.dispatcher := by
  refine (reached.invariant (fun system => Refines system ∧ Counts system.dispatcher)
    ⟨?_, .start⟩ ?_).2
  · have ready : Ready runner ((program runner).start : System ρ τ) := reachable_ready .start
    exact ready.refines
  · rintro system move after ⟨refines, counts⟩ allowed ran
    refine ⟨refines_step refines allowed ran, ?_⟩
    simp only [program, System.exec] at ran
    split at ran
    · rename_i stepped
      cases ran
      exact counts_step refines.sound counts allowed.1 stepped
    · cases ran

/-- The ids that have an entry in `taskCount_`: an entry is made when a task is counted for the
first time, and stays. -/
def Entries (log : List (Event ρ τ)) (entries : List τ) : Prop :=
  entries.Nodup ∧ ∀ id, id ∈ entries ↔ ∃ task ∈ SerialQueue.pushed (queueLog log), task.id = id

omit [DecidableEq ρ] [DecidableEq τ] in
/-- The counters of all ids together. -/
theorem pendingTasks_eq (entries : List τ) :
    dispatcher.pendingTasks entries = (entries.map dispatcher.taskCount).sum % 2 ^ 64 := by
  have loop (count : Nat) :
    entries.foldl (fun count id => (count + dispatcher.taskCount id) % 2 ^ 64) (count % 2 ^ 64) =
      (count + (entries.map dispatcher.taskCount).sum) % 2 ^ 64 := by
    induction entries generalizing count with
    | nil => rfl
    | cons id rest ih =>
      rw [List.foldl_cons, Nat.mod_add_mod, ih, List.map_cons, List.sum_cons, Nat.add_assoc]
  simpa [pendingTasks] using loop 0

omit [DecidableEq τ] in
private theorem sum_mod (numbers : τ → Nat) (entries : List τ) (modulus : Nat) :
    (entries.map fun id => numbers id % modulus).sum % modulus = (entries.map numbers).sum %
    modulus := by
  simpa [Function.comp_def] using (Multiset.sum_nat_mod ↑(entries.map numbers) modulus).symm

/-- All tasks are counted, each for its id. -/
theorem sum_tasksWith {entries : List τ} {tasks : List (UnitTask τ)} (distinct : entries.Nodup)
    (all : ∀ task ∈ tasks, task.id ∈ entries) :
    (entries.map (tasksWith · tasks)).sum = tasks.length := by
  have within : (tasks.map UnitTask.id).toFinset ⊆ entries.toFinset := by
    intro id member
    obtain ⟨task, inside, rfl⟩ := List.mem_map.mp (List.mem_toFinset.mp member)
    exact List.mem_toFinset.mpr (all task inside)
  have none_else : ∀ id ∈ entries.toFinset, id ∉ (tasks.map UnitTask.id).toFinset →
    tasksWith id tasks = 0 := by
    intro id _ absent
    exact List.count_eq_zero.mpr fun member => absent (List.mem_toFinset.mpr member)
  calc (entries.map (tasksWith · tasks)).sum
      = ∑ id ∈ entries.toFinset, tasksWith id tasks := (List.sum_toFinset _ distinct).symm
    _ = ∑ id ∈ (tasks.map UnitTask.id).toFinset, tasksWith id tasks :=
      (Finset.sum_subset within none_else).symm
    _ = (tasks.map UnitTask.id).length := List.sum_toFinset_count_eq_length _
    _ = tasks.length := List.length_map ..

/-- No more tasks have an id than there are. -/
theorem tasksWith_le (id : τ) (tasks : List (UnitTask τ)) : tasksWith id tasks ≤ tasks.length :=
  List.count_le_length.trans_eq (List.length_map ..)

/-- What `taskCount_` and `pendingTasks` say about the queue. A `size_t` counts up to `2 ^ 64`; the queue
and the task being deleted are fewer, as each has an address. -/
structure TaskAccounting (system : System ρ τ) : Prop where
  /-- Between critical sections the counters say how many tasks have an id. -/
  counted : (∀ who, system.dispatcher.insideQueue who = false) → ∀ id,
    system.dispatcher.taskCount id = tasksWith id system.dispatcher.taskQueue % 2 ^ 64
  pending : (∀ who, system.dispatcher.insideQueue who = false) → ∀ entries,
    Entries system.log entries →
    system.dispatcher.pendingTasks entries = system.dispatcher.taskQueue.length % 2 ^ 64
  /-- A decrement takes back what was counted for the task. -/
  decrement : ∀ nextTask, system.dispatcher.eventLoop = .popCount nextTask →
    system.dispatcher.taskCount nextTask.id =
    (tasksWith nextTask.id system.dispatcher.taskQueue + 1) % 2 ^ 64
  exact : system.dispatcher.taskQueue.length + 1 < 2 ^ 64 →
    ((∀ who, system.dispatcher.insideQueue who = false) →
      (∀ id, system.dispatcher.taskCount id = tasksWith id system.dispatcher.taskQueue) ∧
      ∀ entries, Entries system.log entries →
        system.dispatcher.pendingTasks entries = system.dispatcher.taskQueue.length) ∧
    ∀ nextTask, system.dispatcher.eventLoop = .popCount nextTask →
      0 < system.dispatcher.taskCount nextTask.id

/-- **Tasks are accounted for.** In every interleaving. -/
theorem task_accounting (reached : Reachable (program runner) system) : TaskAccounting system := by
  obtain ⟨fits, balance⟩ := reachable_counts reached
  have refines := (reachable_ready reached).refines
  have counted : (∀ who, system.dispatcher.insideQueue who = false) → ∀ id,
      system.dispatcher.taskCount id = tasksWith id system.dispatcher.taskQueue % 2 ^ 64 := by
    intro outside id
    have mutex := refines.sound.queueLock.free outside
    have loop : system.dispatcher.eventLoop.stillCounted = [] := by
      have left : system.dispatcher.eventLoop.locksQueue = false := outside .eventLoop
      cases pc : system.dispatcher.eventLoop <;> first | rfl | (rw [pc] at left; cases left)
    have all := balance id
    simp only [uncounted, mutex, loop, tasksWith_nil, Nat.add_zero] at all
    rwa [Nat.mod_eq_of_lt (fits id)] at all
  have pending : (∀ who, system.dispatcher.insideQueue who = false) → ∀ entries,
    Entries system.log entries →
      system.dispatcher.pendingTasks entries = system.dispatcher.taskQueue.length % 2 ^ 64 := by
    rintro outside entries ⟨distinct, made⟩
    have covered : ∀ task ∈ system.dispatcher.taskQueue, task.id ∈ entries := fun task queued =>
      (made task.id).mpr ⟨task, (refines.accepts.queued_not_removed queued).1, rfl⟩
    calc system.dispatcher.pendingTasks entries
        = (entries.map system.dispatcher.taskCount).sum % 2 ^ 64 := pendingTasks_eq entries
      _ = (entries.map fun id => tasksWith id system.dispatcher.taskQueue % 2 ^ 64).sum % 2 ^
        64 := by
        rw [List.map_congr_left fun id _ => counted outside id]
      _ = (entries.map fun id => tasksWith id system.dispatcher.taskQueue).sum % 2 ^ 64 :=
        sum_mod ..
      _ = system.dispatcher.taskQueue.length % 2 ^ 64 := by
        rw [sum_tasksWith distinct covered]
  have decrement : ∀ nextTask, system.dispatcher.eventLoop = .popCount nextTask →
      system.dispatcher.taskCount nextTask.id =
      (tasksWith nextTask.id system.dispatcher.taskQueue + 1) % 2 ^ 64 := by
    intro nextTask pc
    have quiet := uncounted_loop refines.sound (by rw [pc]; rfl)
    have all := balance nextTask.id
    simp only [quiet, pc, LoopPc.stillCounted, tasksWith_cons, tasksWith_nil, Nat.add_zero, if_true,
      Nat.zero_add] at all
    rwa [Nat.mod_eq_of_lt (fits _)] at all
  refine ⟨counted, pending, decrement, fun few => ⟨fun outside => ⟨?_, ?_⟩, ?_⟩⟩
  · intro id
    have bound := tasksWith_le id system.dispatcher.taskQueue
    rw [counted outside id, Nat.mod_eq_of_lt (by omega)]
  · intro entries made
    rw [pending outside entries made, Nat.mod_eq_of_lt (by omega)]
  · intro nextTask pc
    have bound := tasksWith_le nextTask.id system.dispatcher.taskQueue
    rw [decrement nextTask pc, Nat.mod_eq_of_lt (by omega)]
    omega

/-- While the first task runs, it and a thread bring one task each. -/
private def broughtMoves : List (Move Nat Nat) :=
  List.flatten [[.enqueueTask 1 (some ⟨0, 7⟩)], List.replicate 4 (.caller 1),
    List.replicate 5 .eventLoop,
    [.enqueueTask 0 (some ⟨1, 8⟩)], List.replicate 4 (.caller 0),
    [.enqueueTask 1 (some ⟨2, 7⟩)], List.replicate 4 (.caller 1)]

/-- Three tasks are in the queue, and two of them have the same id. -/
theorem task_accounting_run : ∃ system : System Nat Nat, Reachable (program 0) system ∧
    system.dispatcher.taskQueue = [⟨0, 7⟩, ⟨1, 8⟩, ⟨2, 7⟩] ∧
    (∀ who, system.dispatcher.insideQueue who = false) ∧
    system.dispatcher.taskCount 7 = 2 ∧ system.dispatcher.pendingTasks [7, 8] = 3 ∧
    TaskAccounting system := by
  obtain ⟨system, run, shown⟩ :=
    @Run.shown _ _ _ (program 0) _
      (fun system => (system.dispatcher.taskQueue, system.dispatcher.queueMutex,
        system.dispatcher.taskCount 7, system.dispatcher.pendingTasks [7, 8]))
      ([⟨0, 7⟩, ⟨1, 8⟩, ⟨2, 7⟩], none, 2, 3) broughtMoves (by decide +kernel) rfl
  obtain ⟨queued, free, twice, three⟩ := by simpa only [Prod.mk.injEq] using shown
  have reached : Reachable (program 0) system := ⟨_, run⟩
  refine ⟨system, reached, queued, ?_, twice, three, task_accounting reached⟩
  intro who
  rw [Bool.eq_false_iff]
  intro inside
  have held := ((reachable_ready reached).refines.sound.queueLock who).mp inside
  rw [free] at held
  cases held

end EventDisp.EventDispatcher
