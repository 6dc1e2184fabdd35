import EventDisp.MPEventDispatcherRouting

/-! `MPEventDispatcher::busy`: it asks one dispatcher after the other whether its
queue is empty, while the event loops go on. Nothing outside enqueues meanwhile. -/
namespace EventDisp.MPEventDispatcher

open Execution

variable {τ : Type} [DecidableEq τ] {concurrentTaskCount : Nat} {rule : Rule τ}

/-- Where the caller of `busy` is. -/
inductive BusyPc where
  | notCalled
  /-- Before `(*iter)->busy()`, or at the end of the loop. -/
  | ask (iter : Nat)
  | returned (answer : Bool)
  deriving DecidableEq, Repr

def BusyPc.asking : BusyPc → Bool
  | .ask _ => true
  | .notCalled | .returned _ => false

/-- The dispatchers and the caller of `busy`. -/
structure Polled (concurrentTaskCount : Nat) (τ : Type) where
  system : System concurrentTaskCount τ
  busy : BusyPc

namespace Polled

/-- Who moves. -/
inductive Move (concurrentTaskCount : Nat) (τ : Type) where
  | dispatchers (move : MPEventDispatcher.Move concurrentTaskCount τ)
  | call
  | busy

/-- The move is one of a thread that enqueues. -/
def external : MPEventDispatcher.Move concurrentTaskCount τ → Bool
  | .enqueueTask (.thread _) _ | .caller (.thread _) => true
  | .enqueueTask (.task _) _ | .caller (.task _) | .stop _ | .resume _ | .eventLoop _ => false

/-- While `busy` is executed no thread enqueues. A dispatcher is asked under its
`queueMutex_`. -/
def Allowed (rule : Rule τ) (polled : Polled concurrentTaskCount τ) : Move concurrentTaskCount τ →
    Prop
  | .dispatchers move => (program concurrentTaskCount rule).allowed polled.system move ∧
      (polled.busy.asking && external move) = false
  | .call => polled.busy.asking = false
  | .busy =>
    match polled.busy with
    | .ask iter =>
      ∀ bound : iter < concurrentTaskCount,
        (polled.system.dispatcher.dispatchers ⟨iter, bound⟩).queueMutex = none
    | .notCalled | .returned _ => False

instance (polled : Polled concurrentTaskCount τ) : DecidablePred (Polled.Allowed rule polled)
  | .dispatchers move =>
    inferInstanceAs (Decidable ((program concurrentTaskCount rule).allowed polled.system move ∧
      (polled.busy.asking && external move) = false))
  | .call => inferInstanceAs (Decidable (polled.busy.asking = false))
  | .busy =>
    match shape : polled.busy with
    | .ask iter => decidable_of_iff (∀ bound : iter < concurrentTaskCount,
        (polled.system.dispatcher.dispatchers ⟨iter, bound⟩).queueMutex = none)
        (by simp [Polled.Allowed, shape])
    | .notCalled => isFalse (by simp [Polled.Allowed, shape])
    | .returned _ => isFalse (by simp [Polled.Allowed, shape])

/-- The next step of `busy`. -/
def busyStep (polled : Polled concurrentTaskCount τ) : BusyPc :=
  match polled.busy with
  | .ask iter =>
    if bound : iter < concurrentTaskCount then
      if (polled.system.dispatcher.dispatchers ⟨iter, bound⟩).taskQueue.isEmpty then .ask
        (iter + 1) else .returned true
    else .returned false
  | .notCalled => .notCalled
  | .returned answer => .returned answer

def exec (rule : Rule τ) (polled : Polled concurrentTaskCount τ) :
    Move concurrentTaskCount τ → Except Fault (Polled concurrentTaskCount τ)
  | .dispatchers move => do
    let system ← polled.system.exec rule move
    return { polled with system }
  | .call => .ok { polled with busy := .ask 0 }
  | .busy => .ok { polled with busy := polled.busyStep }

/-- Every interleaving of calls of `busy` with the callers and the event loops. -/
def program (concurrentTaskCount : Nat) (rule : Rule τ) :
    Program (Polled concurrentTaskCount τ) (Move concurrentTaskCount τ) Fault where
  start := ⟨(MPEventDispatcher.program concurrentTaskCount rule).start, .notCalled⟩
  allowed := Polled.Allowed rule
  exec := exec rule

instance (polled : Polled concurrentTaskCount τ) :
    DecidablePred ((program concurrentTaskCount rule).allowed polled) :=
  inferInstanceAs (DecidablePred (Polled.Allowed rule polled))

end Polled

/-- No task is queued or being executed. -/
def Quiet (system : System concurrentTaskCount τ) : Prop :=
  ∀ destination, (system.dispatcher.dispatchers destination).taskQueue = [] ∧
    (system.dispatcher.dispatchers destination).eventLoop.isExecuting = false

/-- When `busy` answers that there are no tasks, there are none. -/
def Truthful (polled : Polled concurrentTaskCount τ) (move : Polled.Move concurrentTaskCount τ) :
    Prop :=
  move = .busy → polled.busyStep = .returned false → Quiet polled.system

/-- A task pushes another one on a dispatcher that has already been asked. -/
def HandsBack (polled : Polled concurrentTaskCount τ) (move : Polled.Move concurrentTaskCount τ) :
    Prop :=
  ∃ iter own newTask destination task, polled.busy = .ask iter ∧
    move = .dispatchers (.caller (.task own)) ∧
    polled.system.dispatcher.callers (.task own) = .inside newTask destination ∧
    (polled.system.dispatcher.dispatchers destination).callers (.task own) = .enqueuePush task ∧
    destination.val < iter

variable {system after : System concurrentTaskCount τ} {destination : Fin concurrentTaskCount}

omit [DecidableEq τ] in
/-- A caller makes the queue longer only where it pushes. -/
private theorem callerStep_pushes {ρ : Type} [DecidableEq ρ] {dispatcher : EventDispatcher ρ τ}
    [DecidableEq τ] {caller : ρ}
    (changed : (dispatcher.callerStep caller).1.taskQueue ≠ dispatcher.taskQueue) :
    ∃ task, dispatcher.callers caller = .enqueuePush task := by
  unfold EventDispatcher.callerStep at changed
  cases pc : dispatcher.callers caller with
  | enqueuePush task => exact ⟨task, rfl⟩
  | enqueueTest newTask =>
    simp only [pc] at changed
    split at changed <;> exact absurd rfl changed
  | resumeTest =>
    simp only [pc] at changed
    split at changed <;> exact absurd rfl changed
  | idle | enqueueLock | enqueueCount | enqueueDiscard | stopLock | stopWrite | resumeLock
  | resumeWrite =>
    simp only [pc] at changed
    exact absurd rfl changed

/-- The event loop pushes nothing. -/
private theorem eventLoopStep_empty {ρ : Type} {dispatcher next : EventDispatcher ρ τ}
    {events : List (EventDispatcher.Event ρ τ)}
    (ran : dispatcher.eventLoopStep = .ok (next, events)) (empty : dispatcher.taskQueue = []) :
    next.taskQueue = [] := by
  unfold EventDispatcher.eventLoopStep at ran
  repeat' split at ran
  all_goals cases ran <;> simp_all

/-- One dispatcher makes a move of its own. -/
private theorem dispatch_pushes
    {moved : MPEventDispatcher concurrentTaskCount τ × List (Event concurrentTaskCount τ)}
    {dispatcher : MPEventDispatcher concurrentTaskCount τ} {own : Fin concurrentTaskCount}
    {move : EventDispatcher.Move (Caller concurrentTaskCount) τ}
    (ran : dispatcher.dispatch own move = .ok moved)
    (filled : (moved.1.dispatchers destination).taskQueue ≠
      (dispatcher.dispatchers destination).taskQueue) :
    own = destination ∧ ∃ next events, (dispatcher.dispatchers destination).step move = .ok (next,
    events) ∧
      (moved.1.dispatchers destination) = next := by
  unfold dispatch at ran
  split at ran
  · rename_i next events stepped
    cases ran
    by_cases here : destination = own
    · subst here
      exact ⟨rfl, next, events, stepped, Function.update_self ..⟩
    · refine absurd ?_ filled
      simp [here]
  · cases ran

/-- Only a push makes an empty queue longer. -/
private theorem exec_pushes {move : Move concurrentTaskCount τ}
    (ran : (program concurrentTaskCount rule).exec system move = .ok after)
    (empty : (system.dispatcher.dispatchers destination).taskQueue = [])
    (filled : (after.dispatcher.dispatchers destination).taskQueue ≠ []) :
    ∃ caller newTask task, move = .caller caller ∧ system.dispatcher.callers caller =
    .inside newTask destination ∧
      (system.dispatcher.dispatchers destination).callers caller = .enqueuePush task := by
  rw [← empty] at filled
  simp only [program, System.exec] at ran
  split at ran
  · rename_i dispatcher events stepped
    cases ran
    cases move with
    | enqueueTask | stop | resume =>
      cases stepped
      exact absurd rfl filled
    | eventLoop own =>
      obtain ⟨rfl, next, _, looped, same⟩ := dispatch_pushes stepped filled
      rw [same] at filled
      exact absurd ((eventLoopStep_empty looped empty).trans empty.symm) filled
    | caller caller =>
      simp only [step, callerStep] at stepped
      cases pc : system.dispatcher.callers caller with
      | idle =>
        simp only [pc, Except.ok.injEq, Prod.mk.injEq] at stepped
        exact absurd (by rw [← stepped.1]) filled
      | choose newTask =>
        cases newTask with
        | none => simp [pc] at stepped
        | some newTask =>
          simp only [pc, Except.ok.injEq, Prod.mk.injEq] at stepped
          refine absurd ?_ filled
          rw [← stepped.1]
          unfold chooseDestination
          split
          · rfl
          · split <;> rfl
      | forward newTask taskDestination =>
        simp only [pc] at stepped
        split at stepped
        · obtain ⟨_, next, _, called, same⟩ := dispatch_pushes stepped filled
          rw [same] at filled
          cases called
          exact absurd rfl filled
        · cases stepped
      | inside newTask taskDestination =>
        simp only [pc] at stepped
        split at stepped
        · simp only [Except.ok.injEq, Prod.mk.injEq] at stepped
          exact absurd (by rw [← stepped.1]; rfl) filled
        · obtain ⟨rfl, next, _, moved, same⟩ := dispatch_pushes stepped filled
          rw [same] at filled
          have next' : ((system.dispatcher.dispatchers taskDestination).callerStep caller).1 =
            next :=
            congrArg Prod.fst (Except.ok.inj moved)
          rw [← next'] at filled
          obtain ⟨task, pushing⟩ := callerStep_pushes filled
          exact ⟨caller, newTask, task, rfl, pc, pushing⟩
  · cases ran

/-- The dispatchers that were asked are still empty. -/
private def Asked (rule : Rule τ) (polled : Polled concurrentTaskCount τ) : Prop :=
  Sequenced rule polled.system ∧ ∀ iter, polled.busy = .ask iter → ∀ destination,
    destination.val < iter →
    (polled.system.dispatcher.dispatchers destination).taskQueue = []

/-- What is executed is on the queue. -/
private theorem queued_of_executing (sequenced : Sequenced rule system)
    (executing : (system.dispatcher.dispatchers destination).eventLoop.isExecuting = true) :
    (system.dispatcher.dispatchers destination).taskQueue ≠ [] := by
  have knows :=
    (EventDispatcher.reachable_ready (sequenced.reached destination)).refines.sound.loopKnows
  intro empty
  cases pc : (system.dispatcher.dispatchers destination).eventLoop <;>
    simp_all [EventDispatcher.LoopKnows, EventDispatcher.LoopPc.isExecuting, System.seenAt]

private theorem asked_step {polled next : Polled concurrentTaskCount τ}
    {move : Polled.Move concurrentTaskCount τ} (asked : Asked rule polled)
    (allowed : (Polled.program concurrentTaskCount rule).allowed polled move)
    (forward : ¬ HandsBack polled move)
    (ran : (Polled.program concurrentTaskCount rule).exec polled move = .ok next) :
    Asked rule next := by
  obtain ⟨sequenced, empty⟩ := asked
  cases move with
  | call =>
    cases ran
    refine ⟨sequenced, ?_⟩
    rintro iter ⟨⟩ destination before
    exact absurd before (Nat.not_lt_zero _)
  | busy =>
    cases ran
    refine ⟨sequenced, ?_⟩
    intro iter here destination before
    simp only [Polled.busyStep] at here
    cases busy : polled.busy with
    | ask last =>
      simp only [busy] at here
      split at here
      · split at here
        · rename_i bound quiet
          cases here
          by_cases earlier : destination.val < last
          · exact empty last busy destination earlier
          · obtain rfl : destination = ⟨last, bound⟩ := Fin.ext (by dsimp only; omega)
            exact List.isEmpty_iff.mp quiet
        · cases here
      · cases here
    | notCalled | returned => simp [busy] at here
  | dispatchers move =>
    simp only [Polled.program, Polled.exec, bind, Except.bind] at ran
    split at ran
    · cases ran
    · rename_i system' executed
      cases ran
      obtain ⟨permitted, inside⟩ := allowed
      refine ⟨sequenced_turn sequenced (exec_turn permitted executed), ?_⟩
      intro iter here destination before
      by_contra filled
      obtain ⟨caller, newTask, task, rfl, sent, pushing⟩ :=
        exec_pushes executed (empty iter here destination before) filled
      dsimp only at here
      cases caller with
      | thread number => simp [here, BusyPc.asking, Polled.external] at inside
      | task own =>
        exact forward ⟨iter, own, newTask, destination, task, here, rfl, sent, pushing, before⟩

/-- **`busy` tells the truth when no task hands back.** As long as no task pushes
another one on a dispatcher that has already been asked, nothing is queued or
executed anywhere when `busy` answers so. -/
theorem busy_truthful {rule : Rule τ}
    {attempts : List (Polled concurrentTaskCount τ × Polled.Move concurrentTaskCount τ)}
    {outcome : Except Fault (Polled concurrentTaskCount τ)}
    (run : Run (Polled.program concurrentTaskCount rule) attempts outcome)
    (forward : ∀ attempt ∈ attempts, ¬ HandsBack attempt.1 attempt.2) :
    ∀ attempt ∈ attempts, Truthful attempt.1 attempt.2 := by
  rintro ⟨polled, move⟩ member rfl answered destination
  obtain ⟨earlier, before, reached, allowed⟩ := run.attempted _ member
  obtain ⟨sequenced, empty⟩ :=
    reached.guarded (Asked rule) (fun polled move => ¬ HandsBack polled move)
    ⟨.start rule destination.pos, nofun⟩ (fun _ _ _ asked allowed forward ran =>
      asked_step asked allowed forward ran)
    fun attempt inside => forward attempt (before.mem inside)
  simp only [Polled.busyStep] at answered
  cases busy : polled.busy with
  | ask iter =>
    simp only [busy] at answered
    split at answered
    · split at answered <;> cases answered
    · rename_i ended
      have none := empty iter busy destination (by omega)
      exact ⟨none, by
        rw [Bool.eq_false_iff]
        exact fun executing => queued_of_executing sequenced executing none⟩
  | notCalled => simp [busy] at answered
  | returned answer => simp [Polled.program, Polled.Allowed, busy] at allowed

/-- A task is brought to one of the dispatchers; one of the event loops takes five
steps. -/
def bringMoves (caller : Caller concurrentTaskCount) (newTask : UnitTask Nat)
    (own : Fin concurrentTaskCount) :
    List (Move concurrentTaskCount Nat) :=
  .enqueueTask caller (some newTask) :: List.replicate 7 (.caller caller) ++ List.replicate 5
    (.eventLoop own)

/-- Dispatcher 0 is asked, the task that dispatcher 1 executes brings another one to
dispatcher 0 and ends, and dispatcher 1 is asked. -/
def handedBackMoves : List (Polled.Move 2 Nat) :=
  (bringMoves (.thread 0) ⟨0, 1⟩ secondOfTwo).map .dispatchers ++ [.call, .busy] ++
    (bringMoves (.task secondOfTwo) ⟨1, 0⟩ secondOfTwo).map .dispatchers ++ [.busy]

private theorem handedBack_run : ∃ polled, Run (Polled.program 2 (.hashing id))
    ((Polled.program 2 (.hashing id)).trace (Polled.program 2 (.hashing id)).start handedBackMoves)
    (.ok polled) ∧
    polled.busy = .ask 2 ∧ (polled.system.dispatcher.dispatchers 0).taskQueue = [⟨1, 0⟩] := by
  obtain ⟨polled, ran, shown⟩ : ∃ polled, (Polled.program 2 (.hashing id)).replay
      (Polled.program 2 (.hashing id)).start handedBackMoves = .ok polled ∧ polled.busy = .ask 2 ∧
        (polled.system.dispatcher.dispatchers 0).taskQueue = [⟨1, 0⟩] := ⟨_, rfl, rfl, rfl⟩
  have run := replayed (Polled.program 2 (.hashing id)) handedBackMoves (by decide +kernel)
  rw [ran] at run
  exact ⟨polled, run, shown⟩

/-- `busy` answers that there are no tasks while one waits at dispatcher 0. -/
theorem handedBack_untruthful : ∃ attempts polled, Run (Polled.program 2 (.hashing id)) attempts
    (.ok polled) ∧
    polled.busy = .returned false ∧ (polled.system.dispatcher.dispatchers 0).taskQueue = [⟨1, 0⟩] ∧
    ∃ attempt ∈ attempts, ¬ Truthful attempt.1 attempt.2 := by
  obtain ⟨polled, run, asked, queued⟩ := handedBack_run
  have answers : polled.busyStep = .returned false := by simp [Polled.busyStep, asked]
  have allowed : (Polled.program 2 (.hashing id)).allowed polled .busy := by
    simp only [Polled.program, Polled.Allowed, asked]
    intro bound
    exact absurd bound (by decide)
  refine ⟨_, _, run.step allowed, answers, queued, (polled, .busy), by simp, ?_⟩
  intro truthful
  have quiet := (truthful rfl answers 0).1
  rw [queued] at quiet
  cases quiet

/-- Where a task is about to push another one. -/
def Polled.pushes (polled : Polled concurrentTaskCount τ) :
    Polled.Move concurrentTaskCount τ → Option (Fin concurrentTaskCount)
  | .dispatchers (.caller (.task own)) =>
    match polled.system.dispatcher.callers (.task own) with
    | .inside _ destination =>
      match (polled.system.dispatcher.dispatchers destination).callers (.task own) with
      | .enqueuePush _ => some destination
      | _ => none
    | .idle | .choose _ | .forward .. => none
  | .dispatchers (.caller (.thread _)) | .dispatchers (.enqueueTask ..) | .dispatchers (.stop _)
  | .dispatchers (.resume _) | .dispatchers (.eventLoop _) | .call | .busy => none

omit [DecidableEq τ] in
/-- Who hands back pushes on a dispatcher that has been asked. -/
theorem HandsBack.pushes {polled : Polled concurrentTaskCount τ}
    {move : Polled.Move concurrentTaskCount τ} (back : HandsBack polled move) :
    ∃ iter destination, polled.busy = .ask iter ∧ polled.pushes move = some destination ∧
      destination.val < iter := by
  obtain ⟨iter, own, newTask, destination, task, asking, rfl, pc, pushing, earlier⟩ := back
  exact ⟨iter, destination, asking, by simp [Polled.pushes, pc, pushing], earlier⟩

def secondOfThree : Fin 3 := ⟨1, Nat.lt_add_of_pos_left Nat.two_pos⟩

def lastOfThree : Fin 3 := ⟨2, Nat.lt_succ_self 2⟩

/-- Dispatcher 0 is asked, the task that dispatcher 1 executes brings another one to
dispatcher 2 and ends, and dispatcher 1 is asked; dispatcher 2 executes what was brought before
it is asked. -/
private def handedOnMoves : List (Polled.Move 3 Nat) :=
  (bringMoves (.thread 0) ⟨0, 1⟩ secondOfThree).map .dispatchers ++ [.call, .busy] ++
    (bringMoves (.task secondOfThree) ⟨1, 2⟩ secondOfThree).map .dispatchers ++ [.busy] ++
    List.replicate 10 (.dispatchers (.eventLoop lastOfThree)) ++ [.busy, .busy]

/-- A task is pushed on dispatcher 2 after dispatcher 0 has been asked. -/
theorem busy_truthful_run : ∃ attempts polled, Run (Polled.program 3 (.hashing id)) attempts
    (.ok polled) ∧ polled.busy = .returned false ∧
    (∃ attempt ∈ attempts, attempt.1.busy = .ask 1 ∧
      attempt.1.pushes attempt.2 = some lastOfThree) ∧
    ∀ attempt ∈ attempts, Truthful attempt.1 attempt.2 := by
  obtain ⟨polled, run, answered⟩ :=
    @Run.shown _ _ _ (Polled.program 3 (.hashing id)) _ Polled.busy (.returned false)
      handedOnMoves (by decide +kernel) rfl
  have to_last : ∀ attempt ∈ (Polled.program 3 (.hashing id)).trace
      (Polled.program 3 (.hashing id)).start handedOnMoves,
      (attempt.1.pushes attempt.2).isSome = true →
        attempt.1.busy = .ask 1 ∧ attempt.1.pushes attempt.2 = some lastOfThree := by
    decide +kernel
  refine ⟨_, polled, run, answered, by decide +kernel, busy_truthful run ?_⟩
  intro attempt member back
  obtain ⟨iter, destination, asking, pushed, earlier⟩ := back.pushes
  obtain ⟨once, last⟩ := to_last attempt member (by rw [pushed]; rfl)
  cases asking.symm.trans once
  cases pushed.symm.trans last
  exact absurd earlier (by decide)

end EventDisp.MPEventDispatcher
