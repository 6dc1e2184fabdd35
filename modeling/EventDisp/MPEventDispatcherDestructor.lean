import EventDisp.MPEventDispatcherBusy

/-! `~MPEventDispatcher`: it deletes one dispatcher after the other, while the event
loops of those that are left go on. Only the tasks they run enqueue meanwhile. -/
namespace EventDisp.MPEventDispatcher

open Execution

variable {τ : Type} [DecidableEq τ] {concurrentTaskCount : Nat} {rule : Rule τ}

/-- Where `~MPEventDispatcher` is. -/
inductive DeletePc (concurrentTaskCount : Nat) where
  | notCalled
  /-- Before `deleteObj` of a dispatcher, or at the end of the `for_each`. -/
  | delete (iter : Nat)
  /-- In `~EventDispatcher`. -/
  | inside (iter : Fin concurrentTaskCount)
  | returned
  deriving DecidableEq, Repr

/-- The dispatchers and their destructor. -/
structure Doomed (concurrentTaskCount : Nat) (τ : Type) where
  system : System concurrentTaskCount τ
  destructor : DeletePc concurrentTaskCount

namespace Doomed

/-- Who moves. -/
inductive Move (concurrentTaskCount : Nat) (τ : Type) where
  | dispatchers (move : MPEventDispatcher.Move concurrentTaskCount τ)
  | destroy
  | destructor

/-- The destruction of a dispatcher has begun. -/
def isDoomed (doomed : Doomed concurrentTaskCount τ) (destination : Fin concurrentTaskCount) :
    Bool :=
  (doomed.system.dispatcher.dispatchers destination).destructor ≠ .notCalled

/-- The destruction of a dispatcher has completed. -/
def isDeleted (doomed : Doomed concurrentTaskCount τ) (destination : Fin concurrentTaskCount) :
    Bool :=
  (doomed.system.dispatcher.dispatchers destination).destructor = .done

/-- The next step of a caller is one on a dispatcher that is no more. -/
def dangles (doomed : Doomed concurrentTaskCount τ) : MPEventDispatcher.Move concurrentTaskCount τ →
    Bool
  | .caller caller =>
    match doomed.system.dispatcher.callers caller with
    | .forward _ taskDestination =>
      if bound : taskDestination < concurrentTaskCount then doomed.isDeleted ⟨taskDestination,
      bound⟩ else false
    | .inside _ taskDestination => doomed.isDeleted taskDestination
    | .idle | .choose _ => false
  | .enqueueTask .. | .stop _ | .resume _ | .eventLoop _ => false

/-- Once the destructor is called, no thread enqueues. -/
def enabled (doomed : Doomed concurrentTaskCount τ) : Move concurrentTaskCount τ → Bool
  | .dispatchers move => doomed.system.dispatcher.enabled move &&
      (doomed.destructor = .notCalled || !Polled.external move)
  | .destroy => doomed.destructor = .notCalled
  | .destructor =>
    match doomed.destructor with
    | .notCalled | .returned => false
    | .delete _ => true
    | .inside iter => doomed.isDeleted iter ||
        (doomed.system.dispatcher.dispatchers iter).enabled (.task iter) .destructor

/-- One of the dispatchers is destroyed, or its destructor takes a step. -/
def destroyAt (doomed : Doomed concurrentTaskCount τ) (iter : Fin concurrentTaskCount)
    (move : EventDispatcher.Move (Caller concurrentTaskCount) τ) :
    Except Fault (Doomed concurrentTaskCount τ) :=
  match doomed.system.dispatcher.dispatch iter move with
  | .ok (dispatcher, events) => .ok ⟨⟨dispatcher, doomed.system.log ++ events⟩, .inside iter⟩
  | .error fault => .error fault

/-- The next step of `~MPEventDispatcher`. -/
def destructorStep (doomed : Doomed concurrentTaskCount τ) :
    Except Fault (Doomed concurrentTaskCount τ) :=
  match doomed.destructor with
  | .notCalled | .returned => .ok doomed
  | .delete iter =>
    if bound : iter < concurrentTaskCount then doomed.destroyAt ⟨iter, bound⟩ .destroy
    else .ok { doomed with destructor := .returned }
  | .inside iter =>
    if doomed.isDeleted iter then .ok { doomed with destructor := .delete (iter + 1) }
    else doomed.destroyAt iter .destructor

def exec (rule : Rule τ) (doomed : Doomed concurrentTaskCount τ) :
    Move concurrentTaskCount τ → Except Fault (Doomed concurrentTaskCount τ)
  | .dispatchers move =>
    if doomed.dangles move then .error .dangling
    else
      match doomed.system.exec rule move with
      | .ok system => .ok { doomed with system }
      | .error fault => .error fault
  | .destroy => .ok { doomed with destructor := .delete 0 }
  | .destructor => doomed.destructorStep

/-- No task is handed over twice. -/
def Fresh (doomed : Doomed concurrentTaskCount τ) : Move concurrentTaskCount τ → Prop
  | .dispatchers move => MPEventDispatcher.Fresh doomed.system.log move
  | .destroy | .destructor => True

instance (doomed : Doomed concurrentTaskCount τ) : DecidablePred (Fresh doomed)
  | .dispatchers move =>
    inferInstanceAs (Decidable (MPEventDispatcher.Fresh doomed.system.log move))
  | .destroy | .destructor => isTrue trivial

/-- Every interleaving of `~MPEventDispatcher` with the callers and the event loops. -/
def program (concurrentTaskCount : Nat) (rule : Rule τ) :
    Program (Doomed concurrentTaskCount τ) (Move concurrentTaskCount τ) Fault where
  start := ⟨(MPEventDispatcher.program concurrentTaskCount rule).start, .notCalled⟩
  allowed doomed move := doomed.enabled move = true ∧ Fresh doomed move
  exec := exec rule

instance (doomed : Doomed concurrentTaskCount τ) :
    DecidablePred ((program concurrentTaskCount rule).allowed doomed) :=
  fun move => inferInstanceAs (Decidable (doomed.enabled move = true ∧ Fresh doomed move))

end Doomed

/-- A caller is about to call `enqueueTask` of a dispatcher. -/
def Forwards (doomed : Doomed concurrentTaskCount τ) (move : Doomed.Move concurrentTaskCount τ)
    (caller : Caller concurrentTaskCount) (destination : Fin concurrentTaskCount) : Prop :=
  move = .dispatchers (.caller caller) ∧ ∃ newTask, doomed.system.dispatcher.callers caller =
    .forward newTask destination

/-- No task is forwarded to a dispatcher that is no more. -/
def ForwardsAlive (doomed : Doomed concurrentTaskCount τ)
    (move : Doomed.Move concurrentTaskCount τ) : Prop :=
  ∀ caller destination, Forwards doomed move caller destination →
    doomed.isDeleted destination = false

/-- A task forwards another one to a dispatcher before its own whose destruction has
begun. -/
def ForwardsBack (doomed : Doomed concurrentTaskCount τ)
    (move : Doomed.Move concurrentTaskCount τ) : Prop :=
  ∃ own destination, Forwards doomed move (.task own) destination ∧ destination < own ∧
    doomed.isDoomed destination = true

/-- How many dispatchers are no more. -/
def DeletePc.deleted : DeletePc concurrentTaskCount → Nat
  | .notCalled => 0
  | .delete iter => iter
  | .inside iter => iter
  | .returned => concurrentTaskCount

/-- How many destructions have begun. -/
def DeletePc.begun : DeletePc concurrentTaskCount → Nat
  | .notCalled => 0
  | .delete iter => iter
  | .inside iter => iter + 1
  | .returned => concurrentTaskCount

/-- The dispatchers are deleted in order. The event loop of one that is no more has
returned, and a task is in a call only while it is being run. -/
structure Orderly (doomed : Doomed concurrentTaskCount τ) : Prop where
  deleted : ∀ destination : Fin concurrentTaskCount, destination.val < doomed.destructor.deleted →
    doomed.isDeleted destination = true
  untouched : ∀ destination : Fin concurrentTaskCount, doomed.destructor.begun ≤ destination.val →
    doomed.isDoomed destination = false
  ended : ∀ destination, doomed.isDeleted destination = true →
    (doomed.system.seenAt destination).dispatcher.eventLoop = .returned
  running : Running doomed.system

variable {system after : System concurrentTaskCount τ} {doomed next : Doomed concurrentTaskCount τ}
variable {destination iter : Fin concurrentTaskCount}

omit [DecidableEq τ] in
private theorem eventLoopStep_destructor {ρ : Type} {dispatcher next : EventDispatcher ρ τ}
    [DecidableEq τ] {events : List (EventDispatcher.Event ρ τ)}
    (ran : dispatcher.eventLoopStep = .ok (next, events)) :
    next.destructor = dispatcher.destructor := by
  unfold EventDispatcher.eventLoopStep at ran
  repeat' split at ran
  all_goals cases ran <;> rfl

/-- The callers and the event loops destroy nothing, and no event loop goes on once it
has returned. -/
private theorem turn_frame (turn : Turn rule system after) (destination : Fin concurrentTaskCount) :
    (after.seenAt destination).dispatcher.destructor =
    (system.seenAt destination).dispatcher.destructor ∧
      ((system.seenAt destination).dispatcher.eventLoop = .returned →
        (after.seenAt destination).dispatcher.eventLoop = .returned) := by
  let Kept (other : Fin concurrentTaskCount)
    (seen : EventDispatcher.System (Caller concurrentTaskCount) τ) : Prop :=
    seen.dispatcher.destructor = (system.seenAt other).dispatcher.destructor ∧
      ((system.seenAt other).dispatcher.eventLoop = .returned →
        seen.dispatcher.eventLoop = .returned)
  cases turn with
  | nothing => exact ⟨rfl, id⟩
  | call caller newTask free =>
    rw [called_seenAt]
    exact ⟨rfl, id⟩
  | choose caller newTask pc =>
    rw [seenAt_chosen]
    exact ⟨rfl, id⟩
  | forward caller newTask taskDestination pc =>
    refine updated_all Kept ?_ (fun other _ => ⟨rfl, id⟩) destination
    exact ⟨rfl, id⟩
  | advance caller newTask taskDestination pc enabled =>
    obtain ⟨_, loop, destructor⟩ :=
      EventDispatcher.callerStep_frame (system.seenAt taskDestination).dispatcher caller
    exact updated_all Kept ⟨destructor, fun returned => loop.trans returned⟩
      (fun other _ => ⟨rfl, id⟩) destination
  | finish caller newTask taskDestination pc ended =>
    rw [returned_seenAt]
    exact ⟨rfl, id⟩
  | eventLoop own moved events enabled ended ran =>
    refine updated_all Kept ⟨eventLoopStep_destructor ran, fun returned => ?_⟩ (fun other _ =>
      ⟨rfl, id⟩) destination
    simp [EventDispatcher.enabled, returned] at enabled

omit [DecidableEq τ] in
/-- A dispatcher before one whose destruction has begun is no more. -/
private theorem Orderly.before (orderly : Orderly doomed)
    (begun : doomed.isDoomed destination = true) (earlier : iter < destination) :
    doomed.isDeleted iter = true := by
  apply orderly.deleted iter
  have within : destination.val < doomed.destructor.begun := by
    by_contra untouched
    rw [orderly.untouched destination (by omega)] at begun
    cases begun
  have close : doomed.destructor.begun ≤ doomed.destructor.deleted + 1 := by
    cases doomed.destructor <;> simp [DeletePc.begun, DeletePc.deleted]
  rw [Fin.lt_def] at earlier
  omega

omit [DecidableEq τ] in
/-- A dispatcher with a task in a call is still there. -/
private theorem Orderly.alive (orderly : Orderly doomed)
    (busy : doomed.system.dispatcher.callers (.task destination) ≠ .idle) :
    doomed.isDeleted destination = false := by
  rw [Bool.eq_false_iff]
  intro deleted
  have executing := orderly.running destination busy
  rw [orderly.ended destination deleted] at executing
  cases executing

/-- Who is about to be called by a task of a dispatcher that is no later is still there. -/
private theorem Orderly.forwards (orderly : Orderly doomed)
    {move : Doomed.Move concurrentTaskCount τ}
    (allowed : (Doomed.program concurrentTaskCount rule).allowed doomed move)
    (forward : ¬ ForwardsBack doomed move) :
    ForwardsAlive doomed move := by
  rintro caller destination ⟨rfl, newTask, pc⟩
  have doomed_of_deleted (deleted : doomed.isDeleted destination = true) :
    doomed.isDoomed destination = true := by
    simp only [Doomed.isDeleted, decide_eq_true_eq] at deleted
    simp [Doomed.isDoomed, deleted]
  rw [Bool.eq_false_iff]
  intro deleted
  have begun := doomed_of_deleted deleted
  cases caller with
  | thread number =>
    obtain ⟨enabled, _⟩ := allowed
    simp only [Doomed.enabled, Polled.external, Bool.and_eq_true, Bool.not_true, Bool.or_false,
      decide_eq_true_eq] at enabled
    have untouched := orderly.untouched destination (by rw [enabled.2]; exact Nat.zero_le _)
    rw [begun] at untouched
    cases untouched
  | task own =>
    have alive : doomed.isDeleted own = false := orderly.alive (by rw [pc]; simp)
    rcases Nat.lt_trichotomy destination.val own.val with earlier | same | later
    · exact forward ⟨own, destination, ⟨rfl, newTask, pc⟩, Fin.lt_def.mpr earlier, begun⟩
    · rw [← Fin.ext same, deleted] at alive
      cases alive
    · rw [orderly.before begun (Fin.lt_def.mpr later)] at alive
      cases alive

omit [DecidableEq τ] in
/-- One dispatcher is being destroyed. -/
private theorem Orderly.destroyed (orderly : Orderly doomed)
    (last : doomed.destructor.deleted = iter.val) (begun : doomed.destructor.begun ≤ iter.val + 1)
    {moved : EventDispatcher (Caller concurrentTaskCount) τ}
    {events : List (EventDispatcher.Event (Caller concurrentTaskCount) τ)}
    (loop : moved.eventLoop = (doomed.system.seenAt iter).dispatcher.eventLoop)
    (joined : moved.destructor = .done → moved.eventLoop = .returned) :
    Orderly ⟨doomed.system.updated iter moved events, .inside iter⟩ where
  deleted destination earlier := by
    have different : destination ≠ iter := fun same => Nat.lt_irrefl _ (same ▸ earlier)
    have before := orderly.deleted destination (by rw [last]; exact earlier)
    simpa [Doomed.isDeleted, System.updated, different] using before
  untouched destination later := by
    have different : destination ≠ iter := by
      rintro rfl
      exact absurd later (Nat.not_succ_le_self _)
    have before := orderly.untouched destination (begun.trans later)
    simpa [Doomed.isDoomed, System.updated, different] using before
  ended destination done := by
    have done' : ((doomed.system.updated iter moved events).seenAt
      destination).dispatcher.destructor = .done :=
      of_decide_eq_true done
    by_cases here : destination = iter
    · subst here
      rw [updated_seenAt_own] at done' ⊢
      exact joined done'
    · rw [updated_seenAt_other here] at done' ⊢
      exact orderly.ended destination (decide_eq_true done')
  running destination busy := by
    have executing := orderly.running destination busy
    by_cases here : destination = iter
    · subst here
      rw [updated_seenAt_own]
      exact loop.symm ▸ executing
    · rw [updated_seenAt_other here]
      exact executing

omit [DecidableEq τ] in
private theorem destroyAt_ok {move : EventDispatcher.Move (Caller concurrentTaskCount) τ}
    [DecidableEq τ] (ran : doomed.destroyAt iter move = .ok next) :
    ∃ moved events, (doomed.system.seenAt iter).dispatcher.step move = .ok (moved, events) ∧
      next = ⟨doomed.system.updated iter moved events, .inside iter⟩ := by
  unfold Doomed.destroyAt dispatch at ran
  split at ran
  · rename_i dispatcher shown stepped
    split at stepped
    · rename_i moved events own
      cases stepped
      cases ran
      exact ⟨moved, events, own, rfl⟩
    · cases stepped
  · cases ran

/-- The destruction completes once the event loop has returned. -/
private theorem joined_returned {ρ : Type} [DecidableEq ρ] {runner : ρ}
    {dispatcher : EventDispatcher ρ τ} (enabled : dispatcher.enabled runner .destructor = true)
    (done : dispatcher.destructorStep.1.destructor = .done) :
    dispatcher.eventLoop = .returned := by
  unfold EventDispatcher.destructorStep at done
  cases pc : dispatcher.destructor <;> simp_all [EventDispatcher.enabled]

private theorem destructor_orderly (orderly : Orderly doomed)
    (allowed : (Doomed.program concurrentTaskCount rule).allowed doomed .destructor)
    (ran : doomed.destructorStep = .ok next) : Orderly next := by
  obtain ⟨enabled, _⟩ := allowed
  unfold Doomed.destructorStep at ran
  cases pc : doomed.destructor with
  | notCalled | returned =>
    simp only [pc] at ran
    cases ran
    exact orderly
  | delete iter =>
    simp only [pc] at ran
    split at ran
    · rename_i bound
      obtain ⟨moved, events, stepped, rfl⟩ := destroyAt_ok ran
      cases stepped
      exact orderly.destroyed (by rw [pc]; rfl) (by rw [pc]; exact Nat.le_succ _) rfl nofun
    · cases ran
      exact { orderly with
        deleted :=
          fun destination _ => orderly.deleted destination
            (by rw [pc]; simp only [DeletePc.deleted]; omega)
        untouched := fun destination all => absurd destination.isLt (Nat.not_lt.mpr all) }
  | inside iter =>
    simp only [pc] at ran
    split at ran
    · rename_i deleted
      cases ran
      refine { orderly with
        deleted := fun destination earlier => ?_
        untouched :=
          fun destination later => orderly.untouched destination (by rw [pc]; exact later) }
      by_cases here : destination = iter
      · exact here ▸ deleted
      · apply orderly.deleted destination
        have different : destination.val ≠ iter.val := fun same => here (Fin.ext same)
        rw [pc]
        simp only [DeletePc.deleted] at earlier ⊢
        omega
    · rename_i alive
      obtain ⟨moved, events, stepped, rfl⟩ := destroyAt_ok ran
      simp only [EventDispatcher.step, Except.ok.injEq] at stepped
      have loop := (EventDispatcher.destructorStep_frame (doomed.system.seenAt iter).dispatcher).2
      rw [stepped] at loop
      apply orderly.destroyed (by rw [pc]; rfl) (by rw [pc]; rfl) loop
      intro done
      simp only [Doomed.enabled, pc, alive, Bool.false_or] at enabled
      rw [loop]
      exact joined_returned enabled (stepped ▸ done)

private theorem orderly_step {move : Doomed.Move concurrentTaskCount τ} (orderly : Orderly doomed)
    (allowed : (Doomed.program concurrentTaskCount rule).allowed doomed move)
    (ran : (Doomed.program concurrentTaskCount rule).exec doomed move = .ok next) :
    Orderly next := by
  cases move with
  | destroy =>
    cases ran
    obtain ⟨enabled, _⟩ := allowed
    simp only [Doomed.enabled, decide_eq_true_eq] at enabled
    exact { orderly with
      deleted := fun destination earlier => absurd earlier (Nat.not_lt_zero _)
      untouched :=
        fun destination _ => orderly.untouched destination (by rw [enabled]; exact Nat.zero_le _) }
  | destructor => exact destructor_orderly orderly allowed ran
  | dispatchers move =>
    simp only [Doomed.program, Doomed.exec] at ran
    split at ran
    · cases ran
    · split at ran
      · rename_i system executed
        cases ran
        obtain ⟨enabled, fresh⟩ := allowed
        simp only [Doomed.enabled, Bool.and_eq_true] at enabled
        have turn := exec_turn ⟨enabled.1, fresh⟩ executed
        have deleted (destination : Fin concurrentTaskCount) :
            Doomed.isDeleted { doomed with system } destination = doomed.isDeleted destination :=
          congrArg (fun pc => decide (pc = EventDispatcher.DestructorPc.done))
            (turn_frame turn destination).1
        have begun (destination : Fin concurrentTaskCount) :
            Doomed.isDoomed { doomed with system } destination = doomed.isDoomed destination :=
          congrArg (fun pc => decide (pc ≠ EventDispatcher.DestructorPc.notCalled))
            (turn_frame turn destination).1
        exact {
          deleted :=
            fun destination earlier =>
              (deleted destination).trans (orderly.deleted destination earlier)
          untouched :=
            fun destination later => (begun destination).trans (orderly.untouched destination later)
          ended := fun destination done =>
            (turn_frame turn destination).2
              (orderly.ended destination ((deleted destination).symm.trans done))
          running := running_turn orderly.running turn }
      · cases ran

/-- **`~MPEventDispatcher` deletes nobody who is about to be called, when no task hands
back.** As long as no task forwards another one to a dispatcher before its own whose
destruction has begun, nothing is forwarded to a dispatcher that is no more. -/
theorem forwards_alive {rule : Rule τ} {outcome : Except Fault (Doomed concurrentTaskCount τ)}
    {attempts : List (Doomed concurrentTaskCount τ × Doomed.Move concurrentTaskCount τ)}
    (run : Run (Doomed.program concurrentTaskCount rule) attempts outcome)
    (forward : ∀ attempt ∈ attempts, ¬ ForwardsBack attempt.1 attempt.2) :
    ∀ attempt ∈ attempts, ForwardsAlive attempt.1 attempt.2 := by
  intro attempt member
  obtain ⟨earlier, _, reached, allowed⟩ := run.attempted attempt member
  have orderly : Orderly attempt.1 := reached.invariant Orderly
    ⟨fun _ earlier => absurd earlier (Nat.not_lt_zero _), fun _ _ => rfl, fun _ => nofun,
      fun _ busy => absurd rfl busy⟩
    fun _ _ _ orderly allowed ran => orderly_step orderly allowed ran
  exact orderly.forwards allowed (forward attempt member)

/-- Dispatcher 1 executes a task while dispatcher 0 is deleted; the task then brings
another one to dispatcher 0. -/
def forwardedBackMoves : List (Doomed.Move 2 Nat) :=
  (bringMoves (.thread 0) ⟨0, 1⟩ secondOfTwo).map .dispatchers ++ .destroy :: List.replicate 4
    .destructor ++
    List.replicate 5 (.dispatchers (.eventLoop firstOfTwo)) ++
      [.destructor, .dispatchers (.enqueueTask (.task secondOfTwo) (some ⟨1, 0⟩)),
        .dispatchers (.caller (.task secondOfTwo))]

/-- The task is forwarded to the dispatcher that is no more. -/
theorem forwardedBack_dangles : ∃ attempts, Run (Doomed.program 2 (.hashing id)) attempts
    (.error .dangling) ∧
    ∃ attempt ∈ attempts, ¬ ForwardsAlive attempt.1 attempt.2 := by
  obtain ⟨doomed, ran, pc, deleted⟩ : ∃ doomed, (Doomed.program 2 (.hashing id)).replay
      (Doomed.program 2 (.hashing id)).start forwardedBackMoves = .ok doomed ∧
        doomed.system.dispatcher.callers (.task 1) = .forward ⟨1, 0⟩ 0 ∧
        doomed.isDeleted 0 = true :=
    ⟨_, rfl, rfl, rfl⟩
  have run := replayed (Doomed.program 2 (.hashing id)) forwardedBackMoves (by decide +kernel)
  rw [ran] at run
  have dangles : doomed.dangles (.caller (.task 1)) = true := by simp [Doomed.dangles, pc, deleted]
  have faults : (Doomed.program 2 (.hashing id)).exec doomed (.dispatchers (.caller (.task 1))) =
    .error .dangling := by
    simp [Doomed.program, Doomed.exec, dangles]
  have allowed : (Doomed.program 2 (.hashing id)).allowed doomed
    (.dispatchers (.caller (.task 1))) :=
    ⟨by simp [Doomed.enabled, MPEventDispatcher.enabled, pc, Polled.external], trivial⟩
  refine ⟨_, faults ▸ run.step allowed, (doomed, .dispatchers (.caller (.task 1))), by simp, ?_⟩
  intro alive
  have there := alive (.task 1) 0 ⟨rfl, ⟨1, 0⟩, pc⟩
  rw [deleted] at there
  cases there

/-- Whom the move calls, when a caller is about to call `enqueueTask` of a dispatcher. -/
def Doomed.callee (doomed : Doomed concurrentTaskCount τ) :
    Doomed.Move concurrentTaskCount τ → Option (Caller concurrentTaskCount × Nat)
  | .dispatchers (.caller caller) =>
    match doomed.system.dispatcher.callers caller with
    | .forward _ taskDestination => some (caller, taskDestination)
    | .idle | .choose _ | .inside .. => none
  | .dispatchers (.enqueueTask ..) | .dispatchers (.stop _) | .dispatchers (.resume _)
  | .dispatchers (.eventLoop _) | .destroy | .destructor => none

omit [DecidableEq τ] in
theorem forwards_iff {move : Doomed.Move concurrentTaskCount τ}
    {caller : Caller concurrentTaskCount} :
    Forwards doomed move caller destination ↔
      doomed.callee move = some (caller, destination.val) := by
  constructor
  · rintro ⟨rfl, newTask, pc⟩
    simp [Doomed.callee, pc]
  · intro called
    unfold Doomed.callee at called
    split at called
    · rename_i caller'
      split at called
      · rename_i newTask taskDestination pc
        cases called
        exact ⟨rfl, newTask, pc⟩
      · cases called
      · cases called
      · cases called
    all_goals cases called

instance (move : Doomed.Move concurrentTaskCount τ) (caller : Caller concurrentTaskCount)
    (destination : Fin concurrentTaskCount) :
    Decidable (Forwards doomed move caller destination) :=
  decidable_of_iff _ forwards_iff.symm

/-- Dispatcher 0 is deleted while dispatcher 1 executes a task, which then brings another one to
dispatcher 1. That one is executed too, until dispatcher 1 is destroyed in its turn. -/
private def forwardedOnMoves : List (Doomed.Move 2 Nat) :=
  (bringMoves (.thread 0) ⟨0, 1⟩ secondOfTwo).map .dispatchers ++ .destroy :: List.replicate 4
    .destructor ++
    List.replicate 5 (.dispatchers (.eventLoop firstOfTwo)) ++ .destructor ::
      .dispatchers (.enqueueTask (.task secondOfTwo) (some ⟨1, 1⟩)) :: List.replicate 7
        (.dispatchers (.caller (.task secondOfTwo))) ++
      List.replicate 10 (.dispatchers (.eventLoop secondOfTwo)) ++ List.replicate 5 .destructor ++
    List.replicate 10 (.dispatchers (.eventLoop secondOfTwo)) ++ List.replicate 3 .destructor

/-- Dispatcher 1 is called by its own task after dispatcher 0 is no more. -/
theorem forwards_alive_run : ∃ attempts doomed, Run (Doomed.program 2 (.hashing id)) attempts
    (.ok doomed) ∧ doomed.destructor = .returned ∧
    (∃ attempt ∈ attempts, attempt.1.isDeleted firstOfTwo = true ∧
      Forwards attempt.1 attempt.2 (.task secondOfTwo) secondOfTwo) ∧
    ∀ attempt ∈ attempts, ForwardsAlive attempt.1 attempt.2 := by
  obtain ⟨doomed, run, returned⟩ :=
    @Run.shown _ _ _ (Doomed.program 2 (.hashing id)) _ Doomed.destructor .returned
      forwardedOnMoves (by decide +kernel) rfl
  have to_second : ∀ attempt ∈ (Doomed.program 2 (.hashing id)).trace
      (Doomed.program 2 (.hashing id)).start forwardedOnMoves,
      (attempt.1.callee attempt.2).all (fun called => called.2 = 1) = true := by decide +kernel
  refine ⟨_, doomed, run, returned, by decide +kernel, forwards_alive run ?_⟩
  rintro attempt member ⟨own, destination, forwards, earlier, _⟩
  have second := to_second attempt member
  rw [forwards_iff.mp forwards] at second
  simp only [Option.all_some, decide_eq_true_eq] at second
  have within := own.isLt
  rw [Fin.lt_def, second] at earlier
  omega

end EventDisp.MPEventDispatcher
