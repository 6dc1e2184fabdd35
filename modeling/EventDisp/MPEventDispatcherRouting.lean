import EventDisp.MPEventDispatcherSteps
import EventDisp.General.History

/-! Where a task is between the call that brings it and the dispatcher that runs
it: an invariant of all dispatchers and their callers. -/
namespace EventDisp

namespace EventDispatcher

variable {ρ τ : Type} [DecidableEq ρ] [DecidableEq τ]

/-- Nobody has stopped the dispatcher or begun to destroy it. -/
structure Unstopped (dispatcher : EventDispatcher ρ τ) : Prop where
  accepting : dispatcher.isStopped = false
  living : dispatcher.isDying = false
  kept : dispatcher.destructor = .notCalled

/-- The caller is handing the task over, or has pushed it. -/
def Handing (system : System ρ τ) (caller : ρ) (task : UnitTask τ) : Prop :=
  match system.dispatcher.callers caller with
  | .idle => task ∈ pushedTasks system.log
  | .enqueueLock newTask | .enqueueTest newTask => newTask = some task
  | .enqueuePush newTask => newTask = task
  | .enqueueCount newTask => newTask = task ∧ task ∈ pushedTasks system.log
  | .enqueueDiscard _ | .stopLock | .stopWrite | .resumeLock | .resumeTest | .resumeWrite => False

omit [DecidableEq ρ] [DecidableEq τ] in
/-- Pushed stays pushed. -/
theorem Handing.keep {system after : System ρ τ} {caller : ρ} {task : UnitTask τ}
    (handing : Handing system caller task)
    (same : after.dispatcher.callers caller = system.dispatcher.callers caller)
    (grows : system.log <+: after.log) : Handing after caller task := by
  have stays (pushed : task ∈ pushedTasks system.log) : task ∈ pushedTasks after.log := by
    obtain ⟨more, shape⟩ := grows
    simp [← shape, pushed]
  unfold Handing at *
  rw [same]
  split <;> simp_all

/-- A caller that hands a task over to a dispatcher nobody has stopped pushes it. -/
theorem handing_step {system : System ρ τ} {caller : ρ} {task : UnitTask τ}
    (unstopped : Unstopped system.dispatcher) (handing : Handing system caller task)
    (busy : system.dispatcher.callers caller ≠ .idle) :
    Unstopped (system.dispatcher.callerStep caller).1 ∧
      Handing ⟨(system.dispatcher.callerStep caller).1,
      system.log ++ (system.dispatcher.callerStep caller).2⟩
        caller task ∧
      handed (system.dispatcher.callerStep caller).2 = [] ∧
      ∀ other ∈ pushedTasks (system.dispatcher.callerStep caller).2, other = task := by
  obtain ⟨accepting, living, kept⟩ := unstopped
  unfold Handing at *
  cases pc : system.dispatcher.callers caller with
  | idle => exact absurd pc busy
  | enqueueLock newTask =>
    simp only [pc] at handing
    subst handing
    simp only [callerStep, pc]
    refine ⟨⟨accepting, living, kept⟩, by simp [goto], rfl, ?_⟩
    intro other member
    cases member
  | enqueueTest newTask =>
    simp only [pc] at handing
    subst handing
    simp only [callerStep, pc, accepting]
    refine ⟨⟨accepting, living, kept⟩, by simp [goto], rfl, ?_⟩
    intro other member
    cases member
  | enqueuePush newTask =>
    simp only [pc] at handing
    subst handing
    simp only [callerStep, pc]
    refine ⟨⟨accepting, living, kept⟩, ?_, rfl, ?_⟩
    · simp [goto, pushedTasks, queueLog, Event.queueEvent?]
    · simp [pushedTasks, queueLog, Event.queueEvent?]
  | enqueueCount newTask =>
    simp only [pc] at handing
    simp only [callerStep, pc]
    refine ⟨⟨accepting, living, kept⟩, ?_, rfl, ?_⟩
    · simp [goto, handing.2]
    · intro other member
      cases member
  | enqueueDiscard | stopLock | stopWrite | resumeLock | resumeTest | resumeWrite =>
    simp [pc] at handing

omit [DecidableEq ρ] in
/-- The event loop hands over and pushes nothing, and does not stop the dispatcher. -/
theorem eventLoop_keeps {dispatcher next : EventDispatcher ρ τ} {events : List (Event ρ τ)}
    (unstopped : Unstopped dispatcher) (ran : dispatcher.eventLoopStep = .ok (next, events)) :
    Unstopped next ∧ handed events = [] ∧ pushedTasks events = [] := by
  obtain ⟨accepting, living, kept⟩ := unstopped
  unfold eventLoopStep at ran
  repeat' split at ran
  all_goals cases ran <;> exact ⟨⟨accepting, living, kept⟩, rfl, rfl⟩

end EventDispatcher

namespace MPEventDispatcher

open Execution

variable {τ : Type} [DecidableEq τ] {concurrentTaskCount : Nat} {rule : Rule τ}
variable {system after : System concurrentTaskCount τ}
variable {destination : Fin concurrentTaskCount} {caller : Caller concurrentTaskCount}

/-- The rule sends tasks with this id there, now and later. -/
def Routed (rule : Rule τ) (dispatcher : MPEventDispatcher concurrentTaskCount τ) (id : τ)
    (destination : Nat) : Prop :=
  match rule with
  | .hashing hasher => hasher id % concurrentTaskCount = destination
  | .roundRobin => dispatcher.taskIDTable.lookup id = some destination

theorem Routed.unique {dispatcher : MPEventDispatcher concurrentTaskCount τ} {id : τ}
    {one two : Nat} (first : Routed rule dispatcher id one)
    (second : Routed rule dispatcher id two) :
    one = two := by
  cases rule with
  | hashing => exact first.symm.trans second
  | roundRobin => exact Option.some.inj (first.symm.trans second)

/-- The token and the table name dispatchers. -/
structure InRange (dispatcher : MPEventDispatcher concurrentTaskCount τ) : Prop where
  token : dispatcher.roundRobinToken < concurrentTaskCount
  table : ∀ id destination, dispatcher.taskIDTable.lookup id = some destination →
    destination < concurrentTaskCount

/-- A choice is what the rule says from then on, and changes no earlier choice. -/
theorem choice (rule : Rule τ) {dispatcher : MPEventDispatcher concurrentTaskCount τ}
    (inRange : InRange dispatcher) (id : τ) :
    InRange (dispatcher.chooseDestination rule id).1 ∧
      Routed rule (dispatcher.chooseDestination rule id).1 id
      (dispatcher.chooseDestination rule id).2 ∧
      (dispatcher.chooseDestination rule id).2 < concurrentTaskCount ∧
      (∀ other destination, Routed rule dispatcher other destination →
        Routed rule (dispatcher.chooseDestination rule id).1 other destination) := by
  obtain ⟨token, table⟩ := inRange
  cases rule with
  | hashing hasher =>
    exact ⟨⟨token, table⟩, rfl, Nat.mod_lt _ (Nat.zero_lt_of_lt token), fun _ _ routed => routed⟩
  | roundRobin =>
    cases found : dispatcher.taskIDTable.lookup id with
    | some destination =>
      simp only [chooseDestination, found]
      exact ⟨⟨token, table⟩, found, table id destination found, fun _ _ routed => routed⟩
    | none =>
      simp only [chooseDestination, found]
      refine ⟨⟨?_, ?_⟩, ?_, token, ?_⟩
      · simp only [ge_iff_le]
        split <;> omega
      · intro other destination
        rw [FiniteMap.lookup_insert_eq]
        split
        · rintro ⟨⟩
          exact token
        · exact table other destination
      · exact FiniteMap.lookup_insert_same ..
      · intro other destination routed
        simp only [Routed] at routed ⊢
        rw [FiniteMap.lookup_insert_eq, if_neg]
        · exact routed
        · rintro rfl
          rw [found] at routed
          cases routed

/-- Nothing that happened is forgotten, and no choice is changed. -/
structure Extends (rule : Rule τ) (system after : System concurrentTaskCount τ) : Prop where
  grows : ∀ destination, (system.seenAt destination).log <+: (after.seenAt destination).log
  routes : ∀ id destination, Routed rule system.dispatcher id destination →
    Routed rule after.dispatcher id destination

/-- Where the task of a caller is, and that this is where the rule sends it. -/
def Located (rule : Rule τ) (system : System concurrentTaskCount τ)
    (caller : Caller concurrentTaskCount) : Prop :=
  match system.dispatcher.callers caller with
  | .idle | .choose _ =>
    ∀ destination, (system.seenAt destination).dispatcher.callers caller = .idle
  | .forward newTask taskDestination =>
    (∀ destination, (system.seenAt destination).dispatcher.callers caller = .idle) ∧
      Routed rule system.dispatcher newTask.id taskDestination ∧
      taskDestination < concurrentTaskCount
  | .inside newTask taskDestination =>
    (∀ destination, destination ≠ taskDestination →
      (system.seenAt destination).dispatcher.callers caller = .idle) ∧
      EventDispatcher.Handing (system.seenAt taskDestination) caller newTask ∧
      Routed rule system.dispatcher newTask.id taskDestination

/-- A caller that did not move is where it was. -/
theorem Located.keep (located : Located rule system caller) (extended : Extends rule system after)
    (pc : after.dispatcher.callers caller = system.dispatcher.callers caller)
    (same : ∀ destination, (after.seenAt destination).dispatcher.callers caller =
      (system.seenAt destination).dispatcher.callers caller) : Located rule after caller := by
  unfold Located at *
  rw [pc]
  cases place : system.dispatcher.callers caller with
  | idle | choose =>
    simp only [place] at located
    intro destination
    exact (same destination).trans (located destination)
  | forward =>
    simp only [place] at located
    exact ⟨fun destination => (same destination).trans (located.1 destination),
      extended.routes _ _ located.2.1, located.2.2⟩
  | inside =>
    simp only [place] at located
    exact ⟨fun destination elsewhere => (same destination).trans (located.1 destination elsewhere),
      located.2.1.keep (same _) (extended.grows _), extended.routes _ _ located.2.2⟩

/-- The task of a caller that no dispatcher has been given yet. -/
def CallerPc.pending : CallerPc concurrentTaskCount τ → Option (UnitTask τ)
  | .choose newTask => newTask
  | .forward newTask _ => some newTask
  | .idle | .inside .. => none

def calledNumbers (log : List (Event concurrentTaskCount τ)) : List Nat :=
  (handed log).map UnitTask.number

/-- When a call begins its task is new; when it returns its task has been pushed. -/
def Settled (earlier : List (Event concurrentTaskCount τ)) : Event concurrentTaskCount τ → Prop
  | .called _ newTask => ∀ task, newTask = some task →
    ∀ destination, task ∉ EventDispatcher.pushedTasks (logOf destination earlier)
  | .returned _ newTask _ =>
    ∃ destination, newTask ∈ EventDispatcher.pushedTasks (logOf destination earlier)
  | .dispatched .. => True

/-- What holds in every interleaving. -/
structure Sequenced (rule : Rule τ) (system : System concurrentTaskCount τ) : Prop where
  inRange : InRange system.dispatcher
  reached : ∀ destination, Reachable (EventDispatcher.program (.task destination))
    (system.seenAt destination)
  unstopped : ∀ destination, EventDispatcher.Unstopped (system.seenAt destination).dispatcher
  located : ∀ caller, Located rule system caller
  running : ∀ destination, system.dispatcher.callers (.task destination) ≠ .idle →
    (system.seenAt destination).dispatcher.eventLoop.isExecuting = true
  routed : ∀ destination task, task ∈ EventDispatcher.handed (system.seenAt destination).log ∨
    task ∈ EventDispatcher.pushedTasks (system.seenAt destination).log →
    Routed rule system.dispatcher task.id destination
  pending : ∀ caller task, (system.dispatcher.callers caller).pending = some task →
    task.number ∈ calledNumbers system.log ∧
      ∀ destination, task.number ∉ EventDispatcher.handedNumbers (system.seenAt destination).log
  apart : ∀ one two task task', (system.dispatcher.callers one).pending = some task →
    (system.dispatcher.callers two).pending = some task' → task.number = task'.number → one = two
  called : ∀ destination, ∀ number ∈ EventDispatcher.handedNumbers (system.seenAt destination).log,
    number ∈ calledNumbers system.log
  settled : History.Throughout Settled system.log

omit [DecidableEq τ] in
/-- A step of one dispatcher forgets nothing. -/
private theorem updated_grows (system : System concurrentTaskCount τ)
    (destination : Fin concurrentTaskCount) (moved : EventDispatcher (Caller concurrentTaskCount) τ)
    (events : List (EventDispatcher.Event (Caller concurrentTaskCount) τ))
    (other : Fin concurrentTaskCount) :
    (system.seenAt other).log <+: ((system.updated destination moved events).seenAt other).log := by
  by_cases same : other = destination
  · subst same
    simp
  · simp [updated_seenAt_other same]

omit [DecidableEq τ] in
/-- What holds of the dispatcher that moved and of all others holds of all. -/
theorem updated_all {moved : EventDispatcher (Caller concurrentTaskCount) τ}
    {events : List (EventDispatcher.Event (Caller concurrentTaskCount) τ)}
    (property : Fin concurrentTaskCount → EventDispatcher.System (Caller concurrentTaskCount) τ →
      Prop)
    (own : property destination ⟨moved, (system.seenAt destination).log ++ events⟩)
    (others : ∀ other, other ≠ destination → property other (system.seenAt other))
    (other : Fin concurrentTaskCount) :
    property other ((system.updated destination moved events).seenAt other) := by
  by_cases same : other = destination
  · subst same
    simpa using own
  · rw [updated_seenAt_other same]
    exact others other same

theorem turn_extends (inRange : InRange system.dispatcher) (turn : Turn rule system after) :
    Extends rule system after := by
  cases turn with
  | nothing => exact ⟨fun _ => List.prefix_rfl, fun _ _ => id⟩
  | call | finish =>
    refine ⟨?_, fun _ _ => id⟩
    intro destination
    simp [System.seenAt]
  | choose caller newTask pc =>
    exact ⟨fun _ => List.prefix_rfl, (choice rule inRange newTask.id).2.2.2⟩
  | forward | advance | eventLoop => exact ⟨updated_grows _ _ _ _, fun _ _ => id⟩

theorem seenAt_chosen (id : τ) (pc : CallerPc concurrentTaskCount τ) :
    System.seenAt ⟨(system.dispatcher.chooseDestination rule id).1.goto caller pc,
    system.log⟩ destination =
      system.seenAt destination := by
  simp [System.seenAt, goto, (chooseDestination_frame rule system.dispatcher id).1]

private theorem reached_turn (sequenced : Sequenced rule system) (turn : Turn rule system after)
    (destination : Fin concurrentTaskCount) :
    Reachable (EventDispatcher.program (.task destination)) (after.seenAt destination) := by
  have reached := sequenced.reached
  cases turn with
  | nothing => exact reached destination
  | call | finish => simpa using reached destination
  | choose caller newTask pc =>
    rw [seenAt_chosen]
    exact reached destination
  | forward caller newTask taskDestination pc =>
    refine updated_all (fun other => Reachable (EventDispatcher.program (.task other))) ?_
      (fun other _ => reached other)
      destination
    have allowed : (EventDispatcher.program (.task taskDestination)).allowed
      (system.seenAt taskDestination)
        (.enqueueTask caller (some newTask)) := by
      refine ⟨?_, (sequenced.pending caller newTask (by simp [pc, CallerPc.pending])).2
        taskDestination⟩
      have located := sequenced.located caller
      simp only [Located, pc] at located
      simp only [EventDispatcher.enabled, EventDispatcher.mayCall, located.1, Bool.and_eq_true,
        Bool.or_eq_true,
        decide_eq_true_eq, true_and]
      by_cases own : caller = .task taskDestination
      · subst own
        exact .inr (sequenced.running taskDestination (by simp [pc]))
      · exact .inl own
    exact (reached taskDestination).step allowed rfl
  | advance caller newTask taskDestination pc enabled =>
    refine updated_all (fun other => Reachable (EventDispatcher.program (.task other))) ?_
      (fun other _ => reached other)
      destination
    have allowed : (EventDispatcher.program (.task taskDestination)).allowed
      (system.seenAt taskDestination)
      (.caller caller) := ⟨enabled, trivial⟩
    exact (reached taskDestination).step allowed rfl
  | eventLoop own moved events enabled ended ran =>
    refine updated_all (fun other => Reachable (EventDispatcher.program (.task other))) ?_
      (fun other _ => reached other)
      destination
    have allowed : (EventDispatcher.program (.task own)).allowed (system.seenAt own) .eventLoop :=
      ⟨enabled, trivial⟩
    apply (reached own).step allowed
    simp [EventDispatcher.program, EventDispatcher.System.exec, EventDispatcher.step, ran]

/-- What a caller does inside its destination. -/
theorem advance_keeps {newTask : UnitTask τ} {taskDestination : Fin concurrentTaskCount}
    (sequenced : Sequenced rule system)
    (pc : system.dispatcher.callers caller = .inside newTask taskDestination)
    (enabled : (system.seenAt taskDestination).dispatcher.enabled (.task taskDestination)
      (.caller caller) = true) :
    EventDispatcher.Unstopped ((system.seenAt taskDestination).dispatcher.callerStep caller).1 ∧
      EventDispatcher.Handing ⟨((system.seenAt taskDestination).dispatcher.callerStep caller).1,
        (system.seenAt taskDestination).log ++
        ((system.seenAt taskDestination).dispatcher.callerStep caller).2⟩
        caller newTask ∧
      EventDispatcher.handed ((system.seenAt taskDestination).dispatcher.callerStep caller).2 = [] ∧
      ∀ other ∈ EventDispatcher.pushedTasks ((system.seenAt taskDestination).dispatcher.callerStep caller).2,
        other = newTask := by
  have located := sequenced.located caller
  simp only [Located, pc] at located
  apply EventDispatcher.handing_step (sequenced.unstopped taskDestination) located.2.1
  intro idle
  simp [EventDispatcher.enabled, idle] at enabled

private theorem unstopped_turn (sequenced : Sequenced rule system) (turn : Turn rule system after)
    (destination : Fin concurrentTaskCount) :
    EventDispatcher.Unstopped (after.seenAt destination).dispatcher := by
  let Living (_ : Fin concurrentTaskCount)
    (seen : EventDispatcher.System (Caller concurrentTaskCount) τ) : Prop :=
      EventDispatcher.Unstopped seen.dispatcher
  have unstopped : ∀ other, Living other (system.seenAt other) := sequenced.unstopped
  cases turn with
  | nothing => exact unstopped destination
  | call | finish => simpa using unstopped destination
  | choose =>
    rw [seenAt_chosen]
    exact unstopped destination
  | forward caller newTask taskDestination pc =>
    refine updated_all Living ?_ (fun other _ => unstopped other) destination
    obtain ⟨accepting, living, kept⟩ := unstopped taskDestination
    exact ⟨accepting, living, kept⟩
  | advance caller newTask taskDestination pc enabled =>
    exact updated_all Living (advance_keeps sequenced pc enabled).1 (fun other _ => unstopped other)
      destination
  | eventLoop own moved events enabled ended ran =>
    exact updated_all Living (EventDispatcher.eventLoop_keeps (unstopped own) ran).1
      (fun other _ => unstopped other)
      destination

private theorem located_turn (sequenced : Sequenced rule system) (turn : Turn rule system after)
    (who : Caller concurrentTaskCount) : Located rule after who := by
  have extended := turn_extends sequenced.inRange turn
  have located := sequenced.located
  let Stays (destination : Fin concurrentTaskCount)
    (seen : EventDispatcher.System (Caller concurrentTaskCount) τ) : Prop :=
    seen.dispatcher.callers who = (system.seenAt destination).dispatcher.callers who
  cases turn with
  | nothing => exact located who
  | call caller newTask free =>
    by_cases own : who = caller
    · subst own
      have idle : system.dispatcher.callers who = .idle := by
        simp only [mayCall, Bool.and_eq_true, decide_eq_true_eq] at free
        exact free.1
      have outside := located who
      simp only [Located, idle] at outside
      simpa [Located] using outside
    · exact (located who).keep extended (by simp [own]) (by simp)
  | choose caller newTask pc =>
    obtain ⟨_, routed, bound, _⟩ := choice rule sequenced.inRange newTask.id
    have callers := (chooseDestination_frame rule system.dispatcher newTask.id).2
    by_cases own : who = caller
    · subst own
      have outside := located who
      simp only [Located, pc] at outside
      simp only [Located, goto_callers, if_true, seenAt_chosen]
      exact ⟨outside, by cases rule <;> exact routed, bound⟩
    · apply (located who).keep extended (by simp [own, callers])
      intro destination
      rw [seenAt_chosen]
  | forward caller newTask taskDestination pc =>
    by_cases own : who = caller
    · subst own
      have outside := located who
      simp only [Located, pc] at outside
      simp only [Located, updated_callers, System.goto, goto_callers, if_true]
      refine ⟨?_, ?_, outside.2.1⟩
      · intro destination elsewhere
        rw [updated_seenAt_other elsewhere]
        exact outside.1 destination
      · simp [EventDispatcher.Handing]
    · apply (located who).keep extended (by simp [System.goto, own])
      refine updated_all Stays ?_ fun other _ => rfl
      simp [Stays, own]
  | advance caller newTask taskDestination pc enabled =>
    by_cases own : who = caller
    · subst own
      have inside := located who
      simp only [Located, pc] at inside
      simp only [Located, updated_callers, pc]
      refine ⟨?_, ?_, inside.2.2⟩
      · intro destination elsewhere
        rw [updated_seenAt_other elsewhere]
        exact inside.1 destination elsewhere
      · rw [updated_seenAt_own]
        exact (advance_keeps sequenced pc enabled).2.1
    · apply (located who).keep extended rfl
      refine updated_all Stays ?_ fun other _ => rfl
      exact (EventDispatcher.callerStep_frame _ caller).1 who own
  | finish caller newTask taskDestination pc ended =>
    by_cases own : who = caller
    · subst own
      have inside := located who
      simp only [Located, pc] at inside
      simp only [Located, goto_callers, if_true, returned_seenAt]
      intro destination
      by_cases here : destination = taskDestination
      · exact here ▸ ended
      · exact inside.1 destination here
    · exact (located who).keep extended (by simp [own]) (by simp)
  | eventLoop own moved events enabled ended ran =>
    apply (located who).keep extended rfl
    refine updated_all Stays ?_ fun other _ => rfl
    simp only [Stays, EventDispatcher.eventLoopStep_frame ran]

/-- A task is in a call only while it is being run. -/
def Running (system : System concurrentTaskCount τ) : Prop :=
  ∀ destination, system.dispatcher.callers (.task destination) ≠ .idle →
    (system.seenAt destination).dispatcher.eventLoop.isExecuting = true

theorem running_turn (running : Running system) (turn : Turn rule system after)
    (destination : Fin concurrentTaskCount)
    (busy : after.dispatcher.callers (.task destination) ≠ .idle) :
    (after.seenAt destination).dispatcher.eventLoop.isExecuting = true := by
  let Busy (other : Fin concurrentTaskCount)
    (seen : EventDispatcher.System (Caller concurrentTaskCount) τ) : Prop :=
    system.dispatcher.callers (.task other) ≠ .idle → seen.dispatcher.eventLoop.isExecuting = true
  have running : ∀ other, Busy other (system.seenAt other) := running
  cases turn with
  | nothing => exact running destination busy
  | call caller newTask free =>
    rw [called_seenAt]
    by_cases own : .task destination = caller
    · subst own
      simp only [mayCall, Bool.and_eq_true] at free
      exact free.2
    · exact running destination (by simpa [own] using busy)
  | choose caller newTask pc =>
    have callers := (chooseDestination_frame rule system.dispatcher newTask.id).2
    rw [seenAt_chosen]
    by_cases own : .task destination = caller
    · subst own
      exact running destination (by simp [pc])
    · exact running destination (by simpa [own, callers] using busy)
  | forward caller newTask taskDestination pc =>
    refine updated_all Busy ?_ (fun other _ => running other) destination ?_
    · exact running taskDestination
    · by_cases own : .task destination = caller
      · subst own
        simp [pc]
      · simpa [own, System.goto] using busy
  | advance caller newTask taskDestination pc enabled =>
    refine updated_all Busy ?_ (fun other _ => running other) destination busy
    simp only [Busy, (EventDispatcher.callerStep_frame _ caller).2.1]
    exact running taskDestination
  | finish caller newTask taskDestination pc ended =>
    rw [returned_seenAt]
    by_cases own : .task destination = caller
    · subst own
      simp at busy
    · exact running destination (by simpa [own] using busy)
  | eventLoop own moved events enabled ended ran =>
    refine updated_all Busy ?_ (fun other _ => running other) destination busy
    intro inside
    exact absurd (ended (running own inside)) inside

/-- A task a dispatcher has been given. -/
private def Given (log : List (EventDispatcher.Event (Caller concurrentTaskCount) τ))
    (task : UnitTask τ) : Prop :=
  task ∈ EventDispatcher.handed log ∨ task ∈ EventDispatcher.pushedTasks log

private theorem routed_turn (sequenced : Sequenced rule system) (turn : Turn rule system after)
    (destination : Fin concurrentTaskCount) (task : UnitTask τ)
    (given : Given (after.seenAt destination).log task) :
    Routed rule after.dispatcher task.id destination := by
  have extended := turn_extends sequenced.inRange turn
  have located := sequenced.located
  let Sent (other : Fin concurrentTaskCount)
    (seen : EventDispatcher.System (Caller concurrentTaskCount) τ) : Prop :=
    Given seen.log task → Routed rule system.dispatcher task.id other
  have routed : ∀ other, Sent other (system.seenAt other) :=
    fun other => sequenced.routed other task
  apply extended.routes _ _
  cases turn with
  | nothing => exact routed destination given
  | call => exact routed destination (by simpa using given)
  | finish => exact routed destination (by simpa using given)
  | choose =>
    rw [seenAt_chosen] at given
    exact routed destination given
  | forward caller newTask taskDestination pc =>
    refine updated_all Sent ?_ (fun other _ => routed other) destination given
    have place := located caller
    simp only [Located, pc] at place
    intro sent
    have either : Given (system.seenAt taskDestination).log task ∨ task = newTask := by
      simpa [Given, or_right_comm] using sent
    rcases either with before | rfl
    · exact routed taskDestination before
    · exact place.2.1
  | advance caller newTask taskDestination pc enabled =>
    refine updated_all Sent ?_ (fun other _ => routed other) destination given
    obtain ⟨_, _, handed, pushed⟩ := advance_keeps sequenced pc enabled
    have place := located caller
    simp only [Located, pc] at place
    intro sent
    simp only [Given, EventDispatcher.handed_append, EventDispatcher.pushedTasks_append, handed,
      List.append_nil,
      List.mem_append] at sent
    rcases sent with before | before | new
    · exact routed taskDestination (.inl before)
    · exact routed taskDestination (.inr before)
    · exact pushed task new ▸ place.2.2
  | eventLoop own moved events enabled ended ran =>
    refine updated_all Sent ?_ (fun other _ => routed other) destination given
    obtain ⟨_, handed, pushed⟩ := EventDispatcher.eventLoop_keeps (sequenced.unstopped own) ran
    intro sent
    simp only [Given, EventDispatcher.handed_append, EventDispatcher.pushedTasks_append, handed,
      pushed,
      List.append_nil] at sent
    exact routed own sent

/-- How the tasks on their way change: not at all, or a call brings one, or one is
given to its destination. -/
private inductive Passes (system after : System concurrentTaskCount τ) : Prop where
  | same (pending : ∀ who, (after.dispatcher.callers who).pending = (system.dispatcher.callers who).pending)
      (called : calledNumbers after.log = calledNumbers system.log)
      (handed : ∀ destination, EventDispatcher.handedNumbers (after.seenAt destination).log =
        EventDispatcher.handedNumbers (system.seenAt destination).log)
  | comes (caller : Caller concurrentTaskCount) (newTask : Option (UnitTask τ))
      (pending : ∀ who, (after.dispatcher.callers who).pending =
        if who = caller then newTask else (system.dispatcher.callers who).pending)
      (fresh : ∀ task, newTask = some task → task.number ∉ calledNumbers system.log)
      (called : calledNumbers after.log = calledNumbers system.log ++
        newTask.toList.map UnitTask.number)
      (handed : ∀ destination, EventDispatcher.handedNumbers (after.seenAt destination).log =
        EventDispatcher.handedNumbers (system.seenAt destination).log)
  | given (caller : Caller concurrentTaskCount) (newTask : UnitTask τ)
      (held : (system.dispatcher.callers caller).pending = some newTask)
      (pending : ∀ who, (after.dispatcher.callers who).pending =
        if who = caller then none else (system.dispatcher.callers who).pending)
      (called : calledNumbers after.log = calledNumbers system.log)
      (handed : ∀ destination,
        ∀ number ∈ EventDispatcher.handedNumbers (after.seenAt destination).log,
        number ∈ EventDispatcher.handedNumbers (system.seenAt destination).log ∨
        number = newTask.number)

omit [DecidableEq τ] in
private theorem calledNumbers_dispatched (log : List (Event concurrentTaskCount τ))
    (events : List (EventDispatcher.Event (Caller concurrentTaskCount) τ)) :
    calledNumbers (log ++ events.map (.dispatched destination)) = calledNumbers log := by
  simp [calledNumbers, handed, List.filterMap_map]

private theorem passes_turn (sequenced : Sequenced rule system) (turn : Turn rule system after) :
    Passes system after := by
  let Same (destination : Fin concurrentTaskCount)
    (seen : EventDispatcher.System (Caller concurrentTaskCount) τ) : Prop :=
    EventDispatcher.handedNumbers seen.log =
      EventDispatcher.handedNumbers (system.seenAt destination).log
  cases turn with
  | nothing => exact .same (fun _ => rfl) rfl (fun _ => rfl)
  | call caller newTask free fresh =>
    refine .comes caller newTask (fun who => ?_) fresh ?_ (by simp)
    · rw [goto_callers]
      split <;> rfl
    · cases newTask <;> simp [calledNumbers, handed]
  | choose caller newTask pc =>
    have callers := (chooseDestination_frame rule system.dispatcher newTask.id).2
    refine .same (fun who => ?_) rfl fun destination => by rw [seenAt_chosen]
    rw [goto_callers, callers]
    split
    · rename_i own
      rw [own, pc]
      rfl
    · rfl
  | forward caller newTask taskDestination pc =>
    refine .given caller newTask (by rw [pc]; rfl) (fun who => ?_) (calledNumbers_dispatched _ _) ?_
    · simp only [updated_callers, System.goto, goto_callers]
      split <;> rfl
    · refine updated_all (fun destination seen => ∀ number ∈ EventDispatcher.handedNumbers seen.log,
        number ∈ EventDispatcher.handedNumbers (system.seenAt destination).log ∨
        number = newTask.number) ?_
        fun _ _ _ => .inl
      simp [EventDispatcher.handedNumbers]
  | advance caller newTask taskDestination pc enabled =>
    obtain ⟨_, _, handed, _⟩ := advance_keeps sequenced pc enabled
    refine .same (fun _ => rfl) (calledNumbers_dispatched _ _) (updated_all Same ?_ fun _ _ => rfl)
    simp [Same, EventDispatcher.handedNumbers, handed]
  | finish caller newTask taskDestination pc ended =>
    refine .same (fun who => ?_) (by simp [calledNumbers, handed]) (by simp)
    rw [goto_callers]
    split
    · rename_i own
      rw [own, pc]
      rfl
    · rfl
  | eventLoop own moved events enabled ended ran =>
    obtain ⟨_, handed, _⟩ := EventDispatcher.eventLoop_keeps (sequenced.unstopped own) ran
    refine .same (fun _ => rfl) (calledNumbers_dispatched _ _) (updated_all Same ?_ fun _ _ => rfl)
    simp [Same, EventDispatcher.handedNumbers, handed]

private theorem pending_turn (sequenced : Sequenced rule system) (turn : Turn rule system after)
    (who : Caller concurrentTaskCount) (task : UnitTask τ)
    (pending : (after.dispatcher.callers who).pending = some task) :
    task.number ∈ calledNumbers after.log ∧
      ∀ destination, task.number ∉
      EventDispatcher.handedNumbers (after.seenAt destination).log := by
  cases passes_turn sequenced turn with
  | same same called handed =>
    rw [same] at pending
    simpa [called, handed] using sequenced.pending who task pending
  | comes caller newTask changed fresh called handed =>
    rw [changed] at pending
    simp only [called, handed, List.mem_append]
    split at pending
    · subst pending
      refine ⟨.inr (by simp), ?_⟩
      intro destination inside
      exact fresh task rfl (sequenced.called destination _ inside)
    · obtain ⟨inside, apart⟩ := sequenced.pending who task pending
      exact ⟨.inl inside, apart⟩
  | given caller newTask held changed called handed =>
    rw [changed] at pending
    split at pending
    · cases pending
    · rename_i elsewhere
      obtain ⟨inside, apart⟩ := sequenced.pending who task pending
      refine ⟨called ▸ inside, ?_⟩
      intro destination now
      rcases handed destination _ now with before | same
      · exact apart destination before
      · exact elsewhere (sequenced.apart who caller task newTask pending held same)

private theorem apart_turn (sequenced : Sequenced rule system) (turn : Turn rule system after)
    (one two : Caller concurrentTaskCount) (task task' : UnitTask τ)
    (first : (after.dispatcher.callers one).pending = some task)
    (second : (after.dispatcher.callers two).pending = some task')
    (same : task.number = task'.number) : one = two := by
  cases passes_turn sequenced turn with
  | same unchanged =>
    exact sequenced.apart one two task task' (unchanged one ▸ first) (unchanged two ▸ second) same
  | comes caller newTask changed fresh =>
    rw [changed] at first second
    by_cases here : one = caller <;> by_cases there : two = caller
    · rw [here, there]
    · rw [if_pos here] at first
      rw [if_neg there] at second
      exact absurd (same ▸ (sequenced.pending two task' second).1) (fresh task first)
    · rw [if_neg here] at first
      rw [if_pos there] at second
      exact absurd (same ▸ (sequenced.pending one task first).1) (fresh task' second)
    · rw [if_neg here] at first
      rw [if_neg there] at second
      exact sequenced.apart one two task task' first second same
  | given caller newTask held changed =>
    rw [changed] at first second
    split at first
    · cases first
    · split at second
      · cases second
      · exact sequenced.apart one two task task' first second same

private theorem called_turn (sequenced : Sequenced rule system) (turn : Turn rule system after)
    (destination : Fin concurrentTaskCount) (number : Nat)
    (given : number ∈ EventDispatcher.handedNumbers (after.seenAt destination).log) :
    number ∈ calledNumbers after.log := by
  cases passes_turn sequenced turn with
  | same _ called handed =>
    rw [called]
    exact sequenced.called destination number (handed destination ▸ given)
  | comes _ _ _ _ called handed =>
    rw [called]
    exact List.mem_append_left _ (sequenced.called destination number (handed destination ▸ given))
  | given caller newTask held _ called handed =>
    rw [called]
    rcases handed destination number given with before | rfl
    · exact sequenced.called destination number before
    · exact (sequenced.pending caller newTask held).1

/-- A pushed task has been handed over. -/
private theorem pushed_called (sequenced : Sequenced rule system) {task : UnitTask τ}
    (pushed : task ∈ EventDispatcher.pushedTasks (system.seenAt destination).log) :
    task.number ∈ calledNumbers system.log := by
  have refines := (EventDispatcher.reachable_ready (sequenced.reached destination)).refines
  exact sequenced.called destination
    _ (refines.distinct.handed _ (.inl (List.mem_map_of_mem pushed)))

private theorem settled_turn (sequenced : Sequenced rule system) (turn : Turn rule system after) :
    History.Throughout Settled after.log := by
  have settled := sequenced.settled
  have quiet {destination : Fin concurrentTaskCount}
      {events : List (EventDispatcher.Event (Caller concurrentTaskCount) τ)} :
      ∀ event ∈ events.map (.dispatched destination), ∀ earlier, Settled earlier event := by
    intro event member earlier
    obtain ⟨inner, _, rfl⟩ := List.mem_map.mp member
    trivial
  cases turn with
  | nothing | choose => exact settled
  | call caller newTask free fresh =>
    refine History.throughout_concat.mpr ⟨settled, ?_⟩
    rintro task given destination pushed
    exact fresh task given (pushed_called sequenced pushed)
  | finish caller newTask taskDestination pc ended =>
    refine History.throughout_concat.mpr ⟨settled, taskDestination, ?_⟩
    have located := sequenced.located caller
    simp only [Located, pc, EventDispatcher.Handing, ended] at located
    exact located.2.1
  | forward | advance | eventLoop => exact settled.append quiet

theorem sequenced_turn (sequenced : Sequenced rule system) (turn : Turn rule system after) :
    Sequenced rule after where
  inRange := by
    cases turn with
    | choose caller newTask pc =>
      obtain ⟨token, table⟩ := (choice rule sequenced.inRange newTask.id).1
      exact ⟨token, table⟩
    | nothing | call | forward | advance | finish | eventLoop =>
      obtain ⟨token, table⟩ := sequenced.inRange
      exact ⟨token, table⟩
  reached := reached_turn sequenced turn
  unstopped := unstopped_turn sequenced turn
  located := located_turn sequenced turn
  running := running_turn sequenced.running turn
  routed := routed_turn sequenced turn
  pending := pending_turn sequenced turn
  apart := apart_turn sequenced turn
  called := called_turn sequenced turn
  settled := settled_turn sequenced turn

theorem Sequenced.start (rule : Rule τ) (positive : 0 < concurrentTaskCount) :
    Sequenced rule (program concurrentTaskCount rule).start where
  inRange := ⟨positive, nofun⟩
  reached _ := .start
  unstopped _ := ⟨rfl, rfl, rfl⟩
  located _ _ := rfl
  running _ busy := absurd rfl busy
  routed _ _ := nofun
  pending _ _ := nofun
  apart _ _ _ _ := nofun
  called _ := nofun
  settled := History.throughout_nil

theorem reachable_sequenced (positive : 0 < concurrentTaskCount)
    (reached : Reachable (program concurrentTaskCount rule) system) : Sequenced rule system :=
  reached.invariant (Sequenced rule) (.start rule positive)
    fun _ _ _ sequenced allowed ran => sequenced_turn sequenced (exec_turn allowed ran)

end MPEventDispatcher
end EventDisp
