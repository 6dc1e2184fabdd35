import EventDisp.EventDispatcherDiscipline
import EventDisp.EventDispatcherInterface
import EventDisp.General.History

/-! What `enqueueTask` of one dispatcher answers, while `stop` and `resume` come and
go. It answers `true` whatever happens; a task that is brought while the dispatcher
is stopped is discarded all the same. -/
namespace EventDisp.EventDispatcher

open Execution EventDispatcherInterface

variable {ρ τ : Type} [DecidableEq ρ] [DecidableEq τ] {runner : ρ}
variable {dispatcher next : EventDispatcher ρ τ} {log events : List (Event ρ τ)}
  {system after : System ρ τ}

def Event.mark? : Event ρ τ → Option (Mark τ)
  | .called _ newTask => some (.called newTask)
  | .returned _ newTask answer => some (.answered newTask answer)
  | .pushed task => some (.pushed task)
  | .started task => some (.started task)
  | .stopped _ => some .stopped
  | .resumed _ => some .resumed
  | .discarded _ | .skipped _ | .finished _ | .removed _ | .deleted _ | .dying | .loopReturned =>
    none

/-- What the callers see of the dispatcher. -/
def marks (log : List (Event ρ τ)) : List (Mark τ) := log.filterMap Event.mark?

omit [DecidableEq ρ] [DecidableEq τ] in
@[simp] theorem marks_append (log more : List (Event ρ τ)) :
    marks (log ++ more) = marks log ++ marks more :=
  List.filterMap_append ..

omit [DecidableEq ρ] [DecidableEq τ] in
/-- One event more. -/
theorem turnedAway_marks (log : List (Event ρ τ)) (event : Event ρ τ) :
    turnedAway (marks (log ++ [event])) =
      event.mark?.elim (turnedAway (marks log)) (turnedAwayAfter (turnedAway (marks log))) := by
  rw [marks_append]
  cases shown : event.mark? with
  | none => simp [marks, shown]
  | some mark =>
    have single : marks [event] = [mark] := by simp [marks, shown]
    rw [single, turnedAway_concat]
    rfl

/-- Who returns from a call for a task that was turned away has deleted it. -/
def TurnsAway (earlier : List (Event ρ τ)) (event : Event ρ τ) : Prop :=
  ∀ caller task answer tasks, event = .returned caller (some task) answer →
    turnedAway (marks earlier) = some tasks → task ∈ tasks → task ∈ discardedTasks earlier

/-- What holds while nobody destroys the dispatcher. -/
structure Gated (dispatcher : EventDispatcher ρ τ) (log : List (Event ρ τ)) : Prop where
  kept : dispatcher.destructor = .notCalled
  living : dispatcher.isDying = false
  flag : (turnedAway (marks log)).isSome = dispatcher.isStopped
  away : ∀ tasks, turnedAway (marks log) = some tasks → ∀ task ∈ tasks, task ∉ pushedTasks log ∧
    ∀ caller, dispatcher.callers caller ≠ .enqueuePush task
  counted : ∀ caller task, dispatcher.callers caller = .enqueueCount task → task ∈ pushedTasks log
  answered : ∀ caller newTask answer, .returned caller newTask answer ∈ log → answer = true ∧
    ∀ task, newTask = some task → task ∈ pushedTasks log ∨ task ∈ discardedTasks log
  turns : History.Throughout TurnsAway log

omit [DecidableEq ρ] [DecidableEq τ] in
theorem Gated.start : Gated ({} : EventDispatcher ρ τ) [] where
  kept := rfl
  living := rfl
  flag := rfl
  away := nofun
  counted := nofun
  answered := nofun
  turns := History.throughout_nil

/-- The event is none that a call or the flag has to do with. -/
def Event.aside : Event ρ τ → Bool
  | .started _ | .skipped _ | .finished _ | .removed _ | .deleted _ | .dying | .loopReturned => true
  | .called .. | .returned .. | .pushed _ | .discarded _ | .stopped _ | .resumed _ => false

omit [DecidableEq ρ] [DecidableEq τ] in
private theorem turnedAway_aside (aside : ∀ event ∈ events, event.aside = true) :
    turnedAway (marks (log ++ events)) = turnedAway (marks log) := by
  induction events using List.reverseRecOn with
  | nil => rw [List.append_nil]
  | append_singleton earlier event ih =>
    have before := ih fun event member => aside event (List.mem_append_left _ member)
    have here := aside event (by simp)
    rw [← List.append_assoc, turnedAway_marks, before]
    cases event <;> first | rfl | cases here

omit [DecidableEq ρ] [DecidableEq τ] in
private theorem pushed_aside (aside : ∀ event ∈ events, event.aside = true) :
    pushedTasks events = [] := by
  apply List.filterMap_eq_nil_iff.mpr
  intro shown member
  obtain ⟨event, inside, shows⟩ := List.mem_filterMap.mp member
  have here := aside event inside
  cases event <;> first | (cases shows; rfl) | cases here

omit [DecidableEq ρ] [DecidableEq τ] in
/-- A step that has nothing to do with the calls. -/
private theorem Gated.aside (gated : Gated dispatcher log)
    (aside : ∀ event ∈ events, event.aside = true) (kept : next.destructor = dispatcher.destructor)
    (living : next.isDying = dispatcher.isDying) (flag : next.isStopped = dispatcher.isStopped)
    (pushing : ∀ caller task, next.callers caller = .enqueuePush task →
      dispatcher.callers caller = .enqueuePush task)
    (counting : ∀ caller task, next.callers caller = .enqueueCount task →
      dispatcher.callers caller = .enqueueCount task) :
    Gated next (log ++ events) := by
  have pushes : pushedTasks (log ++ events) = pushedTasks log := by
    simp only [pushedTasks, queueLog_append, SerialQueue.project_append]
    exact (congrArg (pushedTasks log ++ ·) (pushed_aside aside)).trans (List.append_nil _)
  have fewer : ∀ caller newTask answer, .returned caller newTask answer ∈ log ++ events →
      .returned caller newTask answer ∈ log := by
    intro caller newTask answer member
    apply (List.mem_append.mp member).resolve_right
    intro late
    cases aside _ late
  refine ⟨kept.trans gated.kept, living.trans gated.living, ?_, ?_,
    ?_, ?_, ?_⟩
  · rw [turnedAway_aside aside, flag, gated.flag]
  · intro tasks away task member
    rw [turnedAway_aside aside] at away
    rw [pushes]
    obtain ⟨unpushed, nobody⟩ := gated.away tasks away task member
    exact ⟨unpushed, fun caller here => nobody caller (pushing caller task here)⟩
  · intro caller task here
    rw [pushes]
    exact gated.counted caller task (counting caller task here)
  · intro caller newTask answer member
    obtain ⟨yes, settled⟩ := gated.answered caller newTask answer (fewer _ _ _ member)
    rw [pushes]
    refine ⟨yes, fun task given => (settled task given).imp_right ?_⟩
    intro discarded
    simp only [discardedTasks, List.filterMap_append, List.mem_append] at discarded ⊢
    exact .inl discarded
  · apply gated.turns.append
    intro event member earlier caller task answer tasks same
    subst same
    cases aside _ member

omit [DecidableEq τ] in
/-- Where a caller is that did not move. -/
private theorem goto_before {caller other : ρ} {pc place : CallerPc τ}
    (same : next.callers = (dispatcher.goto caller pc).callers) (there : next.callers other = place)
    (apart : pc ≠ place) : dispatcher.callers other = place := by
  rw [same, goto_callers] at there
  split at there
  · exact absurd there apart
  · exact there

omit [DecidableEq τ] in
/-- A caller goes on without a mark. -/
private theorem Gated.goto (gated : Gated dispatcher log) (caller : ρ) {pc : CallerPc τ}
    (same : next.callers = (dispatcher.goto caller pc).callers)
    (kept : next.destructor = dispatcher.destructor) (living : next.isDying = dispatcher.isDying)
    (flag : next.isStopped = dispatcher.isStopped)
    (calm : ∀ task, pc ≠ .enqueuePush task ∧ pc ≠ .enqueueCount task) : Gated next log := by
  rw [← List.append_nil log]
  refine gated.aside (by simp) kept living flag (fun other task there => ?_) fun other task there =>
    ?_
  · exact goto_before same there (calm task).1
  · exact goto_before same there (calm task).2

omit [DecidableEq ρ] [DecidableEq τ] in
@[simp] theorem discardedTasks_append (log more : List (Event ρ τ)) :
    discardedTasks (log ++ more) = discardedTasks log ++ discardedTasks more :=
  List.filterMap_append ..

omit [DecidableEq ρ] [DecidableEq τ] in
private theorem TurnsAway.other (earlier : List (Event ρ τ)) {event : Event ρ τ}
    (other : ∀ caller task answer, event ≠ .returned caller (some task) answer) :
    TurnsAway earlier event :=
  fun caller task answer _ same => absurd same (other caller task answer)

omit [DecidableEq ρ] [DecidableEq τ] in
/-- What was answered before stays true. -/
private theorem Gated.answeredStill (gated : Gated dispatcher log) {caller : ρ}
    {newTask : Option (UnitTask τ)} {answer : Bool} (member : .returned caller newTask answer ∈ log)
    (more : List (Event ρ τ)) : answer = true ∧
      ∀ task, newTask = some task → task ∈ pushedTasks (log ++ more) ∨
      task ∈ discardedTasks (log ++ more) := by
  obtain ⟨yes, settled⟩ := gated.answered caller newTask answer member
  refine ⟨yes, fun task given => (settled task given).imp (?_) ?_⟩
  · intro pushed
    simp [pushed]
  · intro discarded
    simp [discarded]

omit [DecidableEq τ] in
/-- A call begins. -/
private theorem Gated.call (gated : Gated dispatcher log) (distinct : Distinct dispatcher log)
    {caller : ρ} {newTask : Option (UnitTask τ)}
    (fresh : Fresh log (.enqueueTask caller newTask : Move ρ τ)) :
    Gated (dispatcher.goto caller (.enqueueLock newTask)) (log ++ [.called caller newTask]) := by
  have new (task : UnitTask τ) (given : newTask = some task) : task.number ∉ handedNumbers log := by
    subst given
    exact fresh
  refine ⟨gated.kept, gated.living, ?_, ?_, ?_,
    ?_, ?_⟩
  · rw [turnedAway_marks]
    cases newTask with
    | none => exact gated.flag
    | some task => exact Option.isSome_map.trans gated.flag
  · intro tasks away task member
    have before : (∃ tasks, turnedAway (marks log) = some tasks ∧ task ∈ tasks) ∨
      newTask = some task := by
      rw [turnedAway_marks] at away
      cases newTask with
      | none => exact .inl ⟨tasks, away, member⟩
      | some brought =>
        obtain ⟨earlier, shown, rfl⟩ := Option.map_eq_some_iff.mp away
        rcases List.mem_append.mp member with old | late
        · exact .inl ⟨earlier, shown, old⟩
        · exact .inr (congrArg some (List.mem_singleton.mp late).symm)
    rw [pushedTasks_append, pushedTasks_called, List.append_nil]
    rcases before with ⟨earlier, shown, old⟩ | given
    · obtain ⟨unpushed, nobody⟩ := gated.away earlier shown task old
      exact ⟨unpushed, fun other there => nobody other (goto_before rfl there (by simp))⟩
    · refine ⟨fun pushed => new task given (distinct.handed _ (.inl (List.mem_map_of_mem pushed))),
        ?_⟩
      intro other there
      exact new task given (distinct.holding other task
        (by rw [goto_before rfl there (by simp)]; rfl)).1
  · intro other task there
    rw [pushedTasks_append]
    exact List.mem_append_left _ (gated.counted other task (goto_before rfl there (by simp)))
  · intro other given answer member
    exact gated.answeredStill ((List.mem_append.mp member).resolve_right (by simp)) _
  · exact History.throughout_concat.mpr ⟨gated.turns, .other log (by simp)⟩

omit [DecidableEq τ] in
/-- A call that has found the dispatcher accepting tasks. -/
private theorem Gated.admit (gated : Gated dispatcher log) (caller : ρ) (task : UnitTask τ)
    (accepting : dispatcher.isStopped = false) :
    Gated (dispatcher.goto caller (.enqueuePush task)) log := by
  have nobody : turnedAway (marks log) = none := by
    have flag := gated.flag
    rw [accepting] at flag
    simpa using flag
  refine ⟨gated.kept, gated.living, gated.flag, ?_, ?_, gated.answered,
    gated.turns⟩
  · intro tasks away
    rw [nobody] at away
    cases away
  · intro other held there
    rw [goto_callers] at there
    split at there
    · cases there
    · exact gated.counted other held there

/-- A caller that holds the task pushes it. -/
private theorem Gated.push (gated : Gated dispatcher log) {caller : ρ} {task : UnitTask τ}
    (pc : dispatcher.callers caller = .enqueuePush task) :
    Gated (dispatcher.callerStep caller).1 (log ++ (dispatcher.callerStep caller).2) := by
  have single : pushedTasks [(.pushed task : Event ρ τ)] = [task] := rfl
  simp only [callerStep, pc]
  refine ⟨gated.kept, gated.living, ?_, ?_, ?_,
    ?_, ?_⟩
  · rw [turnedAway_marks]
    exact gated.flag
  · intro tasks away other member
    rw [turnedAway_marks] at away
    obtain ⟨unpushed, nobody⟩ := gated.away tasks away other member
    rw [pushedTasks_append, single, List.mem_append, List.mem_singleton]
    refine ⟨fun either => either.elim unpushed fun same => nobody caller (same ▸ pc), ?_⟩
    intro who there
    rw [show ((dispatcher.goto caller (.enqueueCount task)).callers who) = _ from goto_callers
      ..] at there
    split at there
    · cases there
    · exact nobody who there
  · intro other held there
    rw [pushedTasks_append, single, List.mem_append, List.mem_singleton]
    rw [show ((dispatcher.goto caller (.enqueueCount task)).callers other) = _ from goto_callers
      ..] at there
    split at there
    · cases there
      exact .inr rfl
    · exact .inl (gated.counted other held there)
  · intro other given answer member
    exact gated.answeredStill ((List.mem_append.mp member).resolve_right (by simp)) _
  · exact History.throughout_concat.mpr ⟨gated.turns, .other log (by simp)⟩

omit [DecidableEq τ] in
/-- A caller returns, after it has pushed its task or deleted it. -/
private theorem Gated.answer (gated : Gated dispatcher log) (caller : ρ)
    {newTask : Option (UnitTask τ)} (same : next.callers = (dispatcher.goto caller .idle).callers)
    (kept : next.destructor = dispatcher.destructor) (living : next.isDying = dispatcher.isDying)
    (flag : next.isStopped = dispatcher.isStopped)
    (settled : ∀ task, newTask = some task → task ∈ pushedTasks log ∨ task ∈ discardedTasks log) :
    Gated next (log ++ [.returned caller newTask true]) := by
  have pushes : pushedTasks (log ++ [.returned caller newTask true]) = pushedTasks log := by
    rw [pushedTasks_append]
    exact List.append_nil _
  refine ⟨kept.trans gated.kept, living.trans gated.living, ?_, ?_,
    ?_, ?_, History.throughout_concat.mpr ⟨gated.turns, ?_⟩⟩
  · rw [turnedAway_marks, flag]
    exact gated.flag
  · intro tasks away task member
    rw [turnedAway_marks] at away
    obtain ⟨unpushed, nobody⟩ := gated.away tasks away task member
    rw [pushes]
    exact ⟨unpushed, fun other there => nobody other (goto_before same there (by simp))⟩
  · intro other task there
    rw [pushes]
    exact gated.counted other task (goto_before same there (by simp))
  · intro other given answer member
    rcases List.mem_append.mp member with old | new
    · exact gated.answeredStill old _
    · cases List.mem_singleton.mp new
      rw [pushes]
      refine ⟨rfl, fun task given => (settled task given).imp_right ?_⟩
      intro discarded
      rw [discardedTasks_append]
      exact List.mem_append_left _ discarded
  · rintro other task answer tasks ⟨⟩ away member
    exact (settled task rfl).resolve_left (gated.away tasks away task member).1

omit [DecidableEq ρ] [DecidableEq τ] in
/-- The task is deleted, and its caller about to return. -/
private theorem Gated.discard (gated : Gated dispatcher log) (task : UnitTask τ) :
    Gated dispatcher (log ++ [.discarded task]) := by
  have pushes : pushedTasks (log ++ [(.discarded task : Event ρ τ)]) = pushedTasks log := by
    rw [pushedTasks_append]
    exact List.append_nil _
  refine ⟨gated.kept, gated.living, ?_, ?_, ?_,
    ?_, History.throughout_concat.mpr ⟨gated.turns, .other log (by simp)⟩⟩
  · rw [turnedAway_marks]
    exact gated.flag
  · intro tasks away
    rw [turnedAway_marks] at away
    rw [pushes]
    exact gated.away tasks away
  · intro other held there
    rw [pushes]
    exact gated.counted other held there
  · intro other given answer member
    exact gated.answeredStill ((List.mem_append.mp member).resolve_right (by simp)) _

omit [DecidableEq τ] in
/-- The flag is written. -/
private theorem Gated.flagged (gated : Gated dispatcher log) (caller : ρ) {event : Event ρ τ}
    {isStopped : Bool}
    (writes : event = .stopped caller ∧ isStopped = true ∨ event = .resumed caller ∧
      isStopped = false)
    (same : next.callers = (dispatcher.goto caller .idle).callers)
    (kept : next.destructor = dispatcher.destructor)
    (living : next.isDying = dispatcher.isDying) (flag : next.isStopped = isStopped) :
    Gated next (log ++ [event]) := by
  have pushes : pushedTasks (log ++ [event]) = pushedTasks log := by
    rw [pushedTasks_append]
    rcases writes with ⟨rfl, _⟩ | ⟨rfl, _⟩ <;> exact List.append_nil _
  have quiet : ∀ other task answer, event ≠ .returned other task answer := by
    rcases writes with ⟨rfl, _⟩ | ⟨rfl, _⟩ <;> simp
  refine ⟨kept.trans gated.kept, living.trans gated.living, ?_, ?_,
    ?_, ?_,
    History.throughout_concat.mpr ⟨gated.turns, .other log fun other task answer =>
      quiet other _ answer⟩⟩
  · rw [turnedAway_marks, flag]
    rcases writes with ⟨rfl, rfl⟩ | ⟨rfl, rfl⟩ <;> rfl
  · intro tasks away task member
    rw [pushes]
    rw [turnedAway_marks] at away
    rcases writes with ⟨rfl, _⟩ | ⟨rfl, _⟩
    · cases shown : turnedAway (marks log) with
      | none =>
        rw [shown] at away
        cases away
        cases member
      | some earlier =>
        rw [shown] at away
        cases away
        obtain ⟨unpushed, nobody⟩ := gated.away earlier shown task member
        exact ⟨unpushed, fun other there => nobody other (goto_before same there (by simp))⟩
    · cases away
  · intro other task there
    rw [pushes]
    exact gated.counted other task (goto_before same there (by simp))
  · intro other given answer member
    exact gated.answeredStill ((List.mem_append.mp member).resolve_right fun late =>
      quiet _ _ _ (List.mem_singleton.mp late).symm) _

private theorem Gated.caller (gated : Gated dispatcher log) (caller : ρ) :
    Gated (dispatcher.callerStep caller).1 (log ++ (dispatcher.callerStep caller).2) := by
  cases pc : dispatcher.callers caller with
  | idle =>
    simp only [callerStep, pc]
    exact gated.aside (by simp) rfl rfl rfl (fun _ _ => id) fun _ _ => id
  | enqueueTest newTask =>
    simp only [callerStep, pc]
    split
    · rename_i accepting
      rw [List.append_nil]
      exact gated.admit caller _ accepting
    · rw [List.append_nil]
      exact gated.goto caller rfl rfl rfl rfl (by simp)
  | enqueuePush task => exact gated.push pc
  | enqueueCount task =>
    simp only [callerStep, pc]
    refine gated.answer caller rfl rfl rfl rfl ?_
    rintro _ ⟨⟩
    exact .inl (gated.counted caller task pc)
  | enqueueDiscard newTask =>
    simp only [callerStep, pc]
    cases newTask with
    | none => exact gated.answer caller rfl rfl rfl rfl (by simp)
    | some task =>
      rw [← List.append_assoc]
      refine (gated.discard task).answer caller rfl rfl rfl rfl ?_
      rintro _ ⟨⟩
      exact .inr (by simp [discardedTasks])
  | stopWrite =>
    simp only [callerStep, pc]
    exact gated.flagged caller (.inl ⟨rfl, rfl⟩) rfl rfl rfl rfl
  | resumeWrite =>
    simp only [callerStep, pc]
    exact gated.flagged caller (.inr ⟨rfl, rfl⟩) rfl rfl rfl rfl
  | resumeTest =>
    simp only [callerStep, pc]
    split <;> rw [List.append_nil] <;> exact gated.goto caller rfl rfl rfl rfl (by simp)
  | enqueueLock | stopLock | resumeLock =>
    simp only [callerStep, pc, List.append_nil]
    exact gated.goto caller rfl rfl rfl rfl (by simp)

end EventDisp.EventDispatcher
