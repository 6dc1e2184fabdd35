import EventDisp.AioWrapper
import EventDisp.General.Execution

/-! Runs of the polling build: any number of requests, each begun on a caller's thread and
carried on by tasks of the dispatcher, in any order and between each other's steps. Tasks of
others touch none of this, and are not represented. -/
namespace EventDisp.AioWrapper

open Execution

/-- Under way is a task that has been enqueued, or a function with something left to do; it
is named by its `aiocb`. -/
inductive Work (κ : Type) where
  | task (task : UnitTask κ)
  | running (aioCB : Nat) (script : List (Action κ))
  deriving DecidableEq, Repr

/-- What is recorded of a request. -/
inductive Event (κ : Type) where
  | called (call : Call κ)
  | answered (answer : Answer)
  | performed (action : Action κ)
  deriving DecidableEq, Repr

/-- The objects, all that is under way, and what has happened, by request. -/
structure State (κ : Type) where
  heap : Heap κ := {}
  works : List (Work κ) := []
  log : List (Nat × Event κ) := []

/-- A request is made, with the system's first answers; or something under way goes on, in
any order, a poll with the system's next answers. -/
inductive Step (κ : Type) where
  | call (call : Call κ) (answer : Answer)
  | run (index : Nat) (answer : Answer)
  deriving DecidableEq, Repr

section Runs

variable {κ : Type}

/-- The request a work belongs to. The user's functions belong to none. -/
def Work.request : Work κ → Option Nat
  | .task ⟨.checkIOProgress aioCB _, _⟩ => some aioCB
  | .task ⟨.okCB .., _⟩ | .task ⟨.errCB .., _⟩ => none
  | .running aioCB _ => some aioCB

/-- A function returns when it has nothing left to do. -/
def resume (aioCB : Nat) (script : List (Action κ)) : List (Work κ) :=
  if script.isEmpty then [] else [.running aioCB script]

def Action.work : Action κ → List (Work κ)
  | .enqueue task => [.task task]
  | .deleteCallback _ | .deleteAiocb _ | .deleteInfo _ => []

def exec (state : State κ) : Step κ → Except Fault (State κ)
  | .call call answer => do
    let (heap, aioCB, script) ← request .polling state.heap call answer
    return { heap
             works := state.works ++ resume aioCB script
             log := state.log ++ [(aioCB, .called call), (aioCB, .answered answer)] }
  | .run index answer =>
    let others (works : List (Work κ)) :=
      state.works.take index ++ works ++ state.works.drop (index + 1)
    match state.works[index]? with
    | none => .ok state
    | some (.task ⟨.checkIOProgress aioCB callback, _⟩) => do
      let script ← checkIOProgress state.heap answer aioCB callback
      return { heap := state.heap, works := others (resume aioCB script), log := state.log ++ [(aioCB, .answered answer)] }
    | some (.task _) => .ok { state with works := others [] }
    | some (.running aioCB script) =>
      match script with
      | [] => .ok { state with works := others [] }
      | action :: rest => do
        let heap ← state.heap.perform action
        return { heap, works := others (resume aioCB rest ++ action.work), log := state.log ++ [(aioCB, .performed action)] }

/-- Requests of all kinds are made at any time; whatever is under way may go on. -/
def polling (κ : Type) : Program (State κ) (Step κ) Fault where
  start := {}
  allowed state
    | .call _ _ => True
    | .run index _ => index < state.works.length
  exec := exec

instance (state : State κ) : DecidablePred ((polling κ).allowed state)
  | .call _ _ => inferInstanceAs (Decidable True)
  | .run index _ => inferInstanceAs (Decidable (index < state.works.length))

/-- What has happened in one request. -/
def life (request : Nat) (log : List (Nat × Event κ)) : List (Event κ) :=
  (log.filter fun entry => entry.1 = request).map Prod.snd

/-- What the system has answered. -/
def answers (life : List (Event κ)) : List Answer :=
  life.filterMap fun
    | .answered answer => some answer
    | .called _ | .performed _ => none

/-- A poll is enqueued. -/
def Action.polls : Action κ → Bool
  | .enqueue ⟨.checkIOProgress .., _⟩ => true
  | .enqueue ⟨.okCB .., _⟩ | .enqueue ⟨.errCB .., _⟩ | .deleteCallback _ | .deleteAiocb _
  | .deleteInfo _ => false

/-- The user's functions that have been enqueued, and the objects that have been deleted. -/
def done (life : List (Event κ)) : List (Action κ) :=
  life.filterMap fun
    | .performed action => if action.polls then none else some action
    | .called _ | .answered _ => none

/-- What is under way for a request. -/
def State.mine (state : State κ) (request : Nat) : List (Work κ) :=
  state.works.filter fun work => work.request = some request

/-- How a request has ended: with the value of `aio_return`, or with an error code. -/
inductive Verdict where
  | succeeded (ioResult : Int)
  | failed (code : Int)
  deriving DecidableEq, Repr

/-- The result of `aio_error` is final unless it is `EINPROGRESS`. -/
def Answer.outcome (answer : Answer) : Option Verdict :=
  if answer.status = EINPROGRESS then none
  else some (if answer.status = 0 then .succeeded answer.ioResult else .failed answer.status)

/-- A refused request has failed with `errno`, an accepted one is still running as long as
`aio_error` answers `EINPROGRESS`. -/
def verdict : List Answer → Option Verdict
  | [] => none
  | first :: later =>
    if first.ret < 0 then some (.failed first.errno)
    else ((first :: later).getLast (List.cons_ne_nil first later)).outcome

end Runs

variable {κ : Type} {state next : State κ} {call : Call κ} {callback : IOCallback κ} {heap : Heap κ}
  {answer : Answer} {request : Nat}

/-- The user's function that is told of the end. -/
def IOCallback.told (callback : IOCallback κ) (call : Call κ) : Verdict → Option (Job κ)
  | .succeeded ioResult => callback.okCB.map fun okCB => .okCB okCB call.fd call.buff ioResult
  | .failed code => callback.errCB.map fun errCB => .errCB errCB call.fd code

/-- What a request does once it has been decided. -/
def ending (request : Nat) (call : Call κ) (verdict : Verdict) : List (Action κ) :=
  match call.callback with
  | none => [.deleteAiocb request]
  | some callback =>
    callback.notify (callback.told call verdict) ++ [.deleteCallback request, .deleteAiocb request]

/-- The poll of a request. -/
def pollTask (request : Nat) (callback : IOCallback κ) : UnitTask κ :=
  ⟨.checkIOProgress request (some request), callback.id⟩

/-- The objects of a request that have not been deleted. -/
def Live (heap : Heap κ) (request : Nat) (call : Call κ) : Prop :=
  heap.callbacks request = call.callback ∧ heap.aiocbs request = some call.aioCB

theorem refused_ends (live : Live heap request call) :
    refused heap answer request (call.callback.map fun _ => request) =
    .ok (ending request call (.failed answer.errno)) := by
  obtain ⟨held, own⟩ := live
  cases given : call.callback with
  | none => simp [refused, Heap.aiocb, own, ending, given, bind, Except.bind, pure, Except.pure]
  | some callback =>
    rw [given] at held
    simp [refused, Heap.aiocb, own, Heap.callback, held, ending, given, IOCallback.told, Call.aioCB,
      bind, Except.bind, pure,
      Except.pure]

/-- A check that is not the last one needs a callback. -/
theorem checkIOProgress_ends (live : Live heap request call) (answer : Answer) :
    checkIOProgress heap answer request (call.callback.map fun _ => request) =
      match answer.outcome, call.callback with
      | some verdict, _ => .ok (ending request call verdict)
      | none, some callback => .ok [.enqueue (pollTask request callback)]
      | none, none => .error .nullAccess := by
  obtain ⟨held, own⟩ := live
  by_cases running : answer.status = EINPROGRESS
  · cases given : call.callback with
    | none =>
      simp [checkIOProgress, Heap.aiocb, own, running, Heap.callback, Answer.outcome, bind,
        Except.bind]
    | some callback =>
      rw [given] at held
      simp [checkIOProgress, Heap.aiocb, own, running, Heap.callback, held, Answer.outcome,
        pollTask, bind, Except.bind, pure, Except.pure]
  · cases given : call.callback with
    | none =>
      simp [checkIOProgress, Heap.aiocb, own, running, Answer.outcome, ending, given, bind,
        Except.bind, pure, Except.pure]
    | some callback =>
      rw [given] at held
      simp only [checkIOProgress, Heap.aiocb, own, if_neg running, Option.map_some, Heap.callback,
        held, IOCallback.completed,
        Answer.outcome, ending, given, Call.aioCB, bind, Except.bind, pure, Except.pure]
      by_cases zero : answer.status = 0 <;> simp only [zero, if_true, if_false] <;> rfl

/-- What a check leaves to do. -/
theorem checked {script : List (Action κ)} (live : Live heap request call)
    (ran : checkIOProgress heap answer request (call.callback.map fun _ => request) = .ok script) :
    answer.outcome = none ∧ (∃ callback, call.callback = some callback ∧
    script = [.enqueue (pollTask request callback)]) ∨
      ∃ verdict, answer.outcome = some verdict ∧ script = ending request call verdict := by
  rw [checkIOProgress_ends live answer] at ran
  cases decided : answer.outcome with
  | some verdict =>
    simp only [decided] at ran
    cases ran
    exact .inr ⟨verdict, rfl, rfl⟩
  | none =>
    cases given : call.callback with
    | none => simp [decided, given] at ran
    | some callback =>
      simp only [decided, given] at ran
      cases ran
      exact .inl ⟨rfl, callback, rfl, rfl⟩

/-- The user's function, if there is one, and then the deletions. -/
theorem ending_cases (request : Nat) (call : Call κ) (verdict : Verdict) :
    call.callback = none ∧ ending request call verdict = [.deleteAiocb request] ∨
      call.callback ≠ none ∧ (ending request call verdict = [.deleteCallback request,
      .deleteAiocb request] ∨
        ∃ task : UnitTask κ, (Work.task task).request = none ∧ (Action.enqueue task).polls = false ∧
          ending request call verdict = [.enqueue task, .deleteCallback request,
          .deleteAiocb request]) := by
  unfold ending
  cases call.callback with
  | none => exact .inl ⟨rfl, rfl⟩
  | some callback =>
    refine .inr ⟨nofun, ?_⟩
    cases told : callback.told call verdict with
    | none => exact .inl (by simp [IOCallback.notify, told])
    | some job =>
      have users : ∀ aioCB pointer, job ≠ .checkIOProgress aioCB pointer := by
        rintro aioCB pointer rfl
        cases verdict <;> simp [IOCallback.told] at told
      cases job with
      | checkIOProgress aioCB pointer => exact absurd rfl (users aioCB pointer)
      | okCB | errCB => exact .inr ⟨_, rfl, rfl, by simp only [told]; rfl⟩

theorem next_of_cons {before rest more : List (Action κ)} {action first : Action κ}
    (shape : before ++ action :: rest = first :: more) :
    action = first ∧ rest = more ∨ ∃ shorter, shorter ++ action :: rest = more := by
  cases before with
  | nil =>
    cases shape
    exact .inl ⟨rfl, rfl⟩
  | cons _ shorter => exact .inr ⟨shorter, (List.cons.inj shape).2⟩

/-- The next of the last things to do. -/
theorem ending_next {verdict : Verdict} {before rest : List (Action κ)} {action : Action κ}
    (shape : before ++ action :: rest = ending request call verdict) :
    (∃ task, action = .enqueue task ∧ (Work.task task).request = none ∧ action.polls = false ∧
        rest = [.deleteCallback request, .deleteAiocb request]) ∨
      action = .deleteCallback request ∧ rest = [.deleteAiocb request] ∧ call.callback ≠ none ∨
      action = .deleteAiocb request ∧ rest = [] := by
  have last {before : List (Action κ)} (whole : before ++ action :: rest = [.deleteAiocb request]) :
      action = .deleteAiocb request ∧ rest = [] := by
    rcases next_of_cons whole with now | ⟨shorter, none_left⟩
    · exact now
    · simp at none_left
  rcases ending_cases request call verdict with ⟨_, one⟩ | ⟨given,
    two | ⟨task, users, none_polled, three⟩⟩
  · exact .inr (.inr (last (shape.trans one)))
  · rcases next_of_cons (shape.trans two) with ⟨now, after⟩ | ⟨_, later⟩
    · exact .inr (.inl ⟨now, after, given⟩)
    · exact .inr (.inr (last later))
  · rcases next_of_cons (shape.trans three) with ⟨rfl, after⟩ | ⟨_, later⟩
    · exact .inl ⟨task, rfl, users, none_polled, after⟩
    · rcases next_of_cons later with ⟨now, after⟩ | ⟨_, latest⟩
      · exact .inr (.inl ⟨now, after, given⟩)
      · exact .inr (.inr (last latest))

/-- Where a request stands: it is polling, or it does the last of what it has to do. -/
inductive Told (state : State κ) (request : Nat) (call : Call κ) : Prop where
  | pending (given : call.callback = some holder) (asked : answers (life request state.log) ≠ [])
      (undecided : verdict (answers (life request state.log)) = none) (nothing : done
      (life request state.log) = [])
      (live : Live state.heap request call)
      (works : state.mine request = [.task (pollTask request holder)] ∨
        state.mine request = [.running request [.enqueue (pollTask request holder)]])
  | ending (decided : verdict (answers (life request state.log)) = some verdict')
      (progress : done (life request state.log) ++ rest = ending request call verdict')
      (works : state.mine request = resume request rest)
      (held : .deleteCallback request ∈ rest → state.heap.callbacks request = call.callback)
      (freed : .deleteCallback request ∉ rest → state.heap.callbacks request = none)
      (own : .deleteAiocb request ∈ rest → state.heap.aiocbs request = some call.aioCB)
      (gone : .deleteAiocb request ∉ rest → state.heap.aiocbs request = none)

/-- Every request stands somewhere. -/
structure Sound (state : State κ) : Prop where
  told : ∀ request call, (request, .called call) ∈ state.log → Told state request call
  once : ∀ request call other, (request, .called call) ∈ state.log →
    (request, .called other) ∈ state.log → call = other
  known : ∀ request, request < state.heap.next → ∃ call, (request, .called call) ∈ state.log
  fresh : ∀ request, state.heap.next ≤ request →
    life request state.log = [] ∧ state.mine request = [] ∧ state.heap.callbacks request = none

theorem sound_start : Sound ({} : State κ) where
  told := nofun
  once := nofun
  known := nofun
  fresh _ _ := ⟨rfl, rfl, rfl⟩

/-- Of a request only its own steps say anything. -/
theorem Told.congr (told : Told state request call)
    (log : life request next.log = life request state.log)
    (works : next.mine request = state.mine request)
    (callbacks : next.heap.callbacks request = state.heap.callbacks request)
    (aiocbs : next.heap.aiocbs request = state.heap.aiocbs request) : Told next request call := by
  cases told with
  | pending given asked undecided nothing live mine =>
    refine .pending given (log ▸ asked) (log ▸ undecided) (log ▸ nothing) ⟨callbacks.trans live.1,
      aiocbs.trans live.2⟩ ?_
    rwa [works]
  | ending decided progress mine held freed own gone =>
    refine .ending (log ▸ decided) (log ▸ progress) (works.trans mine) ?_ ?_ ?_ ?_
    · rwa [callbacks]
    · rwa [callbacks]
    · rwa [aiocbs]
    · rwa [aiocbs]

theorem life_append (log more : List (Nat × Event κ)) :
    life request (log ++ more) = life request log ++ life request more := by
  simp [life]

theorem life_own (events : List (Event κ)) :
    life request (events.map fun event => (request, event)) = events := by
  induction events with
  | nil => rfl
  | cons event events ih => simpa [life] using ih

theorem life_other {other : Nat} (different : other ≠ request) (events : List (Event κ)) :
    life other (events.map fun event => (request, event)) = [] := by
  simp [life, different.symm]

theorem Sound.begun (sound : Sound state) (called : (request, .called call) ∈ state.log) :
    request < state.heap.next := by
  by_contra beyond
  have member : Event.called call ∈ life request state.log :=
    List.mem_map.mpr ⟨(request, .called call), by simpa using called, rfl⟩
  rw [(sound.fresh request (Nat.le_of_not_lt beyond)).1] at member
  cases member

/-- One request goes on, and the others stay as they are. -/
theorem Sound.advance (sound : Sound state) (called : (request, .called call) ∈ state.log)
    (told : Told next request call) {events : List (Event κ)}
    (log : next.log = state.log ++ events.map fun event => (request, event))
    (plain : ∀ call, .called call ∉ events) (counter : next.heap.next = state.heap.next)
    (works : ∀ other, other ≠ request → next.mine other = state.mine other)
    (callbacks : ∀ other, other ≠ request → next.heap.callbacks other = state.heap.callbacks other)
    (aiocbs : ∀ other, other ≠ request → next.heap.aiocbs other = state.heap.aiocbs other) :
    Sound next := by
  have same (other : Nat) (different : other ≠ request) :
    life other next.log = life other state.log := by
    rw [log, life_append, life_other different, List.append_nil]
  have earlier (other : Nat) (call : Call κ) (recorded : (other, .called call) ∈ next.log) :
    (other, .called call) ∈ state.log := by
    rw [log] at recorded
    rcases List.mem_append.mp recorded with before | now
    · exact before
    · obtain ⟨event, member, shape⟩ := List.mem_map.mp now
      cases shape
      exact absurd member (plain call)
  refine ⟨?_, ?_, ?_, ?_⟩
  · intro other call' recorded
    have before := earlier other call' recorded
    by_cases own : other = request
    · subst own
      obtain rfl := sound.once other call call' called before
      exact told
    · exact (sound.told other call' before).congr (same other own) (works other own)
        (callbacks other own) (aiocbs other own)
  · intro other one two recorded recorded'
    exact sound.once other one two (earlier other one recorded) (earlier other two recorded')
  · intro other below
    obtain ⟨call, recorded⟩ := sound.known other (counter ▸ below)
    exact ⟨call, by rw [log]; exact List.mem_append_left _ recorded⟩
  · intro other beyond
    have own : other ≠ request := by
      rintro rfl
      have begun := sound.begun called
      omega
    obtain ⟨unrecorded, idle, empty⟩ := sound.fresh other (counter ▸ beyond)
    exact ⟨(same other own).trans unrecorded, (works other own).trans idle,
      (callbacks other own).trans empty⟩

theorem verdict_first : verdict [answer] = if answer.ret < 0 then some
    (.failed answer.errno) else answer.outcome := rfl

/-- One more answer, where the others have not decided. -/
theorem verdict_concat {earlier : List Answer} (asked : earlier ≠ [])
    (undecided : verdict earlier = none) :
    verdict (earlier ++ [answer]) = answer.outcome := by
  cases earlier with
  | nil => exact absurd rfl asked
  | cons first later =>
    have accepted : ¬ first.ret < 0 := by
      intro refused
      simp [verdict, refused] at undecided
    rw [List.cons_append, verdict, if_neg accepted]
    exact congrArg Answer.outcome (List.getLast_concat (l := first :: later))

/-- A script that has just been begun. -/
theorem told_begun {script : List (Action κ)} (decided : Option Verdict)
    (live : Live state.heap request call) (asked : answers (life request state.log) ≠ [])
    (same : verdict (answers (life request state.log)) = decided)
    (nothing : done (life request state.log) = [])
    (works : state.mine request = resume request script)
    (shape : decided = none ∧
      (∃ callback, call.callback = some callback ∧
        script = [.enqueue (pollTask request callback)]) ∨
      ∃ verdict, decided = some verdict ∧ script = ending request call verdict) : Told state request
      call := by
  rcases shape with ⟨rfl, callback, given, rfl⟩ | ⟨verdict, rfl, rfl⟩
  · exact .pending given asked same nothing live (.inr works)
  · refine .ending same (by rw [nothing, List.nil_append]) works (fun _ => live.1) (fun absent =>
      ?_) (fun _ => live.2) fun absent => ?_
    · rcases ending_cases request call verdict with ⟨given, _⟩ | ⟨_, shape | ⟨task, _, _, shape⟩⟩
      · exact live.1.trans given
      · simp [shape] at absent
      · simp [shape] at absent
    · rcases ending_cases request call verdict with ⟨_, shape⟩ | ⟨_,
        shape | ⟨task, _, _, shape⟩⟩ <;> simp [shape] at absent

/-- Of the works of others nothing is seen. -/
theorem mine_elsewhere {front back before after : List (Work κ)}
    (whole : state.works = front ++ before ++ back)
    (works : next.works = front ++ after ++ back) (old : ∀ work ∈ before,
    work.request ≠ some request)
    (new : ∀ work ∈ after, work.request ≠ some request) :
    next.mine request = state.mine request := by
  have none_old : before.filter (fun work => decide (work.request = some request)) = [] :=
    List.filter_eq_nil_iff.mpr fun work member => by simpa using old work member
  have none_new : after.filter (fun work => decide (work.request = some request)) = [] :=
    List.filter_eq_nil_iff.mpr fun work member => by simpa using new work member
  rw [State.mine, State.mine, whole, works]
  simp only [List.filter_append, none_old, none_new]

/-- The one work of a request is replaced. -/
theorem mine_replaced {front back after : List (Work κ)} {work : Work κ}
    (whole : state.works = front ++ [work] ++ back) (works : next.works = front ++ after ++ back)
    (own : work.request = some request) (alone : state.mine request = [work]) :
    next.mine request = after.filter fun work => work.request = some request := by
  rw [State.mine, whole, List.filter_append, List.filter_append,
    List.filter_cons_of_pos (by simpa using own), List.filter_nil] at alone
  have count := congrArg List.length alone
  simp only [List.length_append, List.length_singleton] at count
  have front_none : front.filter (fun work => decide (work.request = some request)) = [] :=
    List.eq_nil_of_length_eq_zero (by omega)
  have back_none : back.filter (fun work => decide (work.request = some request)) = [] :=
    List.eq_nil_of_length_eq_zero (by omega)
  rw [State.mine, works, List.filter_append, List.filter_append, front_none, back_none,
    List.nil_append, List.append_nil]

theorem resume_request {script : List (Action κ)} (work : Work κ)
    (member : work ∈ resume request script) :
    work.request = some request := by
  unfold resume at member
  split at member
  · cases member
  · rw [List.mem_singleton.mp member]
    rfl

theorem resume_mine (script : List (Action κ)) :
    (resume request script).filter (fun work => work.request = some request) =
    resume request script :=
  List.filter_eq_self.mpr fun work member => by simpa using resume_request work member

/-- The work at an index stands between others. -/
theorem works_at {works : List (Work κ)} {index : Nat} {work : Work κ}
    (found : works[index]? = some work) :
    works = works.take index ++ [work] ++ works.drop (index + 1) := by
  obtain ⟨bound, rfl⟩ := List.getElem?_eq_some_iff.mp found
  simp

/-- Whatever is under way belongs to a request that has been made. -/
theorem Sound.working (sound : Sound state) {work : Work κ} (member : work ∈ state.works)
    (own : work.request = some request) :
    ∃ call, (request, .called call) ∈ state.log := by
  apply sound.known request
  by_contra beyond
  have mine : work ∈ state.mine request := List.mem_filter.mpr ⟨member, by simpa using own⟩
  rw [(sound.fresh request (Nat.le_of_not_lt beyond)).2.1] at mine
  cases mine

theorem resume_singleton {script other : List (Action κ)}
    (same : resume request script = [.running request other]) : script = other := by
  unfold resume at same
  split at same
  · cases same
  · cases same
    rfl

/-- Nothing of another request changes. -/
def Apart (request : Nat) (before after : Heap κ) : Prop :=
  after.next = before.next ∧ ∀ other, other ≠ request →
    after.callbacks other = before.callbacks other ∧ after.aiocbs other = before.aiocbs other

theorem answers_performed (events : List (Event κ)) (action : Action κ) :
    answers (events ++ [.performed action]) = answers events := by
  simp [answers]

theorem done_performed (events : List (Event κ)) (action : Action κ) :
    done (events ++ [.performed action]) = done events ++
    if action.polls then [] else [action] := by
  cases polls : action.polls <;> simp [done, polls]

/-- The next thing a request does can be done. -/
theorem Told.perform (told : Told state request call) {action : Action κ} {rest : List (Action κ)}
    (alone : state.mine request = [.running request (action :: rest)]) :
    ∃ heap, state.heap.perform action = .ok heap ∧ Apart request state.heap heap ∧
      ∀ next : State κ, next.heap = heap → life request next.log = life request state.log ++
      [.performed action] →
        next.mine request = (resume request rest ++ action.work).filter (fun work =>
          work.request = some request) →
        Told next request call := by
  cases told with
  | @pending holder given asked undecided nothing live works =>
    rcases works with polled | running
    · cases alone.symm.trans polled
    · cases alone.symm.trans running
      refine ⟨state.heap, rfl, ⟨rfl, fun _ _ => ⟨rfl, rfl⟩⟩, ?_⟩
      intro next same log works
      refine .pending given ?_ ?_ ?_ (same ▸ live)
        (.inl (works.trans (by simp [resume, Action.work, pollTask, Work.request])))
      · rw [log, answers_performed]
        exact asked
      · rw [log, answers_performed]
        exact undecided
      · rw [log, done_performed, nothing]
        rfl
  | @ending verdict' script decided progress works held freed own gone =>
    obtain rfl := resume_singleton (works.symm.trans alone)
    have after (next : State κ)
      (log : life request next.log = life request state.log ++ [.performed action])
        (plain : action.polls = false) :
        verdict (answers (life request next.log)) = some verdict' ∧
          done (life request next.log) ++ rest = AioWrapper.ending request call verdict' := by
      rw [log, answers_performed, done_performed, plain]
      exact ⟨decided, by simpa using progress⟩
    rcases ending_next progress with ⟨task, rfl, users, plain, rfl⟩ | ⟨rfl, rfl, given⟩ | ⟨rfl, rfl⟩
    · refine ⟨state.heap, rfl, ⟨rfl, fun _ _ => ⟨rfl, rfl⟩⟩, ?_⟩
      intro next same log works
      obtain ⟨still, progress⟩ := after next log plain
      refine .ending still progress ?_ (fun _ => ?_) (by simp) (fun _ => ?_) (by simp)
      · rw [works, List.filter_append, resume_mine]
        simp [Action.work, users]
      · exact same ▸ held (by simp)
      · exact same ▸ own (by simp)
    · obtain ⟨callback, found⟩ := Option.ne_none_iff_exists'.mp given
      have there : state.heap.callbacks request = some callback := (held (by simp)).trans found
      refine ⟨{ state.heap with callbacks := Function.update state.heap.callbacks request none },
        by simp [Heap.perform, Heap.callback, there, bind, Except.bind, pure, Except.pure],
        ⟨rfl, fun other different => ⟨Function.update_of_ne different .., rfl⟩⟩, ?_⟩
      intro next same log works
      obtain ⟨still, progress⟩ := after next log rfl
      refine .ending still progress ?_ (by simp) (fun _ => ?_) (fun _ => ?_) (by simp)
      · rw [works, List.filter_append, resume_mine]
        simp [Action.work]
      · simp [same]
      · rw [same]
        exact own (by simp)
    · refine ⟨{ state.heap with aiocbs := Function.update state.heap.aiocbs request none },
        by simp [Heap.perform, Heap.aiocb, own, bind, Except.bind, pure, Except.pure],
        ⟨rfl, fun other different => ⟨rfl, Function.update_of_ne different ..⟩⟩, ?_⟩
      intro next same log works
      obtain ⟨still, progress⟩ := after next log rfl
      refine .ending still progress ?_ (by simp) (fun _ => ?_) (by simp) (fun _ => ?_)
      · rw [works, List.filter_append, resume_mine]
        simp [Action.work]
      · rw [same]
        exact freed (by simp)
      · simp [same]

theorem answers_answered (events : List (Event κ)) (answer : Answer) :
    answers (events ++ [.answered answer]) = answers events ++ [answer] := by
  simp [answers]

theorem done_answered (events : List (Event κ)) (answer : Answer) :
    done (events ++ [.answered answer]) = done events := by
  simp [done]

/-- A poll finds the objects of its request, and a callback. -/
theorem Told.poll (told : Told state request call) {aioCB : Nat} {pointer : Option Nat} {id : Nat}
    (alone : state.mine request = [.task ⟨.checkIOProgress aioCB pointer, id⟩]) (answer : Answer) :
    ∃ script, checkIOProgress state.heap answer aioCB pointer = .ok script ∧
      ∀ next : State κ, next.heap = state.heap → life request next.log = life request state.log ++
      [.answered answer] →
        next.mine request = resume request script → Told next request call := by
  cases told with
  | @pending holder given asked undecided nothing live works =>
    rcases works with polled | running
    · cases alone.symm.trans polled
      have ends := checkIOProgress_ends live answer
      rw [given, Option.map_some] at ends
      obtain ⟨script, ran⟩ : ∃ script, checkIOProgress state.heap answer request (some request) =
        .ok script := by
        rw [ends]
        cases answer.outcome <;> exact ⟨_, rfl⟩
      refine ⟨script, ran, ?_⟩
      intro next same log works
      have shape := checked live (by rw [given]; exact ran)
      refine told_begun answer.outcome (same ▸ live) ?_ ?_ ?_ works shape
      · rw [log, answers_answered]
        simp
      · rw [log, answers_answered]
        exact verdict_concat asked undecided
      · rw [log, done_answered]
        exact nothing
    · cases alone.symm.trans running
  | @ending verdict' script decided progress works held freed own gone =>
    unfold resume at works
    split at works <;> cases works.symm.trans alone

/-- The one work of a request is what is found of it. -/
theorem Told.alone (told : Told state request call) {work : Work κ} (member : work ∈ state.works)
    (own : work.request = some request) : state.mine request = [work] := by
  have mine : work ∈ state.mine request := List.mem_filter.mpr ⟨member, by simpa using own⟩
  have single (only : Work κ) (same : state.mine request = [only]) :
    state.mine request = [work] := by
    rw [same] at mine ⊢
    rw [List.mem_singleton.mp mine]
  cases told with
  | pending given asked undecided nothing live works =>
    rcases works with polled | running
    · exact single _ polled
    · exact single _ running
  | ending decided progress works held freed own gone =>
    unfold resume at works
    split at works
    · rw [works] at mine
      cases mine
    · exact single _ works

theorem asked_live (heap : Heap κ) (call : Call κ) (empty : heap.callbacks heap.next = none) :
    Live (heap.asked call) heap.next call := by
  constructor
  · cases given : call.callback with
    | none => simpa [Heap.asked, given] using empty
    | some callback => simp [Heap.asked, given]
  · simp [Heap.asked]

/-- What a call leaves to do. -/
theorem request_begins {script : List (Action κ)} {made : Heap κ} {aioCB : Nat}
    (empty : heap.callbacks heap.next = none)
    (ran : AioWrapper.request .polling heap call answer = .ok (made, aioCB, script)) :
    made = heap.asked call ∧ aioCB = heap.next ∧
      (verdict [answer] = none ∧
        (∃ callback, call.callback = some callback ∧
          script = [.enqueue (pollTask heap.next callback)]) ∨
        ∃ decided, verdict [answer] = some decided ∧ script = ending heap.next call decided) := by
  have live := asked_live heap call empty
  rw [request_polling] at ran
  by_cases accepted : 0 ≤ answer.ret
  · have kept : ¬ answer.ret < 0 := by omega
    rw [if_pos accepted] at ran
    cases checks : checkIOProgress (heap.asked call) answer heap.next (call.callback.map fun _ =>
      heap.next) with
    | error fault => simp [checks, Except.map] at ran
    | ok left =>
      rw [checks] at ran
      cases ran
      rw [verdict_first, if_neg kept]
      exact ⟨rfl, rfl, checked live checks⟩
  · have rejected : answer.ret < 0 := by omega
    rw [if_neg accepted, refused_ends live] at ran
    cases ran
    rw [verdict_first, if_pos rejected]
    exact ⟨rfl, rfl, .inr ⟨_, rfl, rfl⟩⟩

/-- A request is made. -/
theorem Sound.make (sound : Sound state) {call : Call κ} {answer : Answer}
    (ran : exec state (.call call answer) = .ok next) :
    Sound next := by
  simp only [exec] at ran
  cases made : AioWrapper.request .polling state.heap call answer with
  | error fault => simp [made, bind, Except.bind] at ran
  | ok result =>
    obtain ⟨heap, aioCB, script⟩ := result
    obtain ⟨unrecorded, idle, empty⟩ := sound.fresh state.heap.next (Nat.le_refl _)
    obtain ⟨rfl, rfl, shape⟩ := request_begins empty made
    rw [made] at ran
    have same := (Except.ok.inj ran).symm
    have callbacks (other : Nat) (different : other ≠ state.heap.next) :
      next.heap.callbacks other = state.heap.callbacks other := by
      rw [same]
      change (match call.callback with
        | none => state.heap.callbacks
        | some callback =>
          Function.update state.heap.callbacks state.heap.next (some callback)) other = _
      cases call.callback with
      | none => rfl
      | some callback => exact Function.update_of_ne different ..
    have aiocbs (other : Nat) (different : other ≠ state.heap.next) :
      next.heap.aiocbs other = state.heap.aiocbs other := by
      rw [same]
      exact Function.update_of_ne different ..
    have counter : next.heap.next = state.heap.next + 1 := by
      rw [same]
      rfl
    have log : next.log = state.log ++ [Event.called call, .answered answer].map fun event =>
      (state.heap.next, event) := by
      rw [same]
      rfl
    have mine (other : Nat) : next.mine other =
        state.mine other ++ (resume state.heap.next script).filter fun work =>
          work.request = some other := by
      rw [same, State.mine, State.mine, List.filter_append]
    have events : life state.heap.next next.log = [.called call, .answered answer] := by
      rw [log, life_append, life_own, unrecorded]
      rfl
    have others (other : Nat) (different : other ≠ state.heap.next) :
        life other next.log = life other state.log ∧ next.mine other = state.mine other := by
      constructor
      · rw [log, life_append, life_other different, List.append_nil]
      · have foreign : (resume state.heap.next script).filter
          (fun work => work.request = some other) = [] :=
          List.filter_eq_nil_iff.mpr fun work member => by
            simpa [resume_request work member] using different.symm
        rw [mine, foreign, List.append_nil]
    have told : Told next state.heap.next call := by
      refine told_begun (verdict [answer]) (by rw [same]; exact asked_live state.heap call empty) ?_
        ?_ ?_ ?_ shape
      · rw [events]
        nofun
      · rw [events]
        rfl
      · rw [events]
        rfl
      · rw [mine, idle, resume_mine, List.nil_append]
    have earlier (other : Nat) (call' : Call κ) (member : (other, .called call') ∈ next.log) :
        (other, .called call') ∈ state.log ∧ other < state.heap.next ∨ other = state.heap.next ∧
        call' = call := by
      rw [log] at member
      rcases List.mem_append.mp member with before | now
      · exact .inl ⟨before, sound.begun before⟩
      · obtain ⟨event, inside, shape⟩ := List.mem_map.mp now
        cases shape
        simp at inside
        exact .inr ⟨rfl, inside⟩
    refine ⟨?_, ?_, ?_, ?_⟩
    · intro other call' member
      rcases earlier other call' member with ⟨before, below⟩ | ⟨rfl, rfl⟩
      · obtain ⟨unchanged, works⟩ := others other (by omega)
        exact (sound.told other call' before).congr unchanged works (callbacks other (by omega))
          (aiocbs other (by omega))
      · exact told
    · intro other one two first second
      rcases earlier other one first with ⟨before, below⟩ | ⟨own, rfl⟩ <;>
        rcases earlier other two second with ⟨before', below'⟩ | ⟨own', rfl⟩
      · exact sound.once other one two before before'
      · omega
      · omega
      · rfl
    · intro other below
      by_cases own : other = state.heap.next
      · exact ⟨call, by rw [log, own]; simp⟩
      · obtain ⟨call', recorded⟩ := sound.known other (by omega)
        exact ⟨call', by rw [log]; exact List.mem_append_left _ recorded⟩
    · intro other beyond
      have different : other ≠ state.heap.next := by omega
      obtain ⟨unrecorded, idle, empty⟩ := sound.fresh other (by omega)
      obtain ⟨unchanged, works⟩ := others other different
      exact ⟨unchanged.trans unrecorded, works.trans idle, (callbacks other different).trans empty⟩

theorem life_concat (log : List (Nat × Event κ)) (event : Event κ) :
    life request (log ++ [(request, event)]) = life request log ++ [event] :=
  (life_append log _).trans (congrArg _ (life_own [event]))

/-- A user's function has run. -/
theorem Sound.leave (sound : Sound state) {index : Nat} {work : Work κ}
    (found : state.works[index]? = some work) (users : work.request = none) :
    Sound { state with works := state.works.take index ++ [] ++ state.works.drop (index + 1) } := by
  have works (request : Nat) :
    ({ state with works := state.works.take index ++ [] ++ state.works.drop (index + 1) } : State
      κ).mine request =
      state.mine request :=
    mine_elsewhere (works_at found) rfl
      (fun other member => by simp [List.mem_singleton.mp member, users]) nofun
  exact ⟨fun request call called => (sound.told request call called).congr rfl
    (works request) rfl rfl, sound.once, sound.known,
    fun request beyond => ⟨(sound.fresh request beyond).1,
    (works request).trans (sound.fresh request beyond).2.1,
      (sound.fresh request beyond).2.2⟩⟩

/-- A function with nothing left to do has returned. -/
theorem Told.busy (told : Told state request call) {script : List (Action κ)}
    (alone : state.mine request = [.running request script]) :
    script ≠ [] := by
  rintro rfl
  cases told with
  | pending given asked undecided nothing live works =>
    rcases works with polled | running
    · cases alone.symm.trans polled
    · cases alone.symm.trans running
  | ending decided progress works held freed own gone =>
    cases resume_singleton (works.symm.trans alone)
    cases works.symm.trans alone

theorem Action.work_foreign (action : Action κ) {other : Nat}
    (own : ∀ task, action = .enqueue task → (Work.task task).request ≠ some other) :
    ∀ work ∈ action.work, work.request ≠ some other := by
  intro work member
  cases action with
  | enqueue task =>
    rw [List.mem_singleton.mp member]
    exact own task rfl
  | deleteCallback | deleteAiocb | deleteInfo => cases member

/-- What a request enqueues is its own poll or the user's function. -/
theorem Told.enqueues (told : Told state request call) {task : UnitTask κ} {rest : List (Action κ)}
    (alone : state.mine request = [.running request (.enqueue task :: rest)]) {other : Nat}
    (different : other ≠ request) :
    (Work.task task).request ≠ some other := by
  cases told with
  | pending given asked undecided nothing live works =>
    rcases works with polled | running
    · cases alone.symm.trans polled
    · cases alone.symm.trans running
      simpa [pollTask, Work.request] using different.symm
  | ending decided progress works held freed own gone =>
    obtain rfl := resume_singleton (works.symm.trans alone)
    rcases ending_next progress with ⟨_, same, users, _⟩ | ⟨same, _⟩ | ⟨same, _⟩
    · cases same
      rw [users]
      nofun
    · cases same
    · cases same

/-- The state after a poll. -/
def State.polled (state : State κ) (index request : Nat) (script : List (Action κ))
    (answer : Answer) : State κ :=
  { heap := state.heap
    works := state.works.take index ++ resume request script ++ state.works.drop (index + 1)
    log := state.log ++ [(request, .answered answer)] }

/-- The state after one more thing has been done. -/
def State.performed (state : State κ) (index request : Nat) (heap : Heap κ) (action : Action κ)
    (rest : List (Action κ)) : State κ :=
  { heap
    works := state.works.take index ++ (resume request rest ++ action.work) ++
    state.works.drop (index + 1)
    log := state.log ++ [(request, .performed action)] }

theorem exec_poll {index id : Nat} {pointer : Option Nat} {script : List (Action κ)}
    (found : state.works[index]? = some (.task ⟨.checkIOProgress request pointer, id⟩))
    (ran : checkIOProgress state.heap answer request pointer = .ok script) :
    exec state (.run index answer) = .ok (state.polled index request script answer) := by
  simp only [exec, found, ran, bind, Except.bind, pure, Except.pure, State.polled]

theorem exec_perform {index : Nat} {action : Action κ} {rest : List (Action κ)}
    (found : state.works[index]? = some (.running request (action :: rest)))
    (ran : state.heap.perform action = .ok heap) :
    exec state (.run index answer) = .ok (state.performed index request heap action rest) := by
  simp only [exec, found, ran, bind, Except.bind, pure, Except.pure, State.performed]

/-- Whatever is under way goes on. -/
theorem Sound.run (sound : Sound state) {index : Nat} {work : Work κ}
    (found : state.works[index]? = some work) (answer : Answer) :
    ∃ next, exec state (.run index answer) = .ok next ∧ Sound next := by
  have member : work ∈ state.works := List.mem_of_getElem? found
  have whole := works_at found
  match work with
  | .task ⟨.okCB .., _⟩ | .task ⟨.errCB .., _⟩ =>
    exact ⟨_, by simp only [exec, found], sound.leave found rfl⟩
  | .task ⟨.checkIOProgress request pointer, id⟩ =>
    obtain ⟨call, called⟩ := sound.working member rfl
    have told := sound.told request call called
    have alone := told.alone member rfl
    obtain ⟨script, ran, after⟩ := told.poll alone answer
    refine ⟨_, exec_poll found ran, ?_⟩
    refine sound.advance called
      (after _ rfl (life_concat ..)
        ((mine_replaced whole rfl rfl alone).trans (resume_mine script)))
      (show _ = state.log ++ [Event.answered answer].map fun event => (request, event) from rfl)
      (by simp) rfl (fun other different => ?_)
      (fun _ _ => rfl) fun _ _ => rfl
    refine mine_elsewhere whole rfl (fun work inside => ?_) fun work inside => ?_
    · rw [List.mem_singleton.mp inside]
      simpa [Work.request] using different.symm
    · simpa [resume_request work inside] using different.symm
  | .running request script =>
    obtain ⟨call, called⟩ := sound.working member rfl
    have told := sound.told request call called
    have alone := told.alone member rfl
    match script with
    | [] => exact absurd rfl (told.busy alone)
    | action :: rest =>
      obtain ⟨heap, ran, ⟨counter, elsewhere⟩, after⟩ := told.perform alone
      refine ⟨_, exec_perform found ran, ?_⟩
      refine sound.advance called (after _ rfl (life_concat ..) (mine_replaced whole rfl rfl alone))
        (show _ = state.log ++ [Event.performed action].map fun event => (request, event) from rfl)
        (by simp) counter
        (fun other different => ?_) (fun other different => (elsewhere other different).1)
          fun other different => (elsewhere other different).2
      refine mine_elsewhere whole rfl (fun work inside => ?_) fun work inside => ?_
      · rw [List.mem_singleton.mp inside]
        simpa [Work.request] using different.symm
      · rcases List.mem_append.mp inside with resumed | enqueued
        · simpa [resume_request work resumed] using different.symm
        · refine action.work_foreign (fun task same => ?_) work enqueued
          subst same
          exact told.enqueues alone different

theorem sound_step {step : Step κ} (sound : Sound state) (allowed : (polling κ).allowed state step)
    (ran : exec state step = .ok next) :
    Sound next := by
  cases step with
  | call call answer => exact sound.make ran
  | run index answer =>
    obtain ⟨after, ran', kept⟩ := sound.run (List.getElem?_eq_getElem allowed) answer
    cases ran.symm.trans ran'
    exact kept

theorem reachable_sound (reached : Reachable (polling κ) state) : Sound state :=
  reached.invariant Sound sound_start fun _ _ _ => sound_step

/-- How much a request still has to do when its next poll is the last. -/
def remaining : List (Work κ) → Nat
  | [.running _ [.enqueue ⟨.checkIOProgress .., _⟩]] => 5
  | [.task _] => 4
  | [.running _ script] => script.length
  | _ => 0

theorem ending_length (request : Nat) (call : Call κ) (verdict : Verdict) :
    (ending request call verdict).length ≤ 3 := by
  rcases ending_cases request call verdict with ⟨_, shape⟩ | ⟨_, shape | ⟨task, _, _, shape⟩⟩ <;>
    simp [shape]

/-- What the last things leave to do. -/
theorem remaining_resume {verdict : Verdict} (before : List (Action κ)) {rest : List (Action κ)}
    (shape : before ++ rest = ending request call verdict) :
    remaining (resume request rest) = rest.length := by
  cases rest with
  | nil => rfl
  | cons action rest =>
    rcases ending_next shape with ⟨⟨job, id⟩, rfl, users, _, rfl⟩ | ⟨rfl, rfl, _⟩ | ⟨rfl, rfl⟩
    · cases job with
      | checkIOProgress => cases users
      | okCB | errCB => rfl
    · rfl
    · rfl

/-- A request that is under way comes nearer to its end. -/
theorem Sound.nearer (sound : Sound state) (called : (request, .called call) ∈ state.log)
    (busy : state.mine request ≠ []) :
    ∃ step next, (polling κ).allowed state step ∧ exec state step = .ok next ∧
    (request, .called call) ∈ next.log ∧
      remaining (next.mine request) < remaining (state.mine request) := by
  obtain ⟨work, mine⟩ := List.exists_mem_of_ne_nil _ busy
  obtain ⟨member, own⟩ := List.mem_filter.mp mine
  rw [decide_eq_true_eq] at own
  obtain ⟨index, bound, found⟩ := List.mem_iff_getElem.mp member
  have found : state.works[index]? = some work := found ▸ List.getElem?_eq_getElem bound
  have whole := works_at found
  have told := sound.told request call called
  have alone := told.alone member own
  cases told with
  | @pending holder given asked undecided nothing live works =>
    rcases works with polled | running
    · cases alone.symm.trans polled
      have ends := checkIOProgress_ends live {}
      rw [given] at ends
      change checkIOProgress state.heap {} request (some request) =
        .ok (ending request call (.succeeded 0)) at ends
      refine ⟨.run index {}, _, bound, exec_poll found ends, List.mem_append_left _ called, ?_⟩
      have after : (state.polled index request (ending request call (.succeeded 0))
        {}).mine request =
          resume request (ending request call (.succeeded 0)) :=
        (mine_replaced whole rfl rfl alone).trans (resume_mine _)
      rw [after, alone, remaining_resume [] (List.nil_append _)]
      exact Nat.lt_succ_of_le (ending_length ..)
    · cases alone.symm.trans running
      refine ⟨.run index {}, _, bound, exec_perform found rfl, List.mem_append_left _ called, ?_⟩
      have after : (state.performed index request state.heap (.enqueue (pollTask request holder))
        []).mine request =
          [.task (pollTask request holder)] :=
        (mine_replaced whole rfl rfl alone).trans
          (by simp [resume, Action.work, pollTask, Work.request])
      rw [after, alone]
      exact Nat.lt_succ_self 4
  | @ending verdict' script decided progress works held freed own gone =>
    have resumed := works
    unfold resume at resumed
    split at resumed
    · exact absurd resumed busy
    · cases resumed.symm.trans alone
      cases script with
      | nil => cases works.symm.trans alone
      | cons action rest =>
        obtain ⟨heap, ran, _⟩ := (sound.told request call called).perform alone
        refine ⟨.run index {}, _, bound, exec_perform found ran, List.mem_append_left _ called, ?_⟩
        have users : action.work.filter (fun work => work.request = some request) = [] := by
          rcases ending_next progress with ⟨task, rfl, users, _⟩ | ⟨rfl, _⟩ | ⟨rfl, _⟩
          · simp [Action.work, users]
          · rfl
          · rfl
        have after : (state.performed index request heap action rest).mine request =
          resume request rest := by
          rw [mine_replaced whole rfl rfl alone, List.filter_append, resume_mine, users,
            List.append_nil]
        rw [after, works, remaining_resume _ progress,
          remaining_resume (done (life request state.log) ++ [action])
          (by simpa using progress)]
        exact Nat.lt_succ_self _

/-- A request can always come to its end. -/
theorem Sound.ends (sound : Sound state) (called : (request, .called call) ∈ state.log) :
    ∃ final, Leads (polling κ) state final ∧ final.mine request = [] := by
  obtain ⟨final, leads, _, ended⟩ :=
    Leads.descend (polling κ) (fun state => Sound state ∧ (request, .called call) ∈ state.log)
    (fun state => state.mine request = []) (fun state => remaining (state.mine request))
    (fun before holds busy => by
      obtain ⟨step, next, allowed, ran, kept, less⟩ := holds.1.nearer holds.2 busy
      exact ⟨step, next, allowed, ran, ⟨sound_step holds.1 allowed ran, kept⟩, less⟩) state
        ⟨sound, called⟩
  exact ⟨final, leads, ended⟩

/-- The call of the user's function. -/
def completion (okCB errCB : κ) (call : Call κ) : Verdict → Job κ
  | .succeeded ioResult => .okCB okCB call.fd call.buff ioResult
  | .failed code => .errCB errCB call.fd code

/-- While a request is pending there is one work for it, and nothing has been done. Once the
system has decided, the user's function is enqueued under the callback's id, and the callback
and the `aiocb` are deleted, in this order and once each; no poll is left, and nothing is
done twice or with an object that is gone. -/
structure Completes (state : State κ) (request : Nat) (call : Call κ) (id : Nat) (okCB errCB : κ) :
    Prop where
  pending : verdict (answers (life request state.log)) = none →
    done (life request state.log) = [] ∧ ∃ work, state.mine request = [work]
  decided : ∀ outcome, verdict (answers (life request state.log)) = some outcome → ∃ rest,
    done (life request state.log) ++ rest =
        [.enqueue ⟨completion okCB errCB call outcome, id⟩, .deleteCallback request,
          .deleteAiocb request] ∧
      state.mine request = resume request rest
  finished : state.mine request = [] → ∃ outcome, verdict (answers (life request state.log)) =
    some outcome ∧
    done (life request state.log) =
        [.enqueue ⟨completion okCB errCB call outcome, id⟩, .deleteCallback request,
          .deleteAiocb request] ∧
      state.heap.callbacks request = none ∧ state.heap.aiocbs request = none
  returns : ∀ index answer work, state.works[index]? = some work → work.request = some request →
    ∃ next, exec state (.run index answer) = .ok next
  ends : ∃ final, Leads (polling κ) state final ∧ final.mine request = []

theorem ending_given {id : Nat} {okCB errCB : κ}
    (given : call.callback = some ⟨id, some okCB, some errCB⟩) (outcome : Verdict) :
    ending request call outcome =
      [.enqueue ⟨completion okCB errCB call outcome, id⟩, .deleteCallback request,
        .deleteAiocb request] := by
  rw [ending, given]
  cases outcome <;> rfl

theorem Sound.completes (sound : Sound state) {id : Nat} {okCB errCB : κ}
    (called : (request, .called call) ∈ state.log)
    (given : call.callback = some ⟨id, some okCB, some errCB⟩) :
    Completes state request call id okCB errCB where
  pending undecided := by
    cases sound.told request call called with
    | pending given asked undecided nothing live works =>
      exact ⟨nothing, works.elim (fun one => ⟨_, one⟩) fun one => ⟨_, one⟩⟩
    | ending decided progress works held freed own gone => cases undecided.symm.trans decided
  decided outcome decided := by
    cases sound.told request call called with
    | pending given asked undecided nothing live works => cases undecided.symm.trans decided
    | @ending settled rest decided' progress works held freed own gone =>
      cases decided.symm.trans decided'
      exact ⟨rest, progress.trans (ending_given given outcome), works⟩
  finished idle := by
    cases sound.told request call called with
    | pending given asked undecided nothing live works =>
      rcases works with one | one <;> cases idle.symm.trans one
    | @ending outcome rest decided progress works held freed own gone =>
      have empty : rest = [] := by
        cases rest with
        | nil => rfl
        | cons action rest => cases idle.symm.trans works
      subst empty
      refine ⟨outcome, decided, ?_, freed nofun, gone nofun⟩
      rw [← ending_given given, ← progress, List.append_nil]
  returns index answer work found _ := by
    obtain ⟨next, ran, _⟩ := sound.run found answer
    exact ⟨next, ran⟩
  ends := sound.ends called

/-- A call with a callback returns, whatever the system answers. -/
theorem Sound.starts (sound : Sound state) (given : call.callback ≠ none) (answer : Answer) :
    ∃ next, exec state (.call call answer) = .ok next ∧
    (state.heap.next, .called call) ∈ next.log := by
  obtain ⟨callback, given⟩ := Option.ne_none_iff_exists'.mp given
  have live := asked_live state.heap call (sound.fresh state.heap.next (Nat.le_refl _)).2.2
  have made : ∃ script, AioWrapper.request .polling state.heap call answer =
    .ok (state.heap.asked call, state.heap.next, script) := by
    rw [request_polling, refused_ends live, checkIOProgress_ends live, given]
    by_cases accepted : 0 ≤ answer.ret
    · rw [if_pos accepted]
      cases answer.outcome <;> exact ⟨_, rfl⟩
    · rw [if_neg accepted]
      exact ⟨_, rfl⟩
  obtain ⟨script, made⟩ := made
  refine ⟨_, by simp only [exec, made, bind, Except.bind, pure, Except.pure]; rfl, ?_⟩
  simp

/-- In every run, every request with a callback and both of its functions is answered once. -/
theorem reachable_completes (reached : Reachable (polling κ) state) :
    (∀ call answer, call.callback ≠ none →
      ∃ next, exec state (.call call answer) = .ok next ∧
      (state.heap.next, .called call) ∈ next.log) ∧
    ∀ request call id okCB errCB, (request, .called call) ∈ state.log →
      call.callback = some ⟨id, some okCB, some errCB⟩ →
      Completes state request call id okCB errCB := by
  have sound := reachable_sound reached
  exact ⟨fun call answer given => sound.starts given answer, fun _ _ _ _ _ called given =>
    sound.completes called given⟩

private def write : Call Char :=
  { aio_func := .aio_write, fd := 5, buff := 100, len := 8, offset := 0, callback := some ⟨3, some 'o', some 'e'⟩ }

/-- A write that is pending twice, with another one refused in between. -/
theorem reachable_completes_run : ∃ state : State Char, Reachable (polling Char) state ∧
    done (life 0 state.log) = [.enqueue ⟨.okCB 'o' 5 100 8, 3⟩, .deleteCallback 0, .deleteAiocb 0] ∧
      done (life 1 state.log) = [.enqueue ⟨.errCB 'e' 5 11, 3⟩] ∧
        Completes state 0 write 3 'o' 'e' ∧ Completes state 1 write 3 'o' 'e' := by
  obtain ⟨state, ran, first, second, one, two⟩ : ∃ state : State Char,
    (polling Char).replay (polling Char).start
      [.call write { status := EINPROGRESS }, .run 0 {}, .call write { ret := -1, errno := 11 },
        .run 1 {},
        .run 0 { status := EINPROGRESS }, .run 0 {}, .run 0 { ioResult := 8 }, .run 0 {}, .run 0 {},
        .run 0 {}] = .ok state ∧
      done (life 0 state.log) = [.enqueue ⟨.okCB 'o' 5 100 8, 3⟩, .deleteCallback 0,
        .deleteAiocb 0] ∧
        done (life 1 state.log) = [.enqueue ⟨.errCB 'e' 5 11, 3⟩] ∧
          (0, .called write) ∈ state.log ∧ (1, .called write) ∈ state.log :=
            ⟨_, rfl, rfl, rfl, by decide, by decide⟩
  have reached : Reachable (polling Char) state := .replayed (by decide) ran
  obtain ⟨_, completes⟩ := reachable_completes reached
  exact ⟨state, reached, first, second, completes 0 write 3 'o' 'e' one rfl,
    completes 1 write 3 'o' 'e' two rfl⟩

end EventDisp.AioWrapper
