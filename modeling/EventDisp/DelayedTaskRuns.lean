import EventDisp.DelayedTask

/-! What becomes of the task and of the timer of a `DelayedTask`. The task is handed to the
dispatcher or deleted, once and not both. The timer is the object's own as long as
`hasCompleted_` is false, up to the last instructions of the method that sets it, and
`resetTimer` does not look. -/
namespace EventDisp.DelayedTask

open Execution

variable {state next : State} {step : Step} {thread other : Thread} {position : Position}

/-- The flag, what has become of the task, and whether the timer is the object's own. -/
structure Ledger where
  hasCompleted : Bool
  enqueued : Nat
  deleted : Nat
  owned : Bool
  deriving DecidableEq

/-- The ledger while a thread is between the test and the end of the block under it. -/
def midway : Thread → Position → Option Ledger
  | _, .first => some ⟨false, 0, 0, true⟩
  | .handler _, .second => some ⟨false, 1, 0, true⟩
  | .handler _, .completing => some ⟨false, 1, 0, false⟩
  | .destructor, .second => some ⟨false, 0, 0, false⟩
  | .destructor, .completing => some ⟨false, 0, 1, false⟩
  | _, .locking | _, .testing | _, .unlocking | _, .returned => none

/-- The ledger at all other times: the task is kept, or one of the two has been done with it. -/
def Settled (ledger : Ledger) : Prop :=
  ledger = ⟨false, 0, 0, true⟩ ∨ ledger = ⟨true, 1, 0, false⟩ ∨ ledger = ⟨true, 0, 1, false⟩

namespace Position

/-- The lock is held. -/
def inside : Position → Bool
  | .locking | .returned => false
  | .testing | .first | .second | .completing | .unlocking => true

/-- The test has been passed, or the flag has been found set. -/
def tested : Position → Bool
  | .unlocking | .returned => true
  | .locking | .testing | .first | .second | .completing => false

end Position

namespace State

variable (state : State) (thread : Thread)

def owned : Bool :=
  (state.timers state.id).any fun timer => timer.owner = .self

def ledger : Ledger :=
  ⟨state.hasCompleted, state.enqueued, state.deleted, state.owned⟩

def inside : Bool :=
  (state.threads thread).any Position.inside

def midway : Option Ledger :=
  (state.threads thread).bind (DelayedTask.midway thread)

end State

theorem owned_iff : state.owned = true ↔ state.Owns state.id := by
  simp [State.owned, State.Owns, Option.any_eq_true]

theorem ledger_iff {flag owned : Bool} {enqueued deleted : Nat} :
    state.ledger = ⟨flag, enqueued, deleted, owned⟩ ↔
    state.hasCompleted = flag ∧ state.enqueued = enqueued ∧ state.deleted = deleted ∧
    state.owned = owned := by
  simp [State.ledger]

/-- Only the holder of the lock is midway. -/
theorem midway_inside {expected : Ledger} (found : state.midway thread = some expected) :
    state.inside thread = true := by
  unfold State.midway at found
  unfold State.inside
  cases held : state.threads thread with
  | none => simp [held] at found
  | some position =>
    rw [held, Option.bind_some] at found
    cases position <;> first | rfl | cases found

/-- What holds between any two instructions. -/
structure Ordered (state : State) : Prop where
  guards : Lock.Guards state.mutex state.inside
  alone : state.stage ≠ .constructed → ∀ thread, state.threads thread = none
  fresh : state.stage ≠ .constructed → state.hasCompleted = false ∧ state.enqueued = 0 ∧
    state.deleted = 0
  settled : state.stage ≠ .unborn → (∀ thread, state.midway thread = none) → Settled state.ledger
  halfway : ∀ thread expected, state.midway thread = some expected → state.ledger = expected
  finished : ∀ thread position, state.threads thread = some position → position.tested = true →
    state.hasCompleted = true

theorem ordered_start : Ordered {} where
  guards := .start fun _ => rfl
  alone _ _ := rfl
  fresh _ := ⟨rfl, rfl, rfl⟩
  settled born := absurd rfl born
  halfway := nofun
  finished := nofun

/-- With nobody midway, or with the one thread inside not midway, the ledger is settled. -/
theorem Ordered.quiet (ordered : Ordered state) (held : state.threads thread = some position)
    (inside : position.inside = true) (between : midway thread position = none) :
    Settled state.ledger := by
  refine ordered.settled (fun early => ?_) fun other => ?_
  · rw [ordered.alone (by simp [early])] at held
    cases held
  · cases found : state.midway other with
    | none => rfl
    | some expected =>
      have same :=
        ordered.guards.alone (midway_inside found)
          (show state.inside thread = true by simp [State.inside, held, inside])
      subst same
      rw [State.midway, held, Option.bind_some, between] at found
      cases found

/-- While a thread is inside, nobody else is midway. -/
theorem Ordered.elsewhere (ordered : Ordered state) (inside : state.inside thread = true)
    (different : other ≠ thread) :
    state.midway other = none := by
  cases found : state.midway other with
  | none => rfl
  | some expected => exact absurd (ordered.guards.alone (midway_inside found) inside) different

/-- One thread moves, and nobody else is midway. -/
theorem Ordered.move (ordered : Ordered state) (held : state.threads thread ≠ none)
    (threads : next.threads = Function.update state.threads thread (some position))
    (stage : next.stage = state.stage) (guards : Lock.Guards next.mutex next.inside)
    (others : ∀ other, other ≠ thread → state.midway other = none)
    (keeps : state.hasCompleted = true → next.hasCompleted = true) (ends : position.tested = true →
    next.hasCompleted = true)
    (reckoned : ∀ expected, midway thread position = some expected → next.ledger = expected)
    (settles : midway thread position = none → Settled next.ledger) : Ordered next := by
  have born : state.stage = .constructed := by
    by_contra early
    exact held (ordered.alone early thread)
  have own : next.threads thread = some position := by rw [threads, Function.update_self]
  have same (other : Thread) (different : other ≠ thread) :
    next.threads other = state.threads other := by
    rw [threads, Function.update_of_ne different]
  refine ⟨guards, ?_, ?_, ?_, ?_, ?_⟩
  · intro early
    exact absurd (stage.trans born) early
  · intro early
    exact absurd (stage.trans born) early
  · intro _ none_midway
    have mine := none_midway thread
    rw [State.midway, own] at mine
    exact settles mine
  · intro other expected found
    by_cases mine : other = thread
    · subst mine
      rw [State.midway, own] at found
      exact reckoned expected found
    · have absent := others other mine
      rw [State.midway, ← same other mine] at absent
      rw [State.midway, absent] at found
      cases found
  · intro other place at_place tested
    by_cases mine : other = thread
    · subst mine
      cases own.symm.trans at_place
      exact ends tested
    · exact keeps (ordered.finished other place (same other mine ▸ at_place) tested)

/-- A thread begins. -/
theorem Ordered.begin (ordered : Ordered state) (born : state.stage = .constructed)
    (absent : state.threads thread = none) :
    Ordered (state.goto thread .locking) := by
  have own : (state.goto thread .locking).threads thread = some .locking := Function.update_self ..
  have same (other : Thread) (different : other ≠ thread) :
    (state.goto thread .locking).threads other = state.threads other :=
    Function.update_of_ne different ..
  have inside (other : Thread) :
    (state.goto thread .locking).inside other = state.inside other := by
    by_cases mine : other = thread
    · subst mine
      simp [State.inside, own, absent, Position.inside]
    · rw [State.inside, State.inside, same other mine]
  have unchanged (other : Thread) :
    (state.goto thread .locking).midway other = state.midway other := by
    by_cases mine : other = thread
    · subst mine
      cases other <;> simp [State.midway, own, absent, midway]
    · rw [State.midway, State.midway, same other mine]
  refine ⟨ordered.guards.keep inside, fun early => absurd born early, fun early =>
    absurd born early, ?_, ?_, ?_⟩
  · intro living none_midway
    exact ordered.settled living fun other => (unchanged other).symm.trans (none_midway other)
  · intro other expected found
    exact ordered.halfway other expected ((unchanged other).symm.trans found)
  · intro other place at_place tested
    by_cases mine : other = thread
    · subst mine
      cases own.symm.trans at_place
      cases tested
    · exact ordered.finished other place (same other mine ▸ at_place) tested

/-- Only the timers change, and the object owns its timer no more and no less. -/
theorem Ordered.retimed (ordered : Ordered state) {timers : Timers}
    (same : ({ state with timers } : State).owned = state.owned) :
    Ordered { state with timers } where
  guards := ordered.guards
  alone := ordered.alone
  fresh := ordered.fresh
  settled born none_midway := by
    have settled := ordered.settled born none_midway
    rw [State.ledger] at settled ⊢
    rwa [same]
  halfway thread expected found := by
    have reckoned := ordered.halfway thread expected found
    rw [State.ledger] at reckoned ⊢
    rwa [same]
  finished := ordered.finished

/-- A timer that is set stays its owner's. -/
theorem settime_owned {timers : Timers} {id : Nat} {value : Timespec}
    (set : timer_settime state.timers id value = some timers) :
    ({ state with timers } : State).owned = state.owned := by
  rw [timer_settime, Option.map_eq_some_iff] at set
  obtain ⟨timer, held, rfl⟩ := set
  by_cases own : state.id = id
  · simp [State.owned, own, held]
  · simp [State.owned, own]

/-- The lock stays with the thread that moves on inside. -/
theorem Ordered.hold (ordered : Ordered state) (inside : state.inside thread = true)
    (stays : position.inside = true) (mutex : next.mutex = state.mutex)
    (threads : next.threads = Function.update state.threads thread (some position)) :
    Lock.Guards next.mutex next.inside := by
  rw [mutex]
  apply ordered.guards.keep
  intro other
  rw [State.inside, threads]
  by_cases mine : other = thread
  · subst mine
    rw [Function.update_self, inside]
    exact stays
  · rw [Function.update_of_ne mine]
    rfl

/-- The timer that is deleted is nobody's. -/
theorem deleted_unowned (state : State) :
    ({ state with timers := timer_delete state.timers state.id } : State).owned = false := by
  simp [State.owned, timer_delete]

theorem ordered_advance (ordered : Ordered state) (held : state.threads thread = some position)
    (free : position = .locking → state.mutex = none) :
    Ordered (state.advance thread position) := by
  have present : state.threads thread ≠ none := by simp [held]
  have own (expected : Ledger) (found : midway thread position = some expected) :
    state.ledger = expected :=
    ordered.halfway thread expected (by rw [State.midway, held]; exact found)
  cases position with
  | locking =>
    have nobody (other : Thread) : state.inside other = false := by
      rw [Bool.eq_false_iff]
      intro inside
      cases (free rfl).symm.trans ((ordered.guards other).mp inside)
    have unmoved (other : Thread) : state.midway other = none := by
      cases found : state.midway other with
      | none => rfl
      | some expected => cases (nobody other).symm.trans (midway_inside found)
    refine ordered.move present rfl rfl ?_ (fun other _ => unmoved other) id nofun ?_ fun _ => ?_
    · refine Lock.Guards.acquire (show Lock.Guards none state.inside from free rfl ▸ ordered.guards)
        ?_ fun other mine => ?_
      · simp [State.advance, State.goto, State.inside, Position.inside]
      · simp [State.advance, State.goto, State.inside, mine]
    · cases thread <;> nofun
    · refine ordered.settled (fun early => ?_) unmoved
      exact present (ordered.alone (by simp [early]) thread)
  | testing =>
    have inside : state.inside thread = true := by simp [State.inside, held, Position.inside]
    have settled := ordered.quiet held rfl (by cases thread <;> rfl)
    have others (other : Thread) (different : other ≠ thread) := ordered.elsewhere inside different
    cases flag : state.hasCompleted with
    | true =>
      rw [State.advance, flag]
      refine ordered.move present rfl rfl (ordered.hold inside rfl rfl rfl) others id
        (fun _ => flag) ?_ fun _ => settled
      cases thread <;> nofun
    | false =>
      rw [State.advance, flag]
      refine ordered.move present rfl rfl (ordered.hold inside rfl rfl rfl) others id nofun ?_ ?_
      · rcases settled with kept | done | done
        · cases thread <;> · rintro _ ⟨⟩; exact kept
        all_goals
          rw [State.ledger, flag] at done
          cases done
      · cases thread <;> nofun
  | first =>
    have inside : state.inside thread = true := by simp [State.inside, held, Position.inside]
    have others (other : Thread) (different : other ≠ thread) := ordered.elsewhere inside different
    have reckoned := own ⟨false, 0, 0, true⟩ (by cases thread <;> rfl)
    cases thread with
    | handler number =>
      refine ordered.move present rfl rfl (ordered.hold inside rfl rfl rfl) others id nofun ?_ nofun
      rintro _ ⟨⟩
      obtain ⟨flag, enqueued, deleted, owned⟩ := ledger_iff.mp reckoned
      exact ledger_iff.mpr ⟨flag, congrArg (· + 1) enqueued, deleted, owned⟩
    | destructor =>
      refine ordered.move present rfl rfl (ordered.hold inside rfl rfl rfl) others id nofun ?_ nofun
      rintro _ ⟨⟩
      obtain ⟨flag, enqueued, deleted, _⟩ := ledger_iff.mp reckoned
      exact ledger_iff.mpr ⟨flag, enqueued, deleted, deleted_unowned state⟩
  | second =>
    have inside : state.inside thread = true := by simp [State.inside, held, Position.inside]
    have others (other : Thread) (different : other ≠ thread) := ordered.elsewhere inside different
    cases thread with
    | handler number =>
      have reckoned := own _ rfl
      refine ordered.move present rfl rfl (ordered.hold inside rfl rfl rfl) others id nofun ?_ nofun
      rintro _ ⟨⟩
      obtain ⟨flag, enqueued, deleted, _⟩ := ledger_iff.mp reckoned
      exact ledger_iff.mpr ⟨flag, enqueued, deleted, deleted_unowned state⟩
    | destructor =>
      have reckoned := own _ rfl
      refine ordered.move present rfl rfl (ordered.hold inside rfl rfl rfl) others id nofun ?_ nofun
      rintro _ ⟨⟩
      obtain ⟨flag, enqueued, deleted, owned⟩ := ledger_iff.mp reckoned
      exact ledger_iff.mpr ⟨flag, enqueued, congrArg (· + 1) deleted, owned⟩
  | completing =>
    have inside : state.inside thread = true := by simp [State.inside, held, Position.inside]
    have others (other : Thread) (different : other ≠ thread) := ordered.elsewhere inside different
    refine ordered.move present rfl rfl (ordered.hold inside rfl rfl rfl) others
      (fun _ => rfl) (fun _ => rfl) ?_ fun _ => ?_
    · cases thread <;> nofun
    · cases thread with
      | handler number =>
        obtain ⟨_, enqueued, deleted, owned⟩ := ledger_iff.mp (own _ rfl)
        exact .inr (.inl (ledger_iff.mpr ⟨rfl, enqueued, deleted, owned⟩))
      | destructor =>
        obtain ⟨_, enqueued, deleted, owned⟩ := ledger_iff.mp (own _ rfl)
        exact .inr (.inr (ledger_iff.mpr ⟨rfl, enqueued, deleted, owned⟩))
  | unlocking =>
    have inside : state.inside thread = true := by simp [State.inside, held, Position.inside]
    have settled := ordered.quiet held rfl (by cases thread <;> rfl)
    have others (other : Thread) (different : other ≠ thread) := ordered.elsewhere inside different
    have flag := ordered.finished thread _ held rfl
    refine ordered.move present rfl rfl ?_ others id (fun _ => flag) ?_ fun _ => settled
    · refine ordered.guards.release inside ?_ fun other mine => ?_
      · simp [State.advance, State.goto, State.inside, Position.inside]
      · simp [State.advance, State.goto, State.inside, mine]
    · cases thread <;> nofun
  | returned => exact ordered

theorem ordered_step (ordered : Ordered state) (allowed : Allowed state step)
    (ran : exec state step = .ok next) :
    Ordered next := by
  cases step with
  | create id =>
    obtain ⟨unborn, _⟩ := allowed
    have nobody := ordered.alone (by simp [unborn])
    obtain ⟨flag, enqueued, deleted⟩ := ordered.fresh (by simp [unborn])
    cases id with
    | none => cases ran
    | some id =>
      cases ran
      refine ⟨ordered.guards, fun _ => nobody, fun _ => ⟨flag, enqueued, deleted⟩, fun _ _ =>
        .inl (ledger_iff.mpr ⟨flag, enqueued, deleted, ?_⟩), ?_, ?_⟩
      · simp [State.owned]
      · intro thread expected found
        simp [State.midway, nobody] at found
      · intro thread position held
        cases (nobody thread).symm.trans held
  | start delay =>
    simp only [exec] at ran
    cases set : timer_settime state.timers state.id delay with
    | none => simp [set] at ran
    | some timers =>
      simp only [set] at ran
      cases ran
      have retimed := ordered.retimed (settime_owned set)
      have created : state.stage = .created := allowed
      exact ⟨retimed.guards, fun early => absurd rfl early, fun early => absurd rfl early, fun _ =>
        retimed.settled (by simp [created]), retimed.halfway,
        retimed.finished⟩
  | resetTimer delay =>
    simp only [exec] at ran
    cases set : timer_settime state.timers state.id delay with
    | none => simp [set] at ran
    | some timers =>
      simp only [set] at ran
      cases ran
      exact ordered.retimed (settime_owned set)
  | expire number =>
    cases ran
    exact ordered.begin allowed.1 allowed.2
  | destroy =>
    cases ran
    exact ordered.begin allowed.1 allowed.2
  | advance thread =>
    cases ran
    obtain ⟨present, free⟩ := allowed
    obtain ⟨position, held⟩ := Option.ne_none_iff_exists'.mp present
    rw [held, Option.getD_some]
    exact ordered_advance ordered held fun locking => free (locking ▸ held)
  | others id timer =>
    cases ran
    apply ordered.retimed
    by_cases own : state.id = id
    · subst own
      have foreign : state.owned = false := by
        rw [Bool.eq_false_iff, Ne, owned_iff]
        rintro ⟨timer, held, mine⟩
        exact allowed timer held mine
      rw [foreign]
      cases timer <;> simp [State.owned]
    · simp [State.owned, own]

theorem reachable_ordered (reached : Reachable program state) : Ordered state :=
  reached.invariant Ordered ordered_start fun _ _ _ => ordered_step

/-- Midway the flag is not set yet, and one thing at most has been done with the task. -/
theorem midway_undone {expected : Ledger} (found : midway thread position = some expected) :
    expected.hasCompleted = false ∧ expected.enqueued + expected.deleted ≤ 1 := by
  cases thread <;> cases position <;> cases found <;> exact ⟨rfl, by decide⟩

/-- The task is handed to the dispatcher at most once, deleted at most once, and never
both; when the destructor has returned one of the two has been done. -/
theorem reachable_discharged (reached : Reachable program state) :
    state.enqueued + state.deleted ≤ 1 ∧
      (state.threads .destructor = some .returned →
        state.enqueued = 1 ∧ state.deleted = 0 ∨ state.enqueued = 0 ∧ state.deleted = 1) := by
  have ordered := reachable_ordered reached
  have ended (gone : state.threads .destructor = some .returned) : state.hasCompleted = true :=
    ordered.finished .destructor .returned gone rfl
  by_cases unborn : state.stage = .unborn
  · obtain ⟨_, enqueued, deleted⟩ := ordered.fresh (by simp [unborn])
    refine ⟨by omega, ?_⟩
    intro gone
    cases (ordered.alone (by simp [unborn]) .destructor).symm.trans gone
  by_cases between : ∀ thread, state.midway thread = none
  · rcases ordered.settled unborn between with kept | done | done
    · obtain ⟨flag, enqueued, deleted, _⟩ := ledger_iff.mp kept
      exact ⟨by omega, fun gone => absurd (ended gone) (by simp [flag])⟩
    · obtain ⟨_, enqueued, deleted, _⟩ := ledger_iff.mp done
      exact ⟨by omega, fun _ => .inl ⟨enqueued, deleted⟩⟩
    · obtain ⟨_, enqueued, deleted, _⟩ := ledger_iff.mp done
      exact ⟨by omega, fun _ => .inr ⟨enqueued, deleted⟩⟩
  · obtain ⟨thread, busy⟩ := not_forall.mp between
    obtain ⟨expected, found⟩ := Option.ne_none_iff_exists'.mp busy
    obtain ⟨flag, enqueued, deleted, _⟩ := ledger_iff.mp (ordered.halfway thread expected found)
    obtain ⟨position, _, place⟩ := Option.bind_eq_some_iff.mp found
    obtain ⟨unset, once⟩ := midway_undone place
    exact ⟨by omega, fun gone => absurd (ended gone) (by simp [flag, unset])⟩

private def expired : List Step :=
  [.create (some 7), .start ⟨1, 0⟩, .resetTimer ⟨2, 0⟩, .expire 0, .expire 1, .advance (.handler 0),
    .advance (.handler 0),
    .advance (.handler 0), .advance (.handler 0)]

/-- Two expirations and the destructor wait for the lock. -/
theorem reachable_discharged_run : ∃ state, Reachable program state ∧
    state.threads .destructor = some .returned ∧
    state.enqueued + state.deleted ≤ 1 ∧
    (state.enqueued = 1 ∧ state.deleted = 0 ∨ state.enqueued = 0 ∧ state.deleted = 1) := by
  obtain ⟨state, ran, gone⟩ : ∃ state, program.replay program.start
      (expired ++ [.destroy, .advance (.handler 0), .advance (.handler 0), .advance .destructor,
        .advance .destructor,
        .advance .destructor, .advance (.handler 1), .advance (.handler 1),
        .advance (.handler 1)]) = .ok state ∧
      state.threads .destructor = some .returned := ⟨_, rfl, rfl⟩
  have reached : Reachable program state := .replayed (by decide) ran
  obtain ⟨once, ends⟩ := reachable_discharged reached
  exact ⟨state, reached, gone, once, ends gone⟩

/-- The id handed to `timer_settime` or `timer_delete`. -/
def passed (state : State) : Step → Option Nat
  | .start _ | .resetTimer _ => some state.id
  | .advance (.handler number) =>
    if state.threads (.handler number) = some .second then some state.id else none
  | .advance .destructor => if state.threads .destructor = some .first then some state.id else none
  | .create _ | .expire _ | .destroy | .others _ _ => none

/-- The timer functions are called on the object's own timer, which has been created and
not deleted; the assertion of `resetTimer` does not fail, and no timer of another object
is touched. -/
structure Proper (state : State) (step : Step) : Prop where
  living : ∀ id, passed state step = some id → state.Owns id
  asserted : exec state step ≠ .error (.assertion .timerReset)
  apart : ∀ next id timer, passed state step ≠ none → exec state step = .ok next →
    state.timers id = some timer →
    timer.owner ≠ .self → next.timers id = some timer

/-- `resetTimer` is called before the flag is set, and not while the holder of the lock is
about to set it. -/
def Unexpired (state : State) : Step → Prop
  | .resetTimer _ =>
    state.hasCompleted = false ∧ ∀ thread ∈ state.mutex, state.threads thread ≠ some .completing
  | .create _ | .start _ | .expire _ | .destroy | .advance _ | .others _ _ => True

instance (state : State) : DecidablePred (Unexpired state)
  | .resetTimer _ => inferInstanceAs (Decidable (_ ∧ ∀ thread ∈ state.mutex, _))
  | .create _ | .start _ | .expire _ | .destroy | .advance _ | .others _ _ =>
    inferInstanceAs (Decidable True)

/-- A timer that is set or deleted is the only one that changes. -/
theorem passed_elsewhere {id : Nat} (passes : passed state step ≠ none)
    (ran : exec state step = .ok next) (other : id ≠ state.id) :
    next.timers id = state.timers id := by
  cases step with
  | create | expire | destroy | others => exact absurd rfl passes
  | start delay | resetTimer delay =>
    simp only [exec] at ran
    cases set : timer_settime state.timers state.id delay with
    | none => simp [set] at ran
    | some timers =>
      simp only [set] at ran
      cases ran
      rw [timer_settime, Option.map_eq_some_iff] at set
      obtain ⟨timer, _, rfl⟩ := set
      exact Function.update_of_ne other ..
  | advance thread =>
    cases ran
    cases thread with
    | handler number =>
      by_cases second : state.threads (.handler number) = some .second
      · rw [second]
        exact Function.update_of_ne other ..
      · exact absurd (if_neg second) passes
    | destructor =>
      by_cases first : state.threads .destructor = some .first
      · rw [first]
        exact Function.update_of_ne other ..
      · exact absurd (if_neg first) passes

/-- What is done to the object's own timer does not fail and leaves all others as they are. -/
theorem proper_of_owned (owned : passed state step ≠ none → state.Owns state.id) :
    Proper state step where
  living id passes := by
    have own : id = state.id := by
      cases step with
      | create | expire | destroy | others => cases passes
      | start | resetTimer => exact (Option.some.inj passes).symm
      | advance thread =>
        cases thread <;>
        · simp only [passed, Option.ite_none_right_eq_some, Option.some.injEq] at passes
          exact passes.2.symm
    exact own ▸ owned (by simp [passes])
  asserted failed := by
    cases step with
    | resetTimer delay =>
      obtain ⟨timer, held, _⟩ := owned nofun
      simp [exec, timer_settime, held] at failed
    | create id => cases id <;> cases failed
    | start delay =>
      obtain ⟨timer, held, _⟩ := owned nofun
      simp [exec, timer_settime, held] at failed
    | expire | destroy | advance | others => cases failed
  apart next id timer passes ran held foreign := by
    obtain ⟨own, mine, same⟩ := owned passes
    refine (passed_elsewhere passes ran ?_).trans held
    rintro rfl
    cases mine.symm.trans held
    exact foreign same

/-- Midway the timer is the object's own until it is deleted. -/
theorem Ordered.owned (ordered : Ordered state) (flag : state.hasCompleted = false)
    (born : state.stage ≠ .unborn)
    (handlers : ∀ number, state.threads (.handler number) ≠ some .completing)
    (destructor : state.threads .destructor = none) :
    state.Owns state.id := by
  rw [← owned_iff]
  by_cases between : ∀ thread, state.midway thread = none
  · rcases ordered.settled born between with kept | done | done
    · exact (ledger_iff.mp kept).2.2.2
    all_goals
      have set := (ledger_iff.mp done).1
      rw [flag] at set
      cases set
  · obtain ⟨thread, busy⟩ := not_forall.mp between
    obtain ⟨expected, found⟩ := Option.ne_none_iff_exists'.mp busy
    have reckoned := ordered.halfway thread expected found
    obtain ⟨position, held, place⟩ := Option.bind_eq_some_iff.mp found
    cases thread with
    | destructor => cases destructor.symm.trans held
    | handler number =>
      cases position with
      | first | second =>
        cases place
        exact (ledger_iff.mp reckoned).2.2.2
      | completing => exact absurd held (handlers number)
      | locking | testing | unlocking | returned => cases place

/-- With the flag set the timer is not the object's own any more. -/
theorem Ordered.disowned (ordered : Ordered state) (flag : state.hasCompleted = true)
    (born : state.stage ≠ .unborn) :
    ¬ state.Owns state.id := by
  rw [← owned_iff, Bool.not_eq_true]
  by_cases between : ∀ thread, state.midway thread = none
  · rcases ordered.settled born between with kept | done | done
    · have unset := (ledger_iff.mp kept).1
      rw [flag] at unset
      cases unset
    all_goals exact (ledger_iff.mp done).2.2.2
  · obtain ⟨thread, busy⟩ := not_forall.mp between
    obtain ⟨expected, found⟩ := Option.ne_none_iff_exists'.mp busy
    obtain ⟨unset, _⟩ := ledger_iff.mp (ordered.halfway thread expected found)
    obtain ⟨position, _, place⟩ := Option.bind_eq_some_iff.mp found
    cases flag.symm.trans (unset.trans (midway_undone place).1)

/-- `resetTimer` apart, the timer functions always reach the object's own timer. -/
theorem proper_iff (ordered : Ordered state) (allowed : Allowed state step) : Proper state step ↔
    Unexpired state step := by
  have midway_owned {thread : Thread} {position : Position} {enqueued deleted : Nat}
      (held : state.threads thread = some position)
      (place : midway thread position = some ⟨false, enqueued, deleted, true⟩) :
      state.Owns state.id :=
    owned_iff.mp
      (ledger_iff.mp (ordered.halfway thread _ (by rw [State.midway, held]; exact place))).2.2.2
  cases step with
  | create | expire | destroy | others =>
    exact iff_of_true (proper_of_owned fun passes => absurd rfl passes) trivial
  | start delay =>
    refine iff_of_true (proper_of_owned fun _ => ?_) trivial
    have created : state.stage = .created := allowed
    have nobody := ordered.alone (by simp [created])
    exact ordered.owned (ordered.fresh (by simp [created])).1 (by simp [created]) (by simp [nobody])
      (nobody _)
  | advance thread =>
    refine iff_of_true (proper_of_owned fun passes => ?_) trivial
    cases thread with
    | handler number =>
      by_cases second : state.threads (.handler number) = some .second
      · exact midway_owned second rfl
      · exact absurd (if_neg second) passes
    | destructor =>
      by_cases first : state.threads .destructor = some .first
      · exact midway_owned first rfl
      · exact absurd (if_neg first) passes
  | resetTimer delay =>
    obtain ⟨born, destructor⟩ := allowed
    have living : state.stage ≠ .unborn := by simp [born]
    constructor
    · intro proper
      have owns := proper.living state.id rfl
      constructor
      · rw [← Bool.not_eq_true]
        intro flag
        exact ordered.disowned flag living owns
      · intro thread _ held
        cases thread with
        | handler number =>
          have reckoned := ordered.halfway (.handler number) _ (by rw [State.midway, held]; rfl)
          cases (owned_iff.mpr owns).symm.trans (ledger_iff.mp reckoned).2.2.2
        | destructor => cases destructor.symm.trans held
    · rintro ⟨flag, holder⟩
      refine proper_of_owned fun _ => ordered.owned flag living (fun number held => ?_) destructor
      refine holder (.handler number) ((ordered.guards _).mp ?_) held
      simp [State.inside, held, Position.inside]

/-- In a run, `timer_settime` and `timer_delete` only ever reach the object's own timer
exactly when every `resetTimer` comes before any handler has deleted it. -/
theorem timers_proper_iff {attempts : List (State × Step)} {outcome : Except Fault State}
    (run : Run program attempts outcome) :
    (∀ attempt ∈ attempts, Proper attempt.1 attempt.2) ↔ ∀ attempt ∈ attempts,
    Unexpired attempt.1 attempt.2 :=
  run.exact Ordered Proper Unexpired ordered_start (fun _ _ _ ordered allowed _ ran =>
    ordered_step ordered allowed ran)
    fun _ _ => proper_iff

/-- The timer is set again while two expirations wait for the lock. -/
theorem timers_proper_run : ∃ attempts outcome, Run program attempts outcome ∧
    attempts.map Prod.snd = expired ++ [.advance (.handler 0), .destroy] ∧ ∀ attempt ∈ attempts,
    Proper attempt.1 attempt.2 := by
  have run := replayed program (expired ++ [.advance (.handler 0), .destroy]) (by decide)
  exact ⟨_, _, run, rfl, (timers_proper_iff run).mpr (by decide)⟩

/-- The timer is set after a handler has deleted it: the assertion fails, or, when another
object has been given its id, that object's timer is set. -/
theorem reset_after_expiry :
    (∃ attempts state, Run program (attempts ++ [(state, .resetTimer ⟨5, 0⟩)])
      (.error (.assertion .timerReset)) ∧
      attempts.map Prod.snd = expired ∧ ¬ Proper state (.resetTimer ⟨5, 0⟩)) ∧
    ∃ state next, Reachable program state ∧ Allowed state (.resetTimer ⟨5, 0⟩) ∧
    exec state (.resetTimer ⟨5, 0⟩) = .ok next ∧
      state.timers 7 = some ⟨.other 3, some ⟨9, 0⟩⟩ ∧
      next.timers 7 = some ⟨.other 3, some ⟨5, 0⟩⟩ := by
  constructor
  · obtain ⟨state, ran, allowed, failed⟩ : ∃ state,
      program.replay program.start expired = .ok state ∧
        program.allowed state (.resetTimer ⟨5, 0⟩) ∧ program.exec state (.resetTimer ⟨5, 0⟩) =
        .error (.assertion .timerReset) :=
      ⟨_, rfl, ⟨rfl, rfl⟩, rfl⟩
    have run := replayed program expired (by decide)
    rw [ran] at run
    have stepped := run.step allowed
    rw [failed] at stepped
    exact ⟨_, state, stepped, rfl, fun proper => proper.asserted failed⟩
  · obtain ⟨state, next, ran, allowed, set, held, changed⟩ : ∃ state next,
        program.replay program.start (expired ++ [.others 7 (some (3, ⟨9, 0⟩))]) = .ok state ∧
          Allowed state (.resetTimer ⟨5, 0⟩) ∧ exec state (.resetTimer ⟨5, 0⟩) = .ok next ∧
            state.timers 7 = some ⟨.other 3, some ⟨9, 0⟩⟩ ∧
            next.timers 7 = some ⟨.other 3, some ⟨5, 0⟩⟩ :=
      ⟨_, _, rfl, ⟨rfl, rfl⟩, rfl, rfl, rfl⟩
    exact ⟨state, next, .replayed (by decide) ran, allowed, set, held, changed⟩

end EventDisp.DelayedTask
