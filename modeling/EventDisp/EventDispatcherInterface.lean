import Mathlib.Data.List.Induction
import EventDisp.EventDispatcher

/-! `event_dispatcher_interface.h`: what a dispatcher promises to those who hand
tasks over, whichever implementation it is. -/
namespace EventDisp.EventDispatcherInterface

/-- What is seen of a dispatcher: calls of `enqueueTask`, their answers and what
becomes of the tasks, and the ends of `stop` and `resume`. -/
inductive Mark (τ : Type) where
  | called (newTask : Option (UnitTask τ))
  | answered (newTask : Option (UnitTask τ)) (answer : Bool)
  | pushed (task : UnitTask τ)
  | started (task : UnitTask τ)
  | stopped
  | resumed
  deriving DecidableEq, Repr

variable {τ : Type} {marks more : List (Mark τ)} {mark : Mark τ} {task : UnitTask τ}
  {tasks : List (UnitTask τ)}

/-- The part between a `stop` and the next `resume` has a call from its beginning
to its answer. -/
def Refusable (marks : List (Mark τ)) (task : UnitTask τ) (answer : Bool) : Prop :=
  ∃ before between inner rest,
    marks = before ++ .stopped ::
    (between ++ .called (some task) :: (inner ++ .answered (some task) answer :: rest)) ∧
      .resumed ∉ between ∧ .resumed ∉ inner

def turnedAwayAfter (tasks : Option (List (UnitTask τ))) : Mark τ → Option (List (UnitTask τ))
  | .stopped => some (tasks.getD [])
  | .resumed => none
  | .called (some task) => tasks.map (· ++ [task])
  | .called none | .answered .. | .pushed _ | .started _ => tasks

/-- The tasks that were brought since the dispatcher was stopped, while it is. -/
def turnedAway (marks : List (Mark τ)) : Option (List (UnitTask τ)) :=
  marks.foldl turnedAwayAfter none

@[simp] theorem turnedAway_concat : turnedAway (marks ++ [mark]) =
    turnedAwayAfter (turnedAway marks) mark := by
  simp [turnedAway]

/-- As long as nobody resumes the dispatcher, no task is forgotten. -/
theorem turnedAway_keep (away : turnedAway marks = some tasks) (held : task ∈ tasks)
    (still : .resumed ∉ more) :
    ∃ now, turnedAway (marks ++ more) = some now ∧ task ∈ now := by
  induction more generalizing marks tasks with
  | nil => exact ⟨tasks, by simpa using away, held⟩
  | cons mark rest ih =>
    rw [List.append_cons]
    have later : .resumed ∉ rest := fun member => still (List.mem_cons_of_mem _ member)
    have next : ∃ now, turnedAway (marks ++ [mark]) = some now ∧ task ∈ now := by
      rw [turnedAway_concat, away]
      cases mark with
      | resumed => exact absurd (List.mem_cons_self ..) still
      | called newTask =>
        cases newTask with
        | none => exact ⟨tasks, rfl, held⟩
        | some other => exact ⟨tasks ++ [other], rfl, List.mem_append_left _ held⟩
      | stopped | answered | pushed | started => exact ⟨tasks, rfl, held⟩
    obtain ⟨now, shown, member⟩ := next
    exact ih shown member later

/-- While the dispatcher is not resumed it is stopped. -/
theorem turnedAway_stopped (before : List (Mark τ)) {between : List (Mark τ)}
    (still : .resumed ∉ between) :
    (turnedAway (before ++ .stopped :: between)).isSome = true := by
  induction between using List.reverseRecOn with
  | nil => simp [turnedAwayAfter]
  | append_singleton between mark ih =>
    have earlier := ih fun member => still (List.mem_append_left _ member)
    rw [← List.cons_append, ← List.append_assoc, turnedAway_concat]
    obtain ⟨tasks, away⟩ := Option.isSome_iff_exists.mp earlier
    rw [away]
    cases mark with
    | resumed => exact absurd (by simp) still
    | called newTask => cases newTask <;> rfl
    | stopped | answered | pushed | started => rfl

theorem Refusable.answered {answer : Bool} (refusable : Refusable marks task answer) :
    .answered (some task) answer ∈ marks := by
  obtain ⟨before, between, inner, rest, rfl, _⟩ := refusable
  simp

/-- A call that can be refused is one for a task that is turned away. -/
theorem Refusable.turnedAway {answer : Bool} (refusable : Refusable marks task answer) :
    ∃ earlier later tasks, marks = earlier ++ .answered (some task) answer :: later ∧
      turnedAway earlier = some tasks ∧ task ∈ tasks := by
  obtain ⟨before, between, inner, rest, rfl, still, within⟩ := refusable
  obtain ⟨tasks, away⟩ := Option.isSome_iff_exists.mp (turnedAway_stopped before still)
  have called : EventDispatcherInterface.turnedAway
    ((before ++ .stopped :: between) ++ [.called (some task)]) =
      some (tasks ++ [task]) := by
    rw [turnedAway_concat, away]
    rfl
  obtain ⟨now, shown, member⟩ := turnedAway_keep called (show task ∈ tasks ++ [task] by simp) within
  exact ⟨_, rest, now, by simp, shown, member⟩

end EventDisp.EventDispatcherInterface
