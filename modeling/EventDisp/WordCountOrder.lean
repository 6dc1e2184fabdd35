import EventDisp.General.History
import EventDisp.WordCountPlaces

/-! A checkpoint is behind the reduce tasks that its map task made for its partition: when
it begins, they have run to their ends. -/
namespace EventDisp.WordCount

open Execution History
open MPEventDispatcher (Caller)

variable {setup : Setup} {rule : MPEventDispatcher.Rule Nat} {state after : WordCount setup}

/-- The call for the word at `x` has returned. -/
def Handed (setup : Setup) (log : List (MPEventDispatcher.Event setup.splitCount Nat))
    (partition : Fin setup.splitCount) (x : Nat) : Prop :=
  ∃ caller, .returned caller (setup.task (.reduce partition x)) true ∈ log

/-- A map task is in the call for it. -/
def Carried (state : WordCount setup) (partition : Fin setup.splitCount) (x : Nat) : Prop :=
  ∃ dispatcher, state.system.running dispatcher = some (setup.task (.map partition)) ∧
    state.system.call (.task dispatcher) = some (some (setup.task (.reduce partition x)))

/-- A call for a checkpoint comes behind those for all words of its map task. -/
def Behind (setup : Setup) (earlier : List (MPEventDispatcher.Event setup.splitCount Nat))
    (event : MPEventDispatcher.Event setup.splitCount Nat) : Prop :=
  ∀ caller partition y, event = .called caller (some (setup.task (.checkpoint partition y))) →
    ∀ x, setup.first partition ≤ x → x < setup.first (partition + 1) →
      Handed setup earlier partition x

structure Delivered (state : WordCount setup) : Prop where
  tasks : ∀ caller, state.system.call caller ≠ some none
  behind : Throughout (Behind setup) state.system.log
  brought : ∀ partition x, Made state (.reduce partition x) →
    Handed setup state.system.log partition x ∨ Carried state partition x

theorem Handed.append {log : List (MPEventDispatcher.Event setup.splitCount Nat)}
    {partition : Fin setup.splitCount} {x : Nat} (before : Handed setup log partition x)
    (events : List (MPEventDispatcher.Event setup.splitCount Nat)) :
    Handed setup (log ++ events) partition x := by
  obtain ⟨caller, inside⟩ := before
  exact ⟨caller, List.mem_append_left _ inside⟩

/-- Whoever is in a call stays in it or returns from it, and what is made is brought. -/
private theorem delivered_keep {events : List (MPEventDispatcher.Event setup.splitCount Nat)}
    (delivered : Delivered state) (log : after.system.log = state.system.log ++ events)
    (tasks : ∀ caller, after.system.call caller = some none → state.system.call caller = some none)
    (behind : ∀ event ∈ events, Behind setup state.system.log event)
    (made : ∀ partition x, Made after (.reduce partition x) →
      Made state (.reduce partition x) ∨ Carried after partition x)
    (held : ∀ dispatcher newTask, state.system.running dispatcher ≠ none →
      state.system.call (.task dispatcher) = some (some newTask) →
      after.system.running dispatcher = state.system.running dispatcher ∧
          after.system.call (.task dispatcher) = some (some newTask) ∨
        ∃ caller, .returned caller newTask true ∈ events) : Delivered after where
  tasks := fun caller call => delivered.tasks caller (tasks caller call)
  behind := by
    rw [log, throughout_append]
    refine ⟨delivered.behind, ?_⟩
    intro earlier event later shape caller partition y same x least below
    have first := behind event (by simp [shape]) caller partition y same x least below
    exact first.append earlier
  brought := by
    intro partition x now
    rw [log]
    rcases made partition x now with before | carried
    · rcases delivered.brought partition x before with handed | ⟨dispatcher, runs, call⟩
      · exact .inl (handed.append events)
      · rcases held dispatcher _ (by simp [runs]) call with ⟨running, calls⟩ | ⟨caller, returned⟩
        · exact .inr ⟨dispatcher, running.trans runs, calls⟩
        · exact .inl ⟨caller, List.mem_append_right _ returned⟩
    · exact .inr carried

/-- The dispatchers take no step, and no word is passed. -/
private theorem delivered_same (delivered : Delivered state) (system : after.system = state.system)
    (made : ∀ partition x, Made after (.reduce partition x) → Made state (.reduce partition x)) :
    Delivered after := by
  have log : after.system.log = state.system.log ++ [] := by simp [system]
  exact delivered_keep delivered log (by simp [system]) (by simp)
    (fun partition x now => .inl (made partition x now)) fun _ _ _ call => .inl (by simp [system, call])

/-- A running map task is the only one of its dispatcher's tasks that runs. -/
private theorem carried_here {dispatcher partition : Fin setup.splitCount} {x : Nat}
    (reached : Reachable (MPEventDispatcher.program setup.splitCount rule) state.system)
    (running : state.system.running dispatcher = some (setup.task (.map partition)))
    (carried : Carried state partition x) :
    state.system.call (.task dispatcher) = some (some (setup.task (.reduce partition x))) := by
  obtain ⟨other, runs, call⟩ := carried
  obtain ⟨sequenced, _⟩ := MPEventDispatcher.reachable_brought setup.splitCount_pos reached
  obtain rfl := MPEventDispatcher.running_alone sequenced running runs rfl
  exact call

/-- A map task in no call has handed over all words it has passed. -/
private theorem handed_over {dispatcher partition : Fin setup.splitCount} {x : Nat}
    (reached : Reachable (MPEventDispatcher.program setup.splitCount rule) state.system)
    (delivered : Delivered state) {place : Place} (here : At state dispatcher (.map partition) place)
    (made : Made state (.reduce partition x)) : Handed setup state.system.log partition x := by
  rcases delivered.brought partition x made with handed | carried
  · exact handed
  · have call := carried_here reached here.running carried
    rw [here.free] at call
    cases call

/-- A caller in no call brings a task. -/
private theorem delivered_brings {caller : Caller setup.splitCount} {job : Job setup.splitCount}
    (delivered : Delivered state) (free : state.system.call caller = none)
    (brings : Brings state.system after.system caller job)
    (behind : Behind setup state.system.log (.called caller (some (setup.task job))))
    (made : ∀ partition x, Made after (.reduce partition x) →
      Made state (.reduce partition x) ∨ Carried after partition x) : Delivered after := by
  refine delivered_keep delivered brings.log ?_ (by simpa using behind) made ?_
  · intro other call
    rw [brings.calls, Function.update_apply] at call
    split at call
    · cases call
    · exact call
  · intro dispatcher newTask _ call
    have different : Caller.task dispatcher ≠ caller := by
      rintro rfl
      rw [free] at call
      cases call
    exact .inl ⟨by rw [brings.running], by simp [brings.calls, different, call]⟩

/-- Neither a map task nor a reduce task is a checkpoint. -/
private theorem behind_other {caller : Caller setup.splitCount} {job : Job setup.splitCount}
    {earlier : List (MPEventDispatcher.Event setup.splitCount Nat)}
    (other : ∀ partition x, job ≠ .checkpoint partition x) :
    Behind setup earlier (.called caller (some (setup.task job))) := by
  rintro _ partition y same
  cases setup.task_injective (Option.some.inj (MPEventDispatcher.Event.called.inj same).2)
  exact absurd rfl (other partition y)

/-- Words that another map task has passed. -/
private theorem goto_words {partition other : Fin setup.splitCount} {place : Place} {x : Nat}
    (made : Made (state.goto (.map partition) place) (.reduce other x)) :
    Made state (.reduce other x) ∨ other = partition ∧ setup.first partition ≤ x ∧
      x < place.wordsMade (setup.first (partition + 1)) := by
  by_cases own : other = partition
  · subst own
    simp only [Made, goto_places, if_true] at made
    exact .inr ⟨rfl, made⟩
  · left
    simpa [Made, own] using made

theorem delivered_turn (placed : Placed rule state) (inUp : InUp state)
    (delivered : Delivered state) (turn : Turn rule state after) : Delivered after := by
  have reached := placed.reached
  cases turn with
  | nothing => exact delivered
  | silent system events log quiet calls running =>
    refine delivered_keep delivered log (by simp [calls]) ?_ (fun _ _ made => .inl made)
      fun _ _ _ call => .inl (by simp [calls, running, call])
    rintro _ member caller partition y rfl
    cases quiet _ member
  | returned system caller newTask held log calls running =>
    refine delivered_keep delivered log ?_ ?_ (fun _ _ made => .inl made) ?_
    · intro other call
      change system.call other = some none at call
      rw [calls, Function.update_apply] at call
      split at call
      · cases call
      · exact call
    · intro event member other partition y same
      cases List.mem_singleton.mp member
      cases same
    · intro dispatcher task _ call
      by_cases own : Caller.task dispatcher = caller
      · rw [own, held] at call
        obtain rfl := Option.some.inj (Option.some.inj call)
        exact .inr ⟨caller, List.mem_singleton_self _⟩
      · exact .inl (by simp [calls, running, own, call])
  | starts system dispatcher job made unstarted before log calls running =>
    refine delivered_keep delivered log (by simp [calls]) ?_ ?_ ?_
    · intro event member other partition y same
      cases List.mem_singleton.mp member
      cases same
    · intro partition x now
      left
      cases job with
      | map own =>
        have range := placed.ranges own made
        rcases goto_words now with before | ⟨rfl, least, below⟩
        · exact before
        · simp only [entry, range, Place.wordsMade] at below
          omega
      | reduce | checkpoint => simpa [Made] using now
    · intro other newTask runs call
      have elsewhere : other ≠ dispatcher := by
        rintro rfl
        exact runs before
      exact .inl (by simp [calls, running, elsewhere, call])
  | finishes system dispatcher job ended before free log calls running =>
    refine delivered_keep delivered log (by simp [calls]) ?_ (fun _ _ made => .inl made) ?_
    · intro event member other partition y same
      cases List.mem_singleton.mp member
      cases same
    · intro other newTask runs call
      have elsewhere : other ≠ dispatcher := by
        rintro rfl
        rw [free] at call
        cases call
      exact .inl (by simp [calls, running, elsewhere, call])
  | mainCalls system partition start stop main free brings =>
    exact delivered_brings delivered free brings (behind_other (by simp)) fun _ _ made => .inl made
  | mainWaits | mainPasses => exact delivered_same delivered rfl fun _ _ made => made
  | mapCalls system dispatcher partition x place more brings =>
    refine delivered_brings delivered place.free brings (behind_other (by simp)) ?_
    intro other y now
    rcases goto_words now with before | ⟨rfl, least, below⟩
    · exact .inl before
    · by_cases last : y = x
      · subst last
        exact .inr ⟨dispatcher, brings.running ▸ place.running, by simp [brings.calls]⟩
      · left
        simp only [Place.wordsMade] at below
        simp only [Made, place.place, Place.wordsMade]
        omega
  | mapTurns dispatcher partition x place past =>
    refine delivered_same delivered rfl ?_
    intro other y now
    rcases goto_words now with before | ⟨rfl, least, below⟩
    · exact before
    · have range := placed.ranges other (placed.made (.map other) (by simp [place.place]))
      simp only [Place.wordsMade] at below
      simp only [range] at past
      simp only [Made, place.place, Place.wordsMade]
      omega
  | mapChecks system dispatcher partition x place more brings =>
    refine delivered_brings delivered place.free brings ?_ ?_
    · intro caller other y same z least below
      cases setup.task_injective (Option.some.inj (MPEventDispatcher.Event.called.inj same).2)
      apply handed_over reached delivered place
      simp only [Made, place.place, Place.wordsMade]
      exact ⟨least, below⟩
    · intro other y now
      left
      rcases goto_words now with before | ⟨rfl, range⟩
      · exact before
      · simpa [Made, place.place, Place.wordsMade] using range
  | mapEnds dispatcher partition x place past =>
    refine delivered_same delivered rfl ?_
    intro other y now
    rcases goto_words now with before | ⟨rfl, range⟩
    · exact before
    · simpa [Made, place.place, Place.wordsMade] using range
  | reads | writes | ups | upReturns =>
    exact delivered_same delivered rfl fun _ _ now => by simpa [Made] using now
  | operates => exact delivered_same delivered rfl fun _ _ now => now
  | increments taskDoneSem dispatcher woken job running pc ran =>
    obtain ⟨partition, x, incremented, rfl, place⟩ := inUp dispatcher job (by simp [pc]) running
    exact delivered_same delivered rfl fun _ _ now => by simpa [Made] using now

/-- When a checkpoint has begun, the reduce tasks of its map task for its partition are at
their ends. -/
theorem reduced (placed : Placed rule state) (delivered : Delivered state)
    {partition : Fin setup.splitCount} {x : Nat}
    (begun : state.places (.checkpoint partition (setup.destination x)) ≠ .waiting)
    (least : setup.first partition ≤ x) (below : x < setup.first (partition + 1)) :
    state.places (.reduce partition x) = .ended := by
  obtain ⟨sequenced, brought⟩ := MPEventDispatcher.reachable_brought setup.splitCount_pos placed.reached
  -- The checkpoint has started, so it was handed over in a call, behind the one for the word.
  obtain ⟨dispatcher, started⟩ := placed.started _ begun
  obtain ⟨earlier, later, startedAt⟩ := List.append_of_mem started
  obtain ⟨pushed, _⟩ := MPEventDispatcher.started_pushed sequenced startedAt
  have handed := brought.pushed dispatcher (setup.task (.checkpoint partition (setup.destination x)))
    (by
      simp only [MPEventDispatcher.System.seenAt, startedAt, MPEventDispatcher.logOf_append,
        EventDispatcher.pushedTasks_append]
      exact List.mem_append_left _ pushed)
  obtain ⟨event, inside, brings⟩ := List.mem_filterMap.mp handed
  cases event with
  | returned | dispatched => cases brings
  | called caller newTask =>
    obtain rfl : newTask = some (setup.task (.checkpoint partition (setup.destination x))) := brings
    obtain ⟨before, rest, calledAt⟩ := List.append_of_mem inside
    obtain ⟨caller', returned⟩ :=
      delivered.behind before _ rest calledAt caller partition _ rfl x least below
    -- Both have one destination, so the word's is finished there first.
    have finished :=
      MPEventDispatcher.finished_before sequenced calledAt returned rfl started
    exact placed.finished dispatcher _ finished

end EventDisp.WordCount
