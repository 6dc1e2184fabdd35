import EventDisp.General.Crowd
import EventDisp.WordCountPlaces

/-! The semaphore of the word count: each checkpoint raises it once, the main thread gets
past it after all of them, and then nobody is in it any more. -/
namespace EventDisp

/-- Whether whoever is in `up` has incremented `val_`. -/
def Semaphore.Pc.raised : Semaphore.Pc → Option Bool
  | .upLock | .increment => some false
  | .upTest | .signal | .upUnlock => some true
  | .idle | .downLock | .downTest | .wait | .sleeping | .relock | .decrement | .downUnlock => none

namespace WordCount

open Execution History Crowd
open MPEventDispatcher (Caller)
open Semaphore (ups downs)

variable {setup : Setup} {rule : MPEventDispatcher.Rule Nat} {state after : WordCount setup}

/-- All signals but one make up for what the semaphore starts with. -/
theorem Setup.initVal_eq (fits : setup.splitCount * setup.splitCount ≤ 2147483648) :
    setup.initVal = 1 - (setup.splitCount * setup.splitCount : Nat) := by
  unfold Setup.initVal
  rw [Nat.mul_assoc]
  generalize setup.splitCount * setup.splitCount = square at fits ⊢
  rw [Int.bmod_def]
  split <;> omega

/-- Whether a checkpoint has raised the semaphore. -/
def Place.signalled : Place → Nat
  | .up true | .ended => 1
  | .waiting | .words _ | .checkpoints _ | .read | .write _ | .call | .up false => 0

theorem Place.signalled_le (place : Place) : place.signalled ≤ 1 := by
  cases place with
  | up incremented => cases incremented <;> simp [signalled]
  | waiting | words | checkpoints | read | write | call | ended => simp [signalled]

/-- All checkpoints there will be. -/
def Setup.checkpoints (setup : Setup) : Finset (Job setup.splitCount) :=
  (Finset.univ ×ˢ Finset.range setup.splitCount).image fun pair => .checkpoint pair.1 pair.2

@[simp] theorem Setup.mem_checkpoints (setup : Setup) (job : Job setup.splitCount) :
    job ∈ setup.checkpoints ↔ ∃ partition x, x < setup.splitCount ∧ .checkpoint partition x = job := by
  simp [Setup.checkpoints]

theorem Setup.card_checkpoints (setup : Setup) :
    setup.checkpoints.card = setup.splitCount * setup.splitCount := by
  rw [Setup.checkpoints, Finset.card_image_of_injective, Finset.card_product, Finset.card_univ,
    Fintype.card_fin, Finset.card_range]
  intro one two same
  obtain ⟨first, second⟩ := Job.checkpoint.inj same
  exact Prod.ext first second

/-- How many checkpoints have raised the semaphore. -/
def signals (state : WordCount setup) : Nat :=
  total Place.signalled setup.checkpoints state.places

/-- The dispatcher runs the checkpoint, which is in `up`. -/
structure InSemaphore (state : WordCount setup) (dispatcher partition : Fin setup.splitCount) (x : Nat)
    (incremented : Bool) : Prop where
  running : state.system.running dispatcher = some (setup.task (.checkpoint partition x))
  place : state.places (.checkpoint partition x) = .up incremented

structure Signalled (state : WordCount setup) : Prop where
  reached : Reachable (Semaphore.program (Caller setup.splitCount) setup.initVal) state.taskDoneSem
  inside : ∀ dispatcher, state.taskDoneSem.threads (.task dispatcher) ≠ .idle →
    ∃ partition x incremented, InSemaphore state dispatcher partition x incremented ∧
      (state.taskDoneSem.threads (.task dispatcher)).raised = some incremented
  raises : ∀ dispatcher partition x, InSemaphore state dispatcher partition x false →
    state.taskDoneSem.threads (.task dispatcher) ≠ .idle
  counted : ups state.taskDoneSem.log = signals state
  threads : ∀ number, state.taskDoneSem.threads (.thread number) ≠ .idle → number = 0 ∧
    state.main = .waiting ∧ (state.taskDoneSem.threads (.thread number)).raised = none
  down : state.main = .waiting → state.taskDoneSem.threads (.thread 0) = .idle ∨
    state.taskDoneSem.threads (.thread 0) = .downUnlock → 0 < downs state.taskDoneSem.log
  passed : state.main = .checking → 0 < downs state.taskDoneSem.log
  quiet : 0 < downs state.taskDoneSem.log →
    ∀ dispatcher, state.taskDoneSem.threads (.task dispatcher) = .idle

/-- Whoever is in the semaphore is a checkpoint. -/
theorem Signalled.inUp (signalled : Signalled state) : InUp state := by
  intro dispatcher job busy runs
  obtain ⟨partition, x, incremented, held, _⟩ := signalled.inside dispatcher busy
  rw [held.running] at runs
  obtain rfl := setup.task_injective (Option.some.inj runs)
  exact ⟨partition, x, incremented, rfl, held.place⟩

section Bounded

variable (fits : setup.splitCount * setup.splitCount ≤ 2147483648)

include fits in
private theorem initVal_bounded :
    Semaphore.intMin ≤ setup.initVal ∧ setup.initVal ≤ Semaphore.intMax := by
  rw [Setup.initVal_eq fits]
  simp only [Semaphore.intMin, Semaphore.intMax]
  omega

include fits in
theorem Signalled.sound (signalled : Signalled state) :
    Semaphore.Sound setup.initVal state.taskDoneSem :=
  Semaphore.reachable_sound (initVal_bounded fits) signalled.reached

/-- No checkpoint raises it twice. -/
theorem Signalled.ups_le (signalled : Signalled state) :
    ups state.taskDoneSem.log ≤ setup.splitCount * setup.splitCount := by
  rw [signalled.counted, ← setup.card_checkpoints]
  exact total_le_card fun _ _ => Place.signalled_le _

include fits in
/-- Where the balance is above zero, all checkpoints have raised it. -/
private theorem Signalled.full (signalled : Signalled state)
    (balance : 0 < setup.initVal + ups state.taskDoneSem.log)
    (partition : Fin setup.splitCount) {x : Nat} (inside : x < setup.splitCount) :
    (state.places (.checkpoint partition x)).signalled = 1 := by
  rw [Setup.initVal_eq fits] at balance
  have full : setup.checkpoints.card ≤ signals state := by
    rw [setup.card_checkpoints, ← signalled.counted]
    omega
  apply (card_le_total fun _ _ => Place.signalled_le _).mp full
  simpa using inside

include fits in
/-- When the value has gone down, all checkpoints have raised it. -/
theorem Signalled.all (signalled : Signalled state) (taken : 0 < downs state.taskDoneSem.log)
    (partition : Fin setup.splitCount) {x : Nat} (inside : x < setup.splitCount) :
    (state.places (.checkpoint partition x)).signalled = 1 := by
  obtain ⟨event, member, down⟩ := List.countP_pos_iff.mp taken
  obtain ⟨earlier, later, shape⟩ := List.append_of_mem member
  have balance := (signalled.sound fits).orderly earlier event later shape
  have before : ups earlier ≤ ups state.taskDoneSem.log := by
    rw [shape, ups, ups, List.countP_append]
    omega
  cases event with
  | incremented who => cases down
  | decremented who =>
    simp only [Semaphore.Taken] at balance
    exact signalled.full fits (by omega) partition inside

include fits in
/-- By the time somebody takes, nobody is in `up` any more. -/
private theorem Signalled.quiet_decrement {who : Caller setup.splitCount} (signalled : Signalled state)
    (placed : Placed rule state) (pc : state.taskDoneSem.threads who = .decrement)
    (dispatcher : Fin setup.splitCount) : state.taskDoneSem.threads (.task dispatcher) = .idle := by
  have sound := signalled.sound fits
  have positive : 0 < state.taskDoneSem.val := by
    have sees := sound.sees who
    rw [pc] at sees
    exact sees
  by_contra busy
  obtain ⟨partition, x, incremented, held, phase⟩ := signalled.inside dispatcher busy
  have counted := sound.counted
  have begun : state.places (.checkpoint partition x) ≠ .waiting := by simp [held.place]
  have raised := signalled.full fits (by omega) partition (placed.checkpoint_lt begun)
  rw [held.place] at raised
  have locked : (state.taskDoneSem.threads (.task dispatcher)).locks = true := by
    cases incremented with
    | false => cases raised
    | true =>
      cases place : state.taskDoneSem.threads (.task dispatcher) <;>
        simp_all [Semaphore.Pc.raised, Semaphore.Pc.locks]
  have taking : (state.taskDoneSem.threads who).locks = true := by simp [pc, Semaphore.Pc.locks]
  have same := sound.guards.alone locked taking
  rw [same, pc] at phase
  cases phase

end Bounded

section Steps

variable (fits : setup.splitCount * setup.splitCount ≤ 2147483648)

/-- The semaphore is left alone, and so are the checkpoints in it. -/
private theorem signalled_keep (signalled : Signalled state)
    (taskDoneSem : after.taskDoneSem = state.taskDoneSem)
    (waits : after.main = .waiting ↔ state.main = .waiting)
    (checks : after.main = .checking → state.main = .checking)
    (stays : ∀ dispatcher partition x incremented,
      state.taskDoneSem.threads (.task dispatcher) ≠ .idle →
      InSemaphore state dispatcher partition x incremented →
      InSemaphore after dispatcher partition x incremented)
    (old : ∀ dispatcher partition x, InSemaphore after dispatcher partition x false →
      InSemaphore state dispatcher partition x false)
    (counted : signals after = signals state) : Signalled after where
  reached := taskDoneSem ▸ signalled.reached
  inside := by
    rw [taskDoneSem]
    intro dispatcher busy
    obtain ⟨partition, x, incremented, held, phase⟩ := signalled.inside dispatcher busy
    exact ⟨partition, x, incremented, stays dispatcher partition x incremented busy held, phase⟩
  raises := by
    rw [taskDoneSem]
    exact fun dispatcher partition x held =>
      signalled.raises dispatcher partition x (old dispatcher partition x held)
  counted := by rw [taskDoneSem, signalled.counted, counted]
  threads := by simpa only [taskDoneSem, waits] using signalled.threads
  down := by simpa only [taskDoneSem, waits] using signalled.down
  passed := fun checking => taskDoneSem ▸ signalled.passed (checks checking)
  quiet := by simpa only [taskDoneSem] using signalled.quiet

/-- A task that is none of the checkpoints goes on, or none does. -/
private theorem signalled_other {job : Job setup.splitCount} {place : Place}
    (signalled : Signalled state) (taskDoneSem : after.taskDoneSem = state.taskDoneSem)
    (waits : after.main = .waiting ↔ state.main = .waiting)
    (checks : after.main = .checking → state.main = .checking)
    (running : after.system.running = state.system.running)
    (places : after.places = Function.update state.places job place)
    (other : ∀ partition x, job ≠ .checkpoint partition x) : Signalled after := by
  have stays (partition : Fin setup.splitCount) (x : Nat) :
      after.places (.checkpoint partition x) = state.places (.checkpoint partition x) := by
    rw [places, Function.update_of_ne (other partition x).symm]
  refine signalled_keep signalled taskDoneSem waits checks ?_ ?_ ?_
  · rintro dispatcher partition x incremented _ ⟨runs, place⟩
    exact ⟨running ▸ runs, (stays partition x).trans place⟩
  · rintro dispatcher partition x ⟨runs, place⟩
    exact ⟨running ▸ runs, stays partition x ▸ place⟩
  · rw [signals, signals, places]
    apply total_outside
    rw [Setup.mem_checkpoints]
    rintro ⟨partition, x, _, own⟩
    exact other partition x own.symm

private theorem signals_goto {job : Job setup.splitCount} {place : Place}
    (same : place.signalled = (state.places job).signalled) :
    signals (state.goto job place) = signals state := by
  by_cases member : job ∈ setup.checkpoints
  · have moved := total_move Place.signalled state.places place member
    simp only [signals, goto]
    omega
  · exact total_outside Place.signalled state.places place member

/-- A task begins, in no semaphore. -/
private theorem signalled_starts {system : MPEventDispatcher.System setup.splitCount Nat}
    {dispatcher : Fin setup.splitCount} {job : Job setup.splitCount} (signalled : Signalled state)
    (waiting : state.places job = .waiting) (before : state.system.running dispatcher = none)
    (running : system.running =
      Function.update state.system.running dispatcher (some (setup.task job))) :
    Signalled ({ state with system }.goto job (state.entry job)) := by
  refine signalled_keep signalled rfl Iff.rfl id ?_ ?_ (signals_goto ?_)
  · rintro other partition x incremented _ ⟨runs, place⟩
    have different : .checkpoint partition x ≠ job := by
      rintro rfl
      rw [waiting] at place
      cases place
    have elsewhere : other ≠ dispatcher := by
      rintro rfl
      rw [before] at runs
      cases runs
    exact ⟨by simpa [running, elsewhere] using runs, by simpa [different] using place⟩
  · rintro other partition x ⟨runs, place⟩
    have different : .checkpoint partition x ≠ job := by
      rintro rfl
      simp [entry] at place
    rw [goto_places, if_neg different] at place
    have elsewhere : other ≠ dispatcher := by
      rintro rfl
      simp only [goto_system, running, Function.update_self] at runs
      exact different (setup.task_injective (Option.some.inj runs)).symm
    simp only [goto_system, running, Function.update_of_ne elsewhere] at runs
    exact ⟨runs, place⟩
  · rw [waiting]
    cases job <;> rfl

/-- A task that ends is in no semaphore. -/
private theorem signalled_finishes {system : MPEventDispatcher.System setup.splitCount Nat}
    {dispatcher : Fin setup.splitCount} {job : Job setup.splitCount} (signalled : Signalled state)
    (ended : state.places job = .ended)
    (before : state.system.running dispatcher = some (setup.task job))
    (running : system.running = Function.update state.system.running dispatcher none) :
    Signalled { state with system } := by
  refine signalled_keep signalled rfl Iff.rfl id ?_ ?_ rfl
  · rintro other partition x incremented _ ⟨runs, place⟩
    have elsewhere : other ≠ dispatcher := by
      rintro rfl
      rw [before] at runs
      cases setup.task_injective (Option.some.inj runs)
      rw [ended] at place
      cases place
    exact ⟨by simpa [running, elsewhere] using runs, place⟩
  · rintro other partition x ⟨runs, place⟩
    simp only [running, Function.update_apply] at runs
    split at runs
    · cases runs
    · exact ⟨runs, place⟩

/-- A checkpoint runs at one dispatcher. -/
private theorem runs_here {dispatcher other : Fin setup.splitCount} {job : Job setup.splitCount}
    (placed : Placed rule state) (here : state.system.running dispatcher = some (setup.task job))
    (there : state.system.running other = some (setup.task job)) : other = dispatcher := by
  obtain ⟨sequenced, _⟩ := MPEventDispatcher.reachable_brought setup.splitCount_pos placed.reached
  exact MPEventDispatcher.running_alone sequenced there here rfl

include fits in
/-- A checkpoint calls `up`. -/
private theorem signalled_ups {dispatcher partition : Fin setup.splitCount} {x : Nat}
    (signalled : Signalled state) (placed : Placed rule state)
    (place : At state dispatcher (.checkpoint partition x) .call) :
    Signalled ({ state with taskDoneSem := state.taskDoneSem.goto (.task dispatcher) .upLock }.goto
      (.checkpoint partition x) (.up false)) where
  reached := by
    have allowed : (Semaphore.program (Caller setup.splitCount) setup.initVal).allowed
        state.taskDoneSem (.up (.task dispatcher)) := place.quiet
    exact signalled.reached.step allowed rfl
  inside := by
    intro other busy
    by_cases own : other = dispatcher
    · subst own
      exact ⟨partition, x, false, ⟨place.running, by simp⟩, by simp [goto, Semaphore.Pc.raised]⟩
    · have kept : state.taskDoneSem.threads (.task other) ≠ .idle := by simpa [goto, own] using busy
      obtain ⟨there, y, incremented, held, phase⟩ := signalled.inside other kept
      have different : Job.checkpoint there y ≠ .checkpoint partition x := by
        intro same
        have wrong := held.place
        rw [same, place.place] at wrong
        cases wrong
      exact ⟨there, y, incremented, ⟨held.running, by simpa [different] using held.place⟩,
        by simpa [goto, own] using phase⟩
  raises := by
    intro other there y held
    by_cases own : other = dispatcher
    · simp [goto, own]
    · have different : Job.checkpoint there y ≠ .checkpoint partition x := by
        intro same
        exact own (runs_here placed place.running (same ▸ held.running))
      have before : InSemaphore state other there y false :=
        ⟨held.running, by simpa [different] using held.place⟩
      simpa [goto, own] using signalled.raises other there y before
  counted := signalled.counted.trans (signals_goto (by simp [place.place, Place.signalled])).symm
  threads := by simpa [goto] using signalled.threads
  down := by
    intro waiting
    simpa [goto] using signalled.down waiting
  passed := signalled.passed
  quiet := by
    intro taken
    have begun : state.places (.checkpoint partition x) ≠ .waiting := by simp [place.place]
    have raised := signalled.all fits taken partition (placed.checkpoint_lt begun)
    rw [place.place] at raised
    cases raised

/-- A checkpoint returns from `up`. -/
private theorem signalled_upReturns {dispatcher partition : Fin setup.splitCount} {x : Nat}
    {incremented : Bool} (signalled : Signalled state) (placed : Placed rule state)
    (place : At state dispatcher (.checkpoint partition x) (.up incremented)) :
    Signalled (state.goto (.checkpoint partition x) .ended) := by
  have raised : incremented = true := by
    cases incremented with
    | true => rfl
    | false => exact absurd place.quiet (signalled.raises dispatcher partition x ⟨place.running, place.place⟩)
  refine signalled_keep signalled rfl Iff.rfl id ?_ ?_ (signals_goto (by simp [place.place, raised, Place.signalled]))
  · rintro other there y phase busy ⟨runs, held⟩
    have different : Job.checkpoint there y ≠ .checkpoint partition x := by
      intro same
      obtain rfl := runs_here placed place.running (same ▸ runs)
      exact busy place.quiet
    exact ⟨runs, by simpa [different] using held⟩
  · rintro other there y ⟨runs, held⟩
    have different : Job.checkpoint there y ≠ .checkpoint partition x := by
      intro same
      simp [same] at held
    exact ⟨runs, by simpa [different] using held⟩

/-- The main thread calls `down`. -/
private theorem signalled_mainWaits (signalled : Signalled state)
    (idle : state.taskDoneSem.threads (.thread 0) = .idle) :
    Signalled { state with
      main := .waiting, taskDoneSem := state.taskDoneSem.goto (.thread 0) .downLock } where
  reached := by
    have allowed : (Semaphore.program (Caller setup.splitCount) setup.initVal).allowed
        state.taskDoneSem (.down (.thread 0)) := idle
    exact signalled.reached.step allowed rfl
  inside := by
    intro dispatcher busy
    obtain ⟨partition, x, incremented, held, phase⟩ :=
      signalled.inside dispatcher (by simpa using busy)
    exact ⟨partition, x, incremented, ⟨held.running, held.place⟩, by simpa using phase⟩
  raises := by
    intro dispatcher partition x held
    simpa using signalled.raises dispatcher partition x ⟨held.running, held.place⟩
  counted := signalled.counted
  threads := by
    intro number busy
    by_cases first : number = 0
    · simp [first, Semaphore.Pc.raised]
    · have before := signalled.threads number (by simpa [first] using busy)
      exact absurd before.1 first
  down := by simp
  passed := by
    intro wrong
    cases wrong
  quiet := by simpa using signalled.quiet

/-- The main thread is past the semaphore. -/
private theorem signalled_mainPasses (signalled : Signalled state) (main : state.main = .waiting)
    (idle : state.taskDoneSem.threads (.thread 0) = .idle) :
    Signalled { state with main := .checking } where
  reached := signalled.reached
  inside := by
    intro dispatcher busy
    obtain ⟨partition, x, incremented, held, phase⟩ := signalled.inside dispatcher busy
    exact ⟨partition, x, incremented, ⟨held.running, held.place⟩, phase⟩
  raises := fun dispatcher partition x held =>
    signalled.raises dispatcher partition x ⟨held.running, held.place⟩
  counted := signalled.counted
  threads := by
    intro number busy
    obtain ⟨rfl, _⟩ := signalled.threads number busy
    exact absurd idle busy
  down := by
    intro wrong
    cases wrong
  passed := fun _ => signalled.down main (.inl idle)
  quiet := signalled.quiet

/-- Unless it is one of the checkpoints, a thread in the semaphore is the main thread. -/
private theorem signalled_thread {taskDoneSem : Semaphore (Caller setup.splitCount)}
    (signalled : Signalled state)
    (reached : Reachable (Semaphore.program (Caller setup.splitCount) setup.initVal) taskDoneSem)
    (tasks : ∀ dispatcher, taskDoneSem.threads (.task dispatcher) =
      state.taskDoneSem.threads (.task dispatcher))
    (others : ∀ number, number ≠ 0 → taskDoneSem.threads (.thread number) = .idle)
    (waiting : state.main = .waiting) (outside : (taskDoneSem.threads (.thread 0)).raised = none)
    (counted : ups taskDoneSem.log = ups state.taskDoneSem.log)
    (down : taskDoneSem.threads (.thread 0) = .idle ∨ taskDoneSem.threads (.thread 0) = .downUnlock →
      0 < downs taskDoneSem.log)
    (quiet : 0 < downs taskDoneSem.log →
      ∀ dispatcher, state.taskDoneSem.threads (.task dispatcher) = .idle) :
    Signalled { state with taskDoneSem } where
  reached := reached
  inside := by
    intro dispatcher busy
    change taskDoneSem.threads (.task dispatcher) ≠ .idle at busy
    rw [tasks] at busy
    obtain ⟨partition, x, incremented, held, phase⟩ := signalled.inside dispatcher busy
    exact ⟨partition, x, incremented, ⟨held.running, held.place⟩, (tasks dispatcher).symm ▸ phase⟩
  raises := by
    intro dispatcher partition x held
    change taskDoneSem.threads (.task dispatcher) ≠ .idle
    rw [tasks]
    exact signalled.raises dispatcher partition x ⟨held.running, held.place⟩
  counted := counted.trans signalled.counted
  threads := by
    intro number busy
    by_cases first : number = 0
    · subst first
      exact ⟨rfl, waiting, outside⟩
    · exact absurd (others number first) busy
  down := fun _ => down
  passed := by
    intro wrong
    change state.main = .checking at wrong
    rw [waiting] at wrong
    cases wrong
  quiet := by
    intro taken dispatcher
    exact (tasks dispatcher).trans (quiet taken dispatcher)

/-- What a thread outside of `up` does next. -/
private theorem goes_outside {before later : Semaphore.Pc} (goes : before.Goes later)
    (outside : before.raised = none) : later.raised = none ∧
      (later = .idle ∨ later = .downUnlock → before = .downUnlock ∨ before = .decrement) ∧
      (before ≠ .decrement → ∀ who : Caller setup.splitCount, before.logs who = []) := by
  cases goes <;> simp_all [Semaphore.Pc.raised, Semaphore.Pc.logs]

include fits in
/-- The main thread takes a step in the semaphore. -/
private theorem signalled_down {taskDoneSem : Semaphore (Caller setup.splitCount)} {number : Nat}
    {woken : Option (Caller setup.splitCount)} (signalled : Signalled state)
    (placed : Placed rule state) (allowed : state.taskDoneSem.Allowed (.advance (.thread number) woken))
    (ran : state.taskDoneSem.exec (.advance (.thread number) woken) = .ok taskDoneSem) :
    Signalled { state with taskDoneSem } := by
  obtain ⟨goes, others, log⟩ := Semaphore.advance_goes allowed ran
  have busy : state.taskDoneSem.threads (.thread number) ≠ .idle := by
    intro idle
    rw [idle] at goes
    cases goes
  obtain ⟨rfl, waiting, outside⟩ := signalled.threads number busy
  obtain ⟨still, leaves, silent⟩ := goes_outside goes outside
  have permitted : (Semaphore.program (Caller setup.splitCount) setup.initVal).allowed
      state.taskDoneSem (.advance (.thread 0) woken) := allowed
  refine signalled_thread signalled (signalled.reached.step permitted ran) ?_ ?_ waiting still ?_ ?_ ?_
  · intro dispatcher
    rcases others (.task dispatcher) (by simp) with same | ⟨asleep, _⟩
    · exact same
    · obtain ⟨_, _, _, _, phase⟩ := signalled.inside dispatcher (by simp [asleep])
      simp [asleep, Semaphore.Pc.raised] at phase
  · intro other different
    have idle : state.taskDoneSem.threads (.thread other) = .idle := by
      by_contra busy
      exact different (signalled.threads other busy).1
    rcases others (.thread other) (by simpa using different) with same | ⟨asleep, _⟩
    · exact same.trans idle
    · rw [idle] at asleep
      cases asleep
  · rw [log]
    cases pc : state.taskDoneSem.threads (.thread 0) <;>
      simp_all [Semaphore.ups, Semaphore.Pc.logs, Semaphore.Pc.raised]
  · intro left
    rcases leaves left with unlocks | takes
    · have taken := signalled.down waiting (.inr unlocks)
      rw [log, silent (by simp [unlocks]), List.append_nil]
      exact taken
    · rw [log, takes]
      simp [Semaphore.downs, Semaphore.Pc.logs]
  · intro taken
    by_cases takes : state.taskDoneSem.threads (.thread 0) = .decrement
    · exact signalled.quiet_decrement fits placed takes
    · rw [log, silent takes, List.append_nil] at taken
      exact signalled.quiet taken

/-- A sleeper wakes by itself. -/
private theorem signalled_wake {taskDoneSem : Semaphore (Caller setup.splitCount)}
    {who : Caller setup.splitCount} (signalled : Signalled state)
    (allowed : state.taskDoneSem.Allowed (.wake who))
    (ran : state.taskDoneSem.exec (.wake who) = .ok taskDoneSem) :
    Signalled { state with taskDoneSem } := by
  have asleep : state.taskDoneSem.threads who = .sleeping := allowed
  have permitted : (Semaphore.program (Caller setup.splitCount) setup.initVal).allowed
      state.taskDoneSem (.wake who) := allowed
  have reached := signalled.reached.step permitted ran
  cases ran
  cases who with
  | task dispatcher =>
    obtain ⟨_, _, _, _, phase⟩ := signalled.inside dispatcher (by simp [asleep])
    simp [asleep, Semaphore.Pc.raised] at phase
  | thread number =>
    obtain ⟨rfl, waiting, outside⟩ := signalled.threads number (by simp [asleep])
    refine signalled_thread signalled reached (by simp) ?_ waiting (by simp [Semaphore.Pc.raised]) rfl
      (by simp) signalled.quiet
    intro other different
    by_contra busy
    exact different (signalled.threads other (by simpa [different] using busy)).1

/-- What a thread in `up` does next. -/
private theorem goes_inside {before later : Semaphore.Pc} {incremented : Bool}
    (goes : before.Goes later) (inside : before.raised = some incremented) :
    (later = .idle ∧ incremented = true ∨
      later.raised = some (incremented || decide (before = .increment))) ∧
      ∀ who : Caller setup.splitCount, before.logs who =
        if before = .increment then [.incremented who] else [] := by
  cases goes <;> simp_all [Semaphore.Pc.raised, Semaphore.Pc.logs]

/-- A checkpoint takes a step in `up`; when it increments the value, that is noted. -/
private theorem signalled_up {dispatcher partition : Fin setup.splitCount} {x : Nat}
    {incremented later : Bool} {woken : Option (Caller setup.splitCount)}
    (signalled : Signalled state) (placed : Placed rule state)
    (allowed : state.taskDoneSem.Allowed (.advance (.task dispatcher) woken))
    (ran : state.taskDoneSem.exec (.advance (.task dispatcher) woken) = .ok after.taskDoneSem)
    (main : after.main = state.main) (system : after.system = state.system)
    (held : InSemaphore state dispatcher partition x incremented)
    (places : after.places = Function.update state.places (.checkpoint partition x) (.up later))
    (phase : after.taskDoneSem.threads (.task dispatcher) = .idle ∧ later = true ∨
      (after.taskDoneSem.threads (.task dispatcher)).raised = some later)
    (counted : ups after.taskDoneSem.log = signals after)
    (downs : downs after.taskDoneSem.log = downs state.taskDoneSem.log) : Signalled after := by
  obtain ⟨goes, others, _⟩ := Semaphore.advance_goes allowed ran
  have busy : state.taskDoneSem.threads (.task dispatcher) ≠ .idle := by
    intro idle
    rw [idle] at goes
    cases goes
  have untaken : ¬ 0 < Semaphore.downs state.taskDoneSem.log := fun taken =>
    busy (signalled.quiet taken dispatcher)
  have tasks (other : Fin setup.splitCount) (different : other ≠ dispatcher) :
      after.taskDoneSem.threads (.task other) = state.taskDoneSem.threads (.task other) := by
    rcases others (.task other) (by simpa using different) with same | ⟨asleep, _⟩
    · exact same
    · obtain ⟨_, _, _, _, phase⟩ := signalled.inside other (by simp [asleep])
      simp [asleep, Semaphore.Pc.raised] at phase
  have threads (number : Nat) :
      after.taskDoneSem.threads (.thread number) = state.taskDoneSem.threads (.thread number) ∨
        state.taskDoneSem.threads (.thread number) = .sleeping ∧
          after.taskDoneSem.threads (.thread number) = .relock :=
    others (.thread number) (by simp)
  have elsewhere {other there : Fin setup.splitCount} {y : Nat} (different : other ≠ dispatcher)
      (runs : state.system.running other = some (setup.task (.checkpoint there y))) :
      Job.checkpoint there y ≠ .checkpoint partition x := by
    intro same
    exact different (runs_here placed held.running (same ▸ runs))
  refine ⟨?_, ?_, ?_, counted, ?_, ?_, ?_, ?_⟩
  · have permitted : (Semaphore.program (Caller setup.splitCount) setup.initVal).allowed
        state.taskDoneSem (.advance (.task dispatcher) woken) := allowed
    exact signalled.reached.step permitted ran
  · intro other now
    by_cases own : other = dispatcher
    · subst own
      refine ⟨partition, x, later, ⟨system ▸ held.running, by simp [places]⟩, ?_⟩
      exact phase.resolve_left fun left => now left.1
    · rw [tasks other own] at now ⊢
      obtain ⟨there, y, raised, inside, same⟩ := signalled.inside other now
      refine ⟨there, y, raised, ⟨system ▸ inside.running, ?_⟩, same⟩
      rw [places, Function.update_of_ne (elsewhere own inside.running)]
      exact inside.place
  · intro other there y inside
    have runs : state.system.running other = some (setup.task (.checkpoint there y)) :=
      system ▸ inside.running
    have place := inside.place
    rw [places] at place
    by_cases own : other = dispatcher
    · subst own
      rw [held.running] at runs
      cases setup.task_injective (Option.some.inj runs)
      rw [Function.update_self] at place
      cases place
      rcases phase with ⟨_, wrong⟩ | raised
      · cases wrong
      · intro idle
        rw [idle] at raised
        cases raised
    · rw [Function.update_of_ne (elsewhere own runs)] at place
      rw [tasks other own]
      exact signalled.raises other there y ⟨runs, place⟩
  · intro number now
    rw [main]
    rcases threads number with same | ⟨asleep, relocks⟩
    · rw [same] at now ⊢
      exact signalled.threads number now
    · obtain ⟨first, waiting, _⟩ := signalled.threads number (by simp [asleep])
      exact ⟨first, waiting, by simp [relocks, Semaphore.Pc.raised]⟩
  · intro waiting left
    rw [main] at waiting
    rcases threads 0 with same | ⟨_, relocks⟩
    · rw [downs]
      exact signalled.down waiting (same ▸ left)
    · simp [relocks] at left
  · intro checking
    rw [main] at checking
    exact absurd (signalled.passed checking) untaken
  · intro taken
    exact absurd (downs ▸ taken) untaken

include fits in
theorem signalled_turn (placed : Placed rule state) (signalled : Signalled state)
    (turn : Turn rule state after) : Signalled after := by
  cases turn with
  | nothing => exact signalled
  | silent system events log quiet calls running =>
    exact signalled_keep signalled rfl Iff.rfl id (fun _ _ _ _ _ held => ⟨running ▸ held.running, held.place⟩)
      (fun _ _ _ held => ⟨running ▸ held.running, held.place⟩) rfl
  | returned system caller newTask held log calls running =>
    exact signalled_keep signalled rfl Iff.rfl id (fun _ _ _ _ _ held => ⟨running ▸ held.running, held.place⟩)
      (fun _ _ _ held => ⟨running ▸ held.running, held.place⟩) rfl
  | starts system dispatcher job made unstarted before log calls running =>
    exact signalled_starts signalled (placed.waits unstarted) before running
  | finishes system dispatcher job ended before free log calls running =>
    exact signalled_finishes signalled ended before running
  | mainCalls system partition start stop main free brings =>
    refine signalled_keep signalled rfl (by simp [main]) (by simp)
      (fun _ _ _ _ _ held => ⟨brings.running ▸ held.running, held.place⟩)
      (fun _ _ _ held => ⟨brings.running ▸ held.running, held.place⟩) rfl
  | mainWaits partition start stop main past idle => exact signalled_mainWaits signalled idle
  | mainPasses main idle => exact signalled_mainPasses signalled main idle
  | mapCalls system dispatcher partition x place more brings =>
    exact signalled_other signalled rfl Iff.rfl id brings.running rfl (by simp)
  | mapTurns | mapEnds => exact signalled_other signalled rfl Iff.rfl id rfl rfl (by simp)
  | mapChecks system dispatcher partition x place more brings =>
    exact signalled_other signalled rfl Iff.rfl id brings.running rfl (by simp)
  | reads | writes => exact signalled_other signalled rfl Iff.rfl id rfl rfl (by simp)
  | ups dispatcher partition x place => exact signalled_ups fits signalled placed place
  | upReturns dispatcher partition x incremented place =>
    exact signalled_upReturns signalled placed place
  | operates taskDoneSem move inside allowed ran unnoted =>
    cases move with
    | up who => exact absurd rfl (inside who).1
    | down who => exact absurd rfl (inside who).2
    | wake who => exact signalled_wake signalled allowed ran
    | advance who woken =>
      cases who with
      | thread number => exact signalled_down fits signalled placed allowed ran
      | task dispatcher =>
        obtain ⟨goes, _, log⟩ := Semaphore.advance_goes allowed ran
        have busy : state.taskDoneSem.threads (.task dispatcher) ≠ .idle := by
          intro idle
          rw [idle] at goes
          cases goes
        obtain ⟨partition, x, incremented, held, phase⟩ := signalled.inside dispatcher busy
        obtain ⟨left, logs⟩ := goes_inside goes phase
        have quiet : state.taskDoneSem.threads (.task dispatcher) ≠ .increment := by
          intro pc
          have none := unnoted dispatcher woken rfl pc
          rw [held.running] at none
          cases none
        rw [logs, if_neg quiet, List.append_nil] at log
        refine signalled_up signalled placed allowed ran rfl rfl held ?_ (by simpa [quiet] using left)
          ?_ ?_
        · rw [← held.place]
          exact (Function.update_eq_self _ _).symm
        · exact (congrArg ups log).trans signalled.counted
        · exact congrArg downs log
  | increments taskDoneSem dispatcher woken job running pc ran =>
    have allowed : state.taskDoneSem.Allowed (.advance (.task dispatcher) woken) := by
      simp [Semaphore.Allowed, Semaphore.Ready, pc]
    obtain ⟨goes, _, log⟩ := Semaphore.advance_goes allowed ran
    obtain ⟨partition, x, incremented, held, phase⟩ := signalled.inside dispatcher (by simp [pc])
    have same := held.running
    rw [running] at same
    obtain rfl := setup.task_injective (Option.some.inj same)
    obtain ⟨left, logs⟩ := goes_inside goes phase
    have raised : incremented = false := by simpa [pc, Semaphore.Pc.raised] using phase.symm
    subst raised
    rw [logs, if_pos pc] at log
    refine signalled_up signalled placed allowed ran rfl rfl held rfl (.inr ?_) ?_ ?_
    · change (taskDoneSem.threads (.task dispatcher)).raised = some true
      simpa [pc] using left
    · have member : .checkpoint partition x ∈ setup.checkpoints := by
        have begun : state.places (.checkpoint partition x) ≠ .waiting := by simp [held.place]
        simpa using placed.checkpoint_lt begun
      have moved := total_move Place.signalled state.places (.up true) member
      have before := signalled.counted
      rw [held.place] at moved
      simp only [signals, Place.signalled] at before moved
      change ups taskDoneSem.log = total Place.signalled setup.checkpoints
        (Function.update state.places (.checkpoint partition x) (.up true))
      rw [log]
      simp only [Semaphore.ups, List.countP_append, List.countP_singleton, if_true] at before ⊢
      omega
    · change Semaphore.downs taskDoneSem.log = _
      rw [log]
      simp [Semaphore.downs]

end Steps

end WordCount
end EventDisp
