import EventDisp.WordCountSteps

/-! Where the tasks of the word count are, in every interleaving: a task is somewhere in its
body exactly between its start and its end at a dispatcher, and makes its own tasks in the
order of its loops. -/
namespace EventDisp.WordCount

open Execution
open MPEventDispatcher (Caller handed)

variable {setup : Setup} {rule : MPEventDispatcher.Rule Nat} {state after : WordCount setup}

/-- The place is one of the task's. -/
def Setup.Fits (setup : Setup) : Job setup.splitCount → Place → Prop
  | .map partition, .words x =>
    setup.first partition ≤ x ∧ x ≤ setup.first (partition + 1)
  | .map _, .checkpoints x => x ≤ setup.splitCount
  | .reduce .., .read | .reduce .., .write _ | .checkpoint .., .call | .checkpoint .., .up _ => True
  | _, .waiting | _, .ended => True
  | _, _ => False

structure Placed (rule : MPEventDispatcher.Rule Nat) (state : WordCount setup) : Prop where
  reached : Reachable (MPEventDispatcher.program setup.splitCount rule) state.system
  known : Known state
  main : ∀ partition start stop, state.main = .enqueueing partition start stop →
    partition ≤ setup.splitCount ∧ start = setup.first partition ∧ stop = setup.first (partition + 1)
  ranges : ∀ partition, Made state (.map partition) →
    state.ranges partition = (setup.first partition, setup.first (partition + 1))
  fits : ∀ job, setup.Fits job (state.places job)
  made : ∀ job, state.places job ≠ .waiting → Made state job
  running : ∀ dispatcher job, state.system.running dispatcher = some (setup.task job) →
    state.places job ≠ .waiting
  live : ∀ job, state.places job ≠ .waiting → state.places job ≠ .ended →
    ∃ dispatcher, state.system.running dispatcher = some (setup.task job)
  started : ∀ job, state.places job ≠ .waiting →
    ∃ dispatcher, .dispatched dispatcher (.started (setup.task job)) ∈ state.system.log
  finished : ∀ dispatcher job,
    .dispatched dispatcher (.finished (setup.task job)) ∈ state.system.log → state.places job = .ended

/-- Only checkpoints are in the semaphore. -/
def InUp (state : WordCount setup) : Prop :=
  ∀ dispatcher job, state.taskDoneSem.threads (.task dispatcher) ≠ .idle →
    state.system.running dispatcher = some (setup.task job) →
    ∃ partition x incremented, job = .checkpoint partition x ∧ state.places job = .up incremented

@[simp] theorem goto_places (state : WordCount setup) (job other : Job setup.splitCount)
    (place : Place) :
    (state.goto job place).places other = if other = job then place else state.places other :=
  Function.update_apply ..

@[simp] theorem goto_system (state : WordCount setup) (job : Job setup.splitCount) (place : Place) :
    (state.goto job place).system = state.system := rfl

/-- What every step does but the start of a task and its end. -/
structure Keeps (state after : WordCount setup) : Prop where
  grows : ∀ job, Made state job → Made after job
  handed : ∀ task ∈ handed after.system.log, task ∈ handed state.system.log ∨
    ∃ job, task = setup.task job ∧ Made after job
  waits : ∀ job, after.places job = .waiting ↔ state.places job = .waiting
  ends : ∀ job, state.places job = .ended → after.places job = .ended
  running : after.system.running = state.system.running
  started : ∀ dispatcher task, .dispatched dispatcher (.started task) ∈ state.system.log →
    .dispatched dispatcher (.started task) ∈ after.system.log
  finished : ∀ dispatcher task, .dispatched dispatcher (.finished task) ∈ after.system.log →
    .dispatched dispatcher (.finished task) ∈ state.system.log

/-- Nothing of this changes. -/
private theorem Keeps.same (system : after.system = state.system) (places : after.places = state.places)
    (grows : ∀ job, Made state job → Made after job) : Keeps state after where
  grows := grows
  handed := by
    rw [system]
    exact fun _ inside => .inl inside
  waits := by simp [places]
  ends := by simp [places]
  running := by rw [system]
  started := by simp [system]
  finished := by simp [system]

/-- A caller brings a task that is counted as made. -/
private theorem Keeps.brings {caller : Caller setup.splitCount} {job : Job setup.splitCount}
    (brings : Brings state.system after.system caller job)
    (grows : ∀ job, Made state job → Made after job) (made : Made after job)
    (waits : ∀ job, after.places job = .waiting ↔ state.places job = .waiting)
    (ends : ∀ job, state.places job = .ended → after.places job = .ended) : Keeps state after where
  grows := grows
  handed := by
    intro task inside
    rw [brings.log] at inside
    simp only [MPEventDispatcher.handed, List.filterMap_append, List.mem_append] at inside
    rcases inside with before | now
    · exact .inl before
    · exact .inr ⟨job, by simpa using now, made⟩
  waits := waits
  ends := ends
  running := brings.running
  started := by
    intro dispatcher task inside
    rw [brings.log]
    exact List.mem_append_left _ inside
  finished := by
    intro dispatcher task inside
    simpa [brings.log] using inside

/-- A running task goes on to another place. -/
private theorem goto_waits {job : Job setup.splitCount} {place : Place}
    (old : state.places job ≠ .waiting) (new : place ≠ .waiting) (other : Job setup.splitCount) :
    (state.goto job place).places other = .waiting ↔ state.places other = .waiting := by
  by_cases own : other = job <;> simp [own, old, new]

private theorem goto_ends {job : Job setup.splitCount} {place : Place}
    (old : state.places job ≠ .ended) (other : Job setup.splitCount)
    (ended : state.places other = .ended) : (state.goto job place).places other = .ended := by
  have different : other ≠ job := by
    rintro rfl
    exact old ended
  simp [different, ended]

/-- Only `map` makes tasks: what another task does makes none. -/
private theorem goto_made {job : Job setup.splitCount} {place : Place}
    (other : ∀ partition, job ≠ .map partition) (made : Job setup.splitCount) :
    Made (state.goto job place) made ↔ Made state made := by
  cases made with
  | map partition => rfl
  | reduce partition x | checkpoint partition x =>
    simp [Made, (other partition).symm]

/-- A map task that goes on has made no less. -/
private theorem goto_grows {partition : Fin setup.splitCount} {place : Place}
    (words : (state.places (.map partition)).wordsMade (setup.first (partition + 1)) ≤
      place.wordsMade (setup.first (partition + 1)))
    (checkpoints : (state.places (.map partition)).checkpointsMade setup.splitCount ≤
      place.checkpointsMade setup.splitCount) (job : Job setup.splitCount)
    (made : Made state job) : Made (state.goto (.map partition) place) job := by
  cases job with
  | map other => exact made
  | reduce other x =>
    by_cases own : other = partition
    · subst own
      simp only [Made, goto_places, if_true] at made ⊢
      omega
    · simpa [Made, own] using made
  | checkpoint other x =>
    by_cases own : other = partition
    · subst own
      simp only [Made, goto_places, if_true] at made ⊢
      omega
    · simpa [Made, own] using made

private theorem placed_keep (placed : Placed rule state)
    (reached : Reachable (MPEventDispatcher.program setup.splitCount rule) after.system)
    (keeps : Keeps state after)
    (main : ∀ partition start stop, after.main = .enqueueing partition start stop →
      partition ≤ setup.splitCount ∧ start = setup.first partition ∧ stop = setup.first (partition + 1))
    (ranges : ∀ partition, Made after (.map partition) →
      after.ranges partition = (setup.first partition, setup.first (partition + 1)))
    (fits : ∀ job, setup.Fits job (after.places job)) : Placed rule after where
  reached := reached
  known := by
    intro task inside
    rcases keeps.handed task inside with before | now
    · obtain ⟨job, same, made⟩ := placed.known task before
      exact ⟨job, same, keeps.grows job made⟩
    · exact now
  main := main
  ranges := ranges
  fits := fits
  made := fun job begun => keeps.grows job (placed.made job (mt (keeps.waits job).mpr begun))
  running := by
    intro dispatcher job runs
    rw [keeps.running] at runs
    exact mt (keeps.waits job).mp (placed.running dispatcher job runs)
  live := by
    intro job begun unended
    rw [keeps.running]
    exact placed.live job (mt (keeps.waits job).mpr begun) (mt (keeps.ends job) unended)
  started := by
    intro job begun
    obtain ⟨dispatcher, started⟩ := placed.started job (mt (keeps.waits job).mpr begun)
    exact ⟨dispatcher, keeps.started dispatcher _ started⟩
  finished := fun dispatcher job finished =>
    keeps.ends job (placed.finished dispatcher job (keeps.finished dispatcher _ finished))

private theorem goto_fits {job : Job setup.splitCount} {place : Place}
    (before : ∀ job, setup.Fits job (state.places job)) (fits : setup.Fits job place)
    (other : Job setup.splitCount) :
    setup.Fits other ((state.goto job place).places other) := by
  rw [goto_places]
  split
  · rename_i own
    exact own ▸ fits
  · exact before other

/-- A task other than `map` goes on, perhaps to its end. -/
private theorem placed_goto {job : Job setup.splitCount} {place : Place} (placed : Placed rule state)
    (other : ∀ partition, job ≠ .map partition) (begun : state.places job ≠ .waiting)
    (unended : state.places job ≠ .ended) (new : place ≠ .waiting) (fits : setup.Fits job place) :
    Placed rule (state.goto job place) :=
  placed_keep placed placed.reached
    { Keeps.same rfl rfl (fun _ made => made) with
      grows := fun made => (goto_made other made).mpr
      waits := goto_waits begun new
      ends := goto_ends unended }
    placed.main placed.ranges (goto_fits placed.fits fits)

/-- Neither the counters nor the semaphore have a part in this. -/
private theorem placed_apart {count : Nat → Nat → Nat}
    {taskDoneSem : Semaphore (Caller setup.splitCount)} (placed : Placed rule state) :
    Placed rule { state with count, taskDoneSem } :=
  placed_keep placed placed.reached (Keeps.same rfl rfl fun _ made => made) placed.main placed.ranges
    placed.fits

/-- Events that hand nothing over and neither start nor end a task. -/
private theorem placed_quiet {system : MPEventDispatcher.System setup.splitCount Nat}
    {events : List (MPEventDispatcher.Event setup.splitCount Nat)} (placed : Placed rule state)
    (reached : Reachable (MPEventDispatcher.program setup.splitCount rule) system)
    (log : system.log = state.system.log ++ events)
    (quiet : ∀ event ∈ events, event.silent = true ∨ ∃ caller newTask, event = .returned caller newTask true)
    (running : system.running = state.system.running) : Placed rule { state with system } := by
  refine placed_keep placed reached ⟨fun _ made => made, ?_, fun _ => Iff.rfl, fun _ ended => ended,
    running, ?_, ?_⟩ placed.main placed.ranges placed.fits
  · intro task inside
    change task ∈ handed system.log at inside
    rw [log] at inside
    simp only [MPEventDispatcher.handed, List.filterMap_append, List.mem_append] at inside
    rcases inside with before | now
    · exact .inl before
    · obtain ⟨event, member, brings⟩ := List.mem_filterMap.mp now
      rcases quiet event member with silent | ⟨caller, newTask, rfl⟩
      · cases event with
        | called => cases silent
        | returned | dispatched => cases brings
      · cases brings
  · intro dispatcher task inside
    change _ ∈ system.log
    rw [log]
    exact List.mem_append_left _ inside
  · intro dispatcher task inside
    change _ ∈ system.log at inside
    rw [log, List.mem_append] at inside
    rcases inside with before | now
    · exact before
    · rcases quiet _ now with silent | ⟨_, _, wrong⟩
      · cases silent
      · cases wrong

/-- The main thread makes the next map task. -/
private theorem placed_mainCalls {system : MPEventDispatcher.System setup.splitCount Nat}
    {partition : Fin setup.splitCount} {start stop : Nat} (placed : Placed rule state)
    (reached : Reachable (MPEventDispatcher.program setup.splitCount rule) system)
    (main : state.main = .enqueueing partition start stop)
    (brings : Brings state.system system (.thread 0) (.map partition)) :
    Placed rule
      { state with
        system
        ranges := Function.update state.ranges partition (start, stop)
        main := .enqueueing (partition + 1) stop (stop + setup.wordsPerSplit) } := by
  obtain ⟨inside, rfl, rfl⟩ := placed.main _ _ _ main
  have grows (job : Job setup.splitCount) (made : Made state job) :
      Made { state with
        system
        ranges := Function.update state.ranges partition
          (setup.first partition, setup.first (partition + 1))
        main := .enqueueing (partition + 1) (setup.first (partition + 1))
          (setup.first (partition + 1) + setup.wordsPerSplit) } job := by
    cases job with
    | map other =>
      simp only [Made, main] at made ⊢
      omega
    | reduce | checkpoint => exact made
  refine placed_keep placed reached (Keeps.brings brings grows (by simp [Made]) (fun _ => Iff.rfl)
    (fun _ ended => ended)) ?_ ?_ placed.fits
  · rintro next first last ⟨⟩
    refine ⟨partition.isLt, rfl, ?_⟩
    simp [Setup.first, Nat.add_mul]
  · intro other made
    by_cases own : other = partition
    · simp [own]
    · have before : Made state (.map other) := by
        have different : (other : Nat) ≠ partition := fun same => own (Fin.ext same)
        simp only [Made, main] at made ⊢
        omega
      simpa [own] using placed.ranges other before

/-- A map task goes on, with or without a task that it brings. -/
private theorem placed_map {system : MPEventDispatcher.System setup.splitCount Nat}
    {partition : Fin setup.splitCount} {place : Place} (placed : Placed rule state)
    (reached : Reachable (MPEventDispatcher.program setup.splitCount rule) system)
    (brings : system = state.system ∨ ∃ caller job, Brings state.system system caller job ∧
      Made (state.goto (.map partition) place) job)
    (begun : state.places (.map partition) ≠ .waiting)
    (unended : state.places (.map partition) ≠ .ended) (new : place ≠ .waiting)
    (fits : setup.Fits (.map partition) place)
    (words : (state.places (.map partition)).wordsMade (setup.first (partition + 1)) ≤
      place.wordsMade (setup.first (partition + 1)))
    (checkpoints : (state.places (.map partition)).checkpointsMade setup.splitCount ≤
      place.checkpointsMade setup.splitCount) :
    Placed rule ({ state with system }.goto (.map partition) place) := by
  have grows : ∀ other, Made state other → Made (state.goto (.map partition) place) other :=
    goto_grows words checkpoints
  have waits (other : Job setup.splitCount) :
      (state.goto (.map partition) place).places other = .waiting ↔ state.places other = .waiting :=
    goto_waits begun new other
  have ends (other : Job setup.splitCount) (ended : state.places other = .ended) :
      (state.goto (.map partition) place).places other = .ended := goto_ends unended other ended
  refine placed_keep placed reached ?_ placed.main placed.ranges (goto_fits placed.fits fits)
  rcases brings with same | ⟨caller, job, brought, made⟩
  · subst same
    exact { Keeps.same rfl rfl (fun _ made => made) with
      grows := grows
      waits := waits
      ends := ends }
  · exact Keeps.brings brought grows made waits ends

/-- A task that was made can begin. -/
private theorem entry_placed {job : Job setup.splitCount} (placed : Placed rule state)
    (made : Made state job) (waiting : state.places job = .waiting) :
    state.entry job ≠ .waiting ∧ setup.Fits job (state.entry job) ∧
      ∀ other, Made state other → Made (state.goto job (state.entry job)) other := by
  cases job with
  | map partition =>
    have range := placed.ranges partition made
    refine ⟨by simp [entry], ?_, ?_⟩
    · simp only [entry, range, Setup.Fits]
      exact ⟨Nat.le_refl _, Nat.mul_le_mul_right _ (Nat.le_succ _)⟩
    · exact goto_grows (by simp [waiting, Place.wordsMade]) (by simp [waiting, Place.checkpointsMade])
  | reduce | checkpoint =>
    exact ⟨by simp [entry], trivial, fun other => (goto_made (by simp) other).mpr⟩

/-- A task that has not started waits. -/
theorem Placed.waits {job : Job setup.splitCount} (placed : Placed rule state)
    (unstarted : ∀ other, .dispatched other (.started (setup.task job)) ∉ state.system.log) :
    state.places job = .waiting := by
  by_contra begun
  obtain ⟨other, started⟩ := placed.started job begun
  exact unstarted other started

/-- The checkpoints are for the partitions. -/
theorem Placed.checkpoint_lt {partition : Fin setup.splitCount} {x : Nat} (placed : Placed rule state)
    (begun : state.places (.checkpoint partition x) ≠ .waiting) : x < setup.splitCount := by
  have made : x < (state.places (.map partition)).checkpointsMade setup.splitCount :=
    placed.made _ begun
  have fits := placed.fits (.map partition)
  cases place : state.places (.map partition) <;>
    (simp_all [Place.checkpointsMade, Setup.Fits]; try omega)

/-- A task begins. -/
private theorem placed_starts {system : MPEventDispatcher.System setup.splitCount Nat}
    {dispatcher : Fin setup.splitCount} {job : Job setup.splitCount} (placed : Placed rule state)
    (reached : Reachable (MPEventDispatcher.program setup.splitCount rule) system)
    (made : Made state job)
    (unstarted : ∀ other, .dispatched other (.started (setup.task job)) ∉ state.system.log)
    (before : state.system.running dispatcher = none)
    (log : system.log = state.system.log ++ [.dispatched dispatcher (.started (setup.task job))])
    (running : system.running =
      Function.update state.system.running dispatcher (some (setup.task job))) :
    Placed rule ({ state with system }.goto job (state.entry job)) := by
  have waiting := placed.waits unstarted
  obtain ⟨new, fits, grows⟩ := entry_placed placed made waiting
  have nowhere : ∀ other, state.system.running other ≠ some (setup.task job) :=
    fun other runs => placed.running other job runs waiting
  have same {other : Job setup.splitCount} (own : setup.task other = setup.task job) : other = job :=
    setup.task_injective own
  refine ⟨reached, ?_, placed.main, placed.ranges, goto_fits placed.fits fits, ?_, ?_, ?_, ?_, ?_⟩
  · intro task inside
    have before : task ∈ handed state.system.log := by simpa [log, handed] using inside
    obtain ⟨other, own, made⟩ := placed.known task before
    exact ⟨other, own, grows other made⟩
  · intro other begun
    by_cases own : other = job
    · exact grows other (own ▸ made)
    · exact grows other (placed.made other (by simpa [own] using begun))
  · intro there other runs
    simp only [goto_system, running, Function.update_apply] at runs
    rw [goto_places]
    split at runs
    · rw [if_pos (same (Option.some.inj runs).symm)]
      exact new
    · split
      · exact new
      · exact placed.running there other runs
  · intro other begun unended
    by_cases own : other = job
    · subst own
      exact ⟨dispatcher, by simp [running]⟩
    · obtain ⟨there, runs⟩ := placed.live other (by simpa [own] using begun) (by simpa [own] using unended)
      refine ⟨there, ?_⟩
      have elsewhere : there ≠ dispatcher := by
        rintro rfl
        rw [before] at runs
        cases runs
      simpa [running, elsewhere] using runs
  · intro other begun
    by_cases own : other = job
    · subst own
      exact ⟨dispatcher, by simp [log]⟩
    · obtain ⟨there, started⟩ := placed.started other (by simpa [own] using begun)
      refine ⟨there, ?_⟩
      simp only [goto_system, log]
      exact List.mem_append_left _ started
  · intro there other finished
    have before : .dispatched there (.finished (setup.task other)) ∈ state.system.log := by
      simpa [log] using finished
    have ended := placed.finished there other before
    have different : other ≠ job := by
      rintro rfl
      rw [waiting] at ended
      cases ended
    simp [different, ended]

/-- A task that is at its end, ends. -/
private theorem placed_finishes {system : MPEventDispatcher.System setup.splitCount Nat}
    {dispatcher : Fin setup.splitCount} {job : Job setup.splitCount} (placed : Placed rule state)
    (reached : Reachable (MPEventDispatcher.program setup.splitCount rule) system)
    (ended : state.places job = .ended)
    (before : state.system.running dispatcher = some (setup.task job))
    (log : system.log = state.system.log ++ [.dispatched dispatcher (.finished (setup.task job))])
    (running : system.running = Function.update state.system.running dispatcher none) :
    Placed rule { state with system } := by
  refine ⟨reached, ?_, placed.main, placed.ranges, placed.fits, placed.made, ?_, ?_, ?_, ?_⟩
  · intro task inside
    exact placed.known task (by simpa [log, handed] using inside)
  · intro there other runs
    simp only [running, Function.update_apply] at runs
    split at runs
    · cases runs
    · exact placed.running there other runs
  · intro other begun unended
    obtain ⟨there, runs⟩ := placed.live other begun unended
    refine ⟨there, ?_⟩
    have elsewhere : there ≠ dispatcher := by
      rintro rfl
      rw [before] at runs
      have same : job = other := setup.task_injective (Option.some.inj runs)
      exact unended (same ▸ ended)
    simpa [running, elsewhere] using runs
  · intro other begun
    obtain ⟨there, started⟩ := placed.started other begun
    refine ⟨there, ?_⟩
    simp only [log]
    exact List.mem_append_left _ started
  · intro there other finished
    rw [log, List.mem_append] at finished
    rcases finished with early | now
    · exact placed.finished there other early
    · have same : other = job := setup.task_injective (by simpa using (And.right (by simpa using now)))
      exact same ▸ ended

theorem placed_turn (placed : Placed rule state)
    (reached : Reachable (MPEventDispatcher.program setup.splitCount rule) after.system)
    (inUp : InUp state) (turn : Turn rule state after) : Placed rule after := by
  cases turn with
  | nothing => exact placed
  | silent system events log quiet _ running =>
    exact placed_quiet placed reached log (fun event member => .inl (quiet event member)) running
  | returned system caller newTask _ log _ running =>
    exact placed_quiet placed reached log (by simp) running
  | starts system dispatcher job made unstarted before log _ running =>
    exact placed_starts placed reached made unstarted before log running
  | finishes system dispatcher job ended before _ log _ running =>
    exact placed_finishes placed reached ended before log running
  | mainCalls system partition start stop main _ brings =>
    exact placed_mainCalls placed reached main brings
  | mainWaits partition start stop main past idle =>
    have grows (job : Job setup.splitCount) (made : Made state job) :
        Made { state with main := .waiting, taskDoneSem := state.taskDoneSem.goto (.thread 0) .downLock }
          job := by
      cases job with
      | map => trivial
      | reduce | checkpoint => exact made
    refine placed_keep placed placed.reached (Keeps.same rfl rfl grows) (by simp) ?_ placed.fits
    intro other _
    exact placed.ranges other (by simp only [Made, main]; omega)
  | mainPasses main idle =>
    have grows (job : Job setup.splitCount) (made : Made state job) :
        Made { state with main := .checking } job := by
      cases job with
      | map => trivial
      | reduce | checkpoint => exact made
    refine placed_keep placed placed.reached (Keeps.same rfl rfl grows) (by simp) ?_ placed.fits
    intro other _
    exact placed.ranges other (by simp [Made, main])
  | mapCalls system dispatcher partition x place more brings =>
    have fits := placed.fits (.map partition)
    have range := placed.ranges partition
      (placed.made (.map partition) (by simp [place.place]))
    rw [place.place] at fits
    obtain ⟨least, _⟩ := fits
    rw [range] at more
    refine placed_map placed reached (.inr ⟨_, _, brings, ?_⟩) (by simp [place.place])
      (by simp [place.place]) (by simp) ⟨by omega, more⟩
      (by simp [place.place, Place.wordsMade]) (by simp [place.place, Place.checkpointsMade])
    simp only [Made, goto_places, if_true, Place.wordsMade]
    omega
  | mapTurns dispatcher partition x place past =>
    have fits := placed.fits (.map partition)
    rw [place.place] at fits
    exact placed_map placed placed.reached (.inl rfl)
      (by simp [place.place]) (by simp [place.place]) (by simp) (Nat.zero_le _)
      (by simpa [place.place, Place.wordsMade] using fits.2)
      (by simp [place.place, Place.checkpointsMade])
  | mapChecks system dispatcher partition x place more brings =>
    refine placed_map placed reached (.inr ⟨_, _, brings, ?_⟩) (by simp [place.place])
      (by simp [place.place]) (by simp) more
      (by simp [place.place, Place.wordsMade]) (by simp [place.place, Place.checkpointsMade])
    simp [Made, Place.checkpointsMade]
  | mapEnds dispatcher partition x place past =>
    have fits := placed.fits (.map partition)
    rw [place.place] at fits
    exact placed_map placed placed.reached (.inl rfl)
      (by simp [place.place]) (by simp [place.place]) (by simp) trivial
      (by simp [place.place, Place.wordsMade])
      (by rw [place.place]; exact fits)
  | reads dispatcher partition x place =>
    exact placed_goto placed (by simp) (by simp [place.place]) (by simp [place.place]) (by simp) trivial
  | writes dispatcher partition x value place =>
    exact placed_goto (placed_apart placed) (by simp) (by simp [place.place])
      (by simp [place.place]) (by simp) trivial
  | ups dispatcher partition x place =>
    exact placed_goto (placed_apart placed) (by simp) (by simp [place.place]) (by simp [place.place])
      (by simp) trivial
  | upReturns dispatcher partition x incremented place =>
    exact placed_goto placed (by simp) (by simp [place.place]) (by simp [place.place]) (by simp) trivial
  | operates => exact placed_apart placed
  | increments taskDoneSem dispatcher woken job running pc ran =>
    obtain ⟨partition, x, incremented, rfl, place⟩ := inUp dispatcher job (by simp [pc]) running
    exact placed_goto (placed_apart placed) (by simp) (by simp [place]) (by simp [place]) (by simp)
      trivial

end EventDisp.WordCount
