import EventDisp.WordCountOrder
import EventDisp.WordCountSignals

/-! What the word count counts, in every interleaving, that no step goes wrong, and that no
task touches the counters any more when the main thread is past the semaphore. -/
namespace EventDisp.WordCount

open Execution Crowd
open MPEventDispatcher (Caller)

variable {setup : Setup} {rule : MPEventDispatcher.Rule Nat} {state after : WordCount setup}

/-- Whether a task has run to its end. -/
def Place.done : Place → Nat
  | .ended => 1
  | .waiting | .words _ | .checkpoints _ | .read | .write _ | .call | .up _ => 0

theorem Place.done_le (place : Place) : place.done ≤ 1 := by
  cases place <;> simp [done]

namespace Setup

variable (setup)

/-- The partition that a word is in. -/
def partition (x : Nat) : Fin setup.splitCount :=
  ⟨x / setup.wordsPerSplit % setup.splitCount, Nat.mod_lt _ setup.splitCount_pos⟩

/-- How many of the first words a counter is for. -/
def occurrences (words destination offset : Nat) : Nat :=
  ((Finset.range words).filter fun x =>
    setup.destination x = destination ∧ setup.offset x = offset).card

/-- The reduce tasks there will be for a counter. -/
def reduces (destination offset : Nat) : Finset (Job setup.splitCount) :=
  ((Finset.range (setup.first setup.splitCount)).filter fun x =>
    setup.destination x = destination ∧ setup.offset x = offset).image fun x =>
      .reduce (setup.partition x) x

theorem mem_reduces (destination offset : Nat) (job : Job setup.splitCount) :
    job ∈ setup.reduces destination offset ↔ ∃ x, (x < setup.first setup.splitCount ∧
      setup.destination x = destination ∧ setup.offset x = offset) ∧
        .reduce (setup.partition x) x = job := by
  simp [reduces]

theorem card_reduces (destination offset : Nat) : (setup.reduces destination offset).card =
    setup.occurrences (setup.first setup.splitCount) destination offset := by
  rw [reduces, occurrences, Finset.card_image_of_injOn]
  intro one _ two _ same
  exact (Job.reduce.inj same).2

variable {setup}

/-- A word in the range of a partition is in that partition. -/
theorem partition_eq {partition : Fin setup.splitCount} {x : Nat} (least : setup.first partition ≤ x)
    (below : x < setup.first (partition + 1)) :
    setup.partition x = partition ∧ x < setup.first setup.splitCount := by
  have share : x / setup.wordsPerSplit = partition := Nat.div_eq_of_lt_le least below
  constructor
  · apply Fin.ext
    simp only [Setup.partition, share]
    exact Nat.mod_eq_of_lt partition.isLt
  · exact lt_of_lt_of_le below (Nat.mul_le_mul_right _ partition.isLt)

/-- A word of any partition is in the range of its own. -/
theorem partition_range {x : Nat} (inside : x < setup.first setup.splitCount) :
    setup.first (setup.partition x) ≤ x ∧ x < setup.first (setup.partition x + 1) := by
  have positive : 0 < setup.wordsPerSplit := by
    by_contra none
    simp [Setup.first, Nat.eq_zero_of_not_pos none] at inside
  have below : x / setup.wordsPerSplit < setup.splitCount :=
    (Nat.div_lt_iff_lt_mul positive).mpr inside
  have share : (setup.partition x : Nat) = x / setup.wordsPerSplit := Nat.mod_eq_of_lt below
  rw [share, Setup.first, Setup.first]
  exact ⟨Nat.div_mul_le_self _ _, Nat.lt_mul_of_div_lt (Nat.lt_succ_self _) positive⟩

end Setup

/-- The words of a partition are the ones that its map task passes over. -/
theorem Placed.reduce_range {partition : Fin setup.splitCount} {x : Nat} (placed : Placed rule state)
    (begun : state.places (.reduce partition x) ≠ .waiting) :
    setup.first partition ≤ x ∧ x < setup.first (partition + 1) := by
  obtain ⟨least, below⟩ : setup.first partition ≤ x ∧
      x < (state.places (.map partition)).wordsMade (setup.first (partition + 1)) :=
    placed.made _ begun
  have fits := placed.fits (.map partition)
  refine ⟨least, ?_⟩
  cases place : state.places (.map partition) <;>
    (simp_all [Place.wordsMade, Setup.Fits]; try omega)

/-- The counters count the reduce tasks that are at their ends, and what a task has read is
still there when it writes. -/
structure Counted (state : WordCount setup) : Prop where
  counts : ∀ destination offset, state.count destination offset =
    total Place.done (setup.reduces destination offset) state.places % 4294967296
  fresh : ∀ partition x value, state.places (.reduce partition x) = .write value →
    value = state.count (setup.destination x) (setup.offset x)

/-- No counter is written, and no reduce task ends. -/
private theorem counted_keep (counted : Counted state) (count : after.count = state.count)
    (done : ∀ partition x,
      (after.places (.reduce partition x)).done = (state.places (.reduce partition x)).done)
    (fresh : ∀ partition x value, after.places (.reduce partition x) = .write value →
      state.places (.reduce partition x) = .write value ∨
        value = state.count (setup.destination x) (setup.offset x)) : Counted after where
  counts := by
    intro destination offset
    rw [count, counted.counts, total, total]
    congr 1
    apply Finset.sum_congr rfl
    intro job member
    obtain ⟨x, _, rfl⟩ := (setup.mem_reduces ..).mp member
    exact (done _ x).symm
  fresh := by
    intro partition x value place
    rw [count]
    rcases fresh partition x value place with before | now
    · exact counted.fresh partition x value before
    · exact now

/-- What is done elsewhere than in reduce tasks. -/
private theorem counted_other (counted : Counted state) (count : after.count = state.count)
    (same : ∀ partition x, after.places (.reduce partition x) = state.places (.reduce partition x)) :
    Counted after :=
  counted_keep counted count (fun partition x => by rw [same])
    fun partition x value place => .inl (same partition x ▸ place)

/-- A reduce task writes. -/
private theorem counted_writes {dispatcher partition : Fin setup.splitCount} {x value : Nat}
    (counted : Counted state) (placed : Placed rule state)
    (place : At state dispatcher (.reduce partition x) (.write value)) :
    Counted ({ state with
      count := Function.update state.count (setup.destination x)
        (Function.update (state.count (setup.destination x)) (setup.offset x)
          ((value + 1) % 4294967296)) }.goto (.reduce partition x) .ended) := by
  have begun : state.places (.reduce partition x) ≠ .waiting := by simp [place.place]
  obtain ⟨least, below⟩ := placed.reduce_range begun
  obtain ⟨own, inside⟩ := Setup.partition_eq least below
  have value_eq := counted.fresh partition x value place.place
  constructor
  · intro destination offset
    by_cases here : setup.destination x = destination ∧ setup.offset x = offset
    · obtain ⟨rfl, rfl⟩ := here
      have member : .reduce partition x ∈ setup.reduces (setup.destination x) (setup.offset x) :=
        (setup.mem_reduces ..).mpr ⟨x, ⟨inside, rfl, rfl⟩, by rw [own]⟩
      have moved := total_move Place.done state.places .ended member
      rw [place.place] at moved
      simp only [Place.done] at moved
      simp only [goto, Function.update_self, value_eq, counted.counts]
      omega
    · have outside : .reduce partition x ∉ setup.reduces destination offset := by
        intro member
        obtain ⟨y, ⟨_, which⟩, same⟩ := (setup.mem_reduces ..).mp member
        obtain rfl := (Job.reduce.inj same).2
        exact here which
      simp only [goto, total_outside Place.done state.places .ended outside]
      rw [← counted.counts]
      by_cases there : destination = setup.destination x
      · subst there
        have different : offset ≠ setup.offset x := fun same => here ⟨rfl, same.symm⟩
        simp [different]
      · simp [there]
  · intro other y read now
    have different : Job.reduce other y ≠ .reduce partition x := by
      intro same
      simp [same] at now
    rw [goto_places, if_neg different] at now
    change state.places (.reduce other y) = .write read at now
    -- Whoever else has read and not written yet runs elsewhere, for another destination.
    have elsewhere : setup.destination y ≠ setup.destination x := by
      intro same
      obtain ⟨there, runs⟩ := placed.live (.reduce other y) (by simp [now]) (by simp [now])
      obtain ⟨sequenced, _⟩ :=
        MPEventDispatcher.reachable_brought setup.splitCount_pos placed.reached
      obtain rfl := MPEventDispatcher.running_alone sequenced runs place.running same
      rw [place.running] at runs
      exact different (setup.task_injective (Option.some.inj runs)).symm
    simp only [goto, Function.update_of_ne elsewhere]
    exact counted.fresh other y read now

theorem counted_turn (placed : Placed rule state) (inUp : InUp state) (counted : Counted state)
    (turn : Turn rule state after) : Counted after := by
  cases turn with
  | nothing => exact counted
  | silent | returned | finishes | mainCalls | mainWaits | mainPasses | operates =>
    exact counted_other counted rfl fun _ _ => rfl
  | starts system dispatcher job made unstarted =>
    have waiting := placed.waits unstarted
    refine counted_keep counted rfl ?_ ?_
    · intro partition x
      by_cases own : Job.reduce partition x = job
      · subst own
        simp [waiting, entry, Place.done]
      · simp [own]
    · intro partition x value now
      by_cases own : Job.reduce partition x = job
      · subst own
        simp [entry] at now
      · exact .inl (by simpa [own] using now)
  | mapCalls | mapTurns | mapChecks | mapEnds | ups | upReturns =>
    exact counted_other counted rfl fun _ _ => by simp
  | reads dispatcher partition x place =>
    refine counted_keep counted rfl ?_ ?_
    · intro other y
      by_cases own : Job.reduce other y = .reduce partition x
      · rw [own, place.place]
        simp [Place.done]
      · rw [goto_places, if_neg own]
    · intro other y value now
      by_cases own : Job.reduce other y = .reduce partition x
      · cases own
        exact .inr (by simpa using now.symm)
      · exact .inl (by simpa [own] using now)
  | writes dispatcher partition x value place => exact counted_writes counted placed place
  | increments taskDoneSem dispatcher woken job running pc ran =>
    obtain ⟨partition, x, incremented, rfl, _⟩ := inUp dispatcher job (by simp [pc]) running
    exact counted_other counted rfl fun _ _ => by simp

/-- All that holds of every state of a run. -/
structure Sound (rule : MPEventDispatcher.Rule Nat) (state : WordCount setup) : Prop where
  placed : Placed rule state
  delivered : Delivered state
  signalled : Signalled state
  counted : Counted state

section Runs

variable (fits : setup.splitCount * setup.splitCount ≤ 2147483648)

theorem sound_start : Sound rule (program rule setup).start where
  placed :=
    { reached := .start
      known := nofun
      main := by
        rintro partition start stop ⟨⟩
        exact ⟨Nat.zero_le _, by simp [Setup.first], by simp [Setup.first]⟩
      ranges := by
        intro partition made
        exact absurd made (Nat.not_lt_zero _)
      fits := by
        intro job
        cases job <;> trivial
      made := fun job begun => absurd rfl begun
      running := nofun
      live := fun job begun => absurd rfl begun
      started := fun job begun => absurd rfl begun
      finished := nofun }
  delivered :=
    { tasks := nofun
      behind := History.throughout_nil
      brought := by
        intro partition x made
        exact absurd made.2 (Nat.not_lt_zero _) }
  signalled :=
    { reached := .start
      inside := fun dispatcher busy => absurd rfl busy
      raises := nofun
      counted := (total_eq_zero fun _ => rfl).symm
      threads := fun number busy => absurd rfl busy
      down := nofun
      passed := nofun
      quiet := fun _ _ => rfl }
  counted :=
    { counts := by
        intro destination offset
        have none : total Place.done (setup.reduces destination offset)
          (program rule setup).start.places = 0 := total_eq_zero fun _ => rfl
        rw [none]
        rfl
      fresh := nofun }

include fits in
theorem sound_exec {move : Move setup.splitCount} (sound : Sound rule state)
    (allowed : (program rule setup).allowed state move)
    (ran : (program rule setup).exec state move = .ok after) : Sound rule after := by
  obtain ⟨placed, delivered, signalled, counted⟩ := sound
  obtain ⟨turn, reached⟩ := exec_turn placed.reached placed.known allowed ran
  have inUp := signalled.inUp
  exact ⟨placed_turn placed reached inUp turn, delivered_turn placed inUp delivered turn,
    signalled_turn fits placed signalled turn, counted_turn placed inUp counted turn⟩

/-- Whoever calls brings a task, so the dispatchers go on. -/
private theorem dispatch_continues (placed : Placed rule state) (delivered : Delivered state)
    (move : MPEventDispatcher.Move setup.splitCount Nat) :
    ∃ after, state.dispatch rule move = .ok after := by
  obtain ⟨sequenced, _⟩ := MPEventDispatcher.reachable_brought setup.splitCount_pos placed.reached
  unfold dispatch MPEventDispatcher.System.exec
  rcases MPEventDispatcher.step_continues sequenced move with ⟨next, stepped⟩ | ⟨caller, _, stuck⟩
  · rw [stepped]
    exact ⟨_, rfl⟩
  · have wrong := delivered.tasks caller
    simp [MPEventDispatcher.System.call, stuck, MPEventDispatcher.CallerPc.bringing] at wrong

/-- The words of all partitions are words. -/
theorem word_bounds {partition : Fin setup.splitCount} {x : Nat}
    (below : x < setup.first (partition + 1)) :
    x < setup.generateCount ∧ setup.destination x < setup.splitCount := by
  have all : setup.first setup.splitCount ≤ setup.generateCount := Nat.mul_div_le _ _
  have share : setup.first (partition + 1) ≤ setup.first setup.splitCount :=
    Nat.mul_le_mul_right _ partition.isLt
  refine ⟨by omega, ?_⟩
  apply Nat.div_lt_of_lt_mul
  rw [Nat.mul_comm]
  exact Nat.mod_lt _ (Nat.mul_pos setup.splitCount_pos setup.splitSize_pos)

include fits in
/-- The semaphore never overflows. -/
private theorem operate_continues {move : Semaphore.Move (Caller setup.splitCount)}
    (signalled : Signalled state) (allowed : state.taskDoneSem.Allowed move) :
    ∃ after, state.operate move = .ok after := by
  have sound := signalled.sound fits
  unfold operate
  cases outcome : state.taskDoneSem.exec move with
  | ok taskDoneSem => exact ⟨_, rfl⟩
  | error overflow =>
    obtain ⟨_, full⟩ := (Semaphore.sound_exec sound allowed).stopped outcome
    have balance := sound.counted
    have bound := signalled.ups_le
    rw [full, Setup.initVal_eq fits] at balance
    simp only [Semaphore.intMax] at balance
    omega

include fits in
/-- No step goes wrong. -/
theorem continues {move : Move setup.splitCount} (sound : Sound rule state)
    (allowed : (program rule setup).allowed state move) :
    ∃ after, (program rule setup).exec state move = .ok after := by
  obtain ⟨placed, delivered, signalled, _⟩ := sound
  change ∃ after, state.exec rule move = .ok after
  cases move with
  | main =>
    obtain ⟨unfinished, _, idle⟩ := allowed
    simp only [exec, mainStep]
    split
    · split
      · exact ⟨_, rfl⟩
      · exact ⟨_, rfl⟩
    · exact ⟨_, rfl⟩
    · exact ⟨_, rfl⟩
  | task dispatcher =>
    obtain ⟨task, running, live, free, quiet⟩ := allowed
    obtain ⟨job, rfl⟩ := running_job placed.reached placed.known running
    have numbered : setup.job (setup.task job).number = job := setup.job_number job
    simp only [exec, running, numbered, jobStep]
    split
    · rename_i partition x place
      split
      · rename_i more
        rw [placed.ranges partition (placed.made _ (by simp [place]))] at more
        rw [if_pos (word_bounds more)]
        exact ⟨_, rfl⟩
      · exact ⟨_, rfl⟩
    · split
      · exact ⟨_, rfl⟩
      · exact ⟨_, rfl⟩
    · rename_i partition x place
      have inside : setup.offset x < setup.splitSize := Nat.mod_lt _ setup.splitSize_pos
      rw [if_pos inside]
      exact ⟨_, rfl⟩
    all_goals exact ⟨_, rfl⟩
  | caller caller => exact dispatch_continues placed delivered _
  | eventLoop dispatcher =>
    obtain ⟨after, ran⟩ := dispatch_continues placed delivered (.eventLoop dispatcher)
    simp only [exec, ran]
    exact ⟨_, rfl⟩
  | semaphore move =>
    obtain ⟨_, kept⟩ := state.noted_kept move
    obtain ⟨after, ran⟩ := operate_continues fits signalled allowed.2
    unfold operate at ran
    simp only [exec, operate, kept]
    split
    · exact ⟨_, rfl⟩
    · rename_i outcome
      rw [outcome] at ran
      cases ran

/-- The tasks there are: one for each partition, for each word of it and for each
destination. -/
def Setup.Enqueues (setup : Setup) : Job setup.splitCount → Prop
  | .map _ => True
  | .reduce partition x => setup.first partition ≤ x ∧ x < setup.first (partition + 1)
  | .checkpoint _ x => x < setup.splitCount

/-- Past all that a task does with what `doTest` owns. -/
def Place.Past (splitCount : Nat) : Place → Prop
  | .up true | .ended => True
  | .checkpoints x => x = splitCount
  | .waiting | .words _ | .read | .write _ | .call | .up false => False

/-- There are no other tasks. -/
theorem enqueues_of_begun {job : Job setup.splitCount} (placed : Placed rule state)
    (begun : state.places job ≠ .waiting) : setup.Enqueues job := by
  cases job with
  | map => trivial
  | reduce partition x => exact placed.reduce_range begun
  | checkpoint partition x => exact placed.checkpoint_lt begun

include fits in
/-- When the main thread is past the semaphore, all tasks are past their part. -/
theorem past_all (sound : Sound rule state) (checking : state.main = .checking)
    (job : Job setup.splitCount) (enqueues : setup.Enqueues job) :
    (state.places job).Past setup.splitCount := by
  have positive := setup.splitCount_pos
  have raised (partition : Fin setup.splitCount) (y : Nat) (inside : y < setup.splitCount) :
      (state.places (.checkpoint partition y)).signalled = 1 :=
    sound.signalled.all fits (sound.signalled.passed checking) partition inside
  have begun (partition : Fin setup.splitCount) (y : Nat) (inside : y < setup.splitCount) :
      state.places (.checkpoint partition y) ≠ .waiting := by
    intro waiting
    have one := raised partition y inside
    rw [waiting] at one
    cases one
  cases job with
  | map partition =>
    have made : setup.splitCount - 1 <
        (state.places (.map partition)).checkpointsMade setup.splitCount :=
      sound.placed.made _ (begun partition (setup.splitCount - 1) (by omega))
    have fit := sound.placed.fits (.map partition)
    cases place : state.places (.map partition) <;>
      (simp_all [Place.checkpointsMade, Place.Past, Setup.Fits]; try omega)
  | reduce partition x =>
    obtain ⟨least, below⟩ := enqueues
    obtain ⟨_, inside⟩ := word_bounds below
    rw [reduced sound.placed sound.delivered (begun partition _ inside) least below]
    trivial
  | checkpoint partition y =>
    have one := raised partition y enqueues
    cases place : state.places (.checkpoint partition y) with
    | up incremented => cases incremented <;> simp_all [Place.signalled, Place.Past]
    | waiting | words | checkpoints | read | write | call | ended =>
      simp_all [Place.signalled, Place.Past]

include fits in
/-- Then every word of the partitions has been counted. -/
theorem count_eq (sound : Sound rule state) (checking : state.main = .checking)
    (destination offset : Nat) : state.count destination offset =
      setup.occurrences (setup.first setup.splitCount) destination offset % 4294967296 := by
  rw [sound.counted.counts, ← setup.card_reduces]
  congr 1
  apply Nat.le_antisymm (total_le_card fun _ _ => Place.done_le _)
  apply (card_le_total fun _ _ => Place.done_le _).mpr
  intro job member
  obtain ⟨x, ⟨inside, _⟩, rfl⟩ := (setup.mem_reduces ..).mp member
  have past := past_all fits sound checking (.reduce (setup.partition x) x)
    (Setup.partition_range inside)
  have fit := sound.placed.fits (.reduce (setup.partition x) x)
  cases place : state.places (.reduce (setup.partition x) x) <;>
    simp_all [Place.Past, Place.done, Setup.Fits]

/-- Nobody is in the semaphore when the main thread is past it. -/
theorem threads_idle (sound : Sound rule state) (checking : state.main = .checking)
    (who : Caller setup.splitCount) : state.taskDoneSem.threads who = .idle := by
  cases who with
  | task dispatcher => exact sound.signalled.quiet (sound.signalled.passed checking) dispatcher
  | thread number =>
    by_contra busy
    obtain ⟨_, waiting, _⟩ := sound.signalled.threads number busy
    rw [checking] at waiting
    cases waiting

theorem sound_reachable (fits : setup.splitCount * setup.splitCount ≤ 2147483648)
    (reached : Reachable (program rule setup) state) : Sound rule state :=
  reached.invariant (Sound rule) sound_start fun _ _ _ => sound_exec fits

end Runs

end EventDisp.WordCount
