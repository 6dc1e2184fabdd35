import EventDisp.General.Crowd
import EventDisp.SemaphoreRuns

/-! No signal is lost: as long as somebody sleeps, as many threads are on their way as
`val_` has to give. Without further calls every schedule comes to rest, and then a sleeper
is left only where there is nothing to take. -/
namespace EventDisp.Semaphore

open Execution Outcome Crowd

variable {κ : Type} [DecidableEq κ] {semaphore next : Semaphore κ} {initVal : Int} {who : κ}
  {woken : Option κ} {crowd : Finset κ}

/-- A thread that will look at `val_` in `down`, or wake one that will. -/
def Pc.alert : Pc → Nat
  | .upTest | .signal | .downLock | .downTest | .relock | .decrement => 1
  | .idle | .upLock | .increment | .upUnlock | .wait | .sleeping | .downUnlock => 0

/-- How much is left to do before the thread returns or sleeps; a signal pays for the
sleeper it wakes. -/
def Pc.rank : Pc → Nat
  | .idle | .sleeping => 0
  | .wait | .upUnlock | .downUnlock => 1
  | .decrement => 2
  | .downTest => 3
  | .downLock | .relock => 4
  | .signal => 6
  | .upTest => 7
  | .increment => 8
  | .upLock => 9

/-- The crowd has all threads that are in a call, and enough of them for what there is to
take. -/
structure Attended (crowd : Finset κ) (semaphore : Semaphore κ) : Prop where
  covers : Covers crowd .idle semaphore.threads
  alert : (∃ who, semaphore.threads who = .sleeping) →
    semaphore.val ≤ total Pc.alert crowd semaphore.threads

/-- One thread goes on: it counts as before, less what it took or more what it gave, or
there is nothing to take, or nobody sleeps. -/
private theorem advance_places (sound : Sound initVal semaphore)
    (ready : semaphore.Ready woken (semaphore.threads who))
    (quiet : semaphore.threads who = .signal → woken = none)
    (ran : semaphore.advance who woken = .ok next) :
    ∃ new, next.threads = Function.update semaphore.threads who new ∧
      new.rank < (semaphore.threads who).rank ∧
      (next.val ≤ 0 ∨ (∀ other, next.threads other ≠ .sleeping) ∨ new ≠ .sleeping ∧
        next.val + (semaphore.threads who).alert ≤ semaphore.val + new.alert) := by
  have seen := sound.sees who
  unfold advance at ran
  cases pc : semaphore.threads who with
  | idle | sleeping =>
    rw [pc] at ready
    exact ready.elim
  | upLock | downLock | relock | upUnlock | downUnlock =>
    rw [pc] at ran
    cases ran
    exact ⟨_, rfl, by simp [Pc.rank], .inr (.inr ⟨by simp, by simp [Pc.alert]⟩)⟩
  | increment =>
    rw [pc] at ran
    by_cases full : semaphore.val = intMax
    · simp [full] at ran
    · simp only [full, if_false] at ran
      cases ran
      exact ⟨_, rfl, by simp [Pc.rank], .inr (.inr ⟨by simp, by simp [Pc.alert]⟩)⟩
  | decrement =>
    rw [pc] at ran
    by_cases empty : semaphore.val = intMin
    · simp [empty] at ran
    · simp only [empty, if_false] at ran
      cases ran
      exact ⟨_, rfl, by simp [Pc.rank], .inr (.inr ⟨by simp, by simp [Pc.alert]⟩)⟩
  | upTest =>
    rw [pc] at ran
    cases ran
    by_cases positive : semaphore.val > 0
    · exact ⟨.signal, by simp [goto, positive], by simp [Pc.rank],
        .inr (.inr ⟨by simp, by simp [Pc.alert]⟩)⟩
    · exact ⟨.upUnlock, by simp [goto, positive], by simp [Pc.rank], .inl (by simpa using positive)⟩
  | downTest =>
    rw [pc] at ran
    cases ran
    by_cases blocked : semaphore.val ≤ 0
    · exact ⟨.wait, by simp [goto, blocked], by simp [Pc.rank], .inl (by simpa using blocked)⟩
    · exact ⟨.decrement, by simp [goto, blocked], by simp [Pc.rank],
        .inr (.inr ⟨by simp, by simp [Pc.alert]⟩)⟩
  | wait =>
    rw [pc] at ran seen
    cases ran
    exact ⟨.sleeping, rfl, by simp [Pc.rank], .inl seen⟩
  | signal =>
    -- Nobody was there to be woken.
    obtain rfl := quiet pc
    rw [pc] at ran ready
    cases ran
    have awake : ∀ other, semaphore.threads other ≠ .sleeping := ready
    refine ⟨.upUnlock, rfl, by simp [Pc.rank], .inr (.inl ?_)⟩
    intro other
    by_cases own : other = who <;> simp [own, awake]

/-- A signal to a sleeper moves two. -/
private theorem signal_places {sleeper : κ} (pc : semaphore.threads who = .signal)
    (ready : semaphore.Ready (some sleeper) (semaphore.threads who))
    (ran : semaphore.advance who (some sleeper) = .ok next) :
    semaphore.threads sleeper = .sleeping ∧ next.val = semaphore.val ∧
      next.threads = Function.update (Function.update semaphore.threads sleeper .relock) who .upUnlock ∧
      Function.update semaphore.threads sleeper .relock who = .signal := by
  unfold advance at ran
  rw [pc] at ready ran
  cases ran
  have asleep : semaphore.threads sleeper = .sleeping := ready
  have other : who ≠ sleeper := by
    rintro rfl
    rw [asleep] at pc
    cases pc
  exact ⟨asleep, rfl, rfl, by simp [other, pc]⟩

omit [DecidableEq κ] in
/-- Who can take a step has something left to do. -/
private theorem ready_left (attended : Attended crowd semaphore)
    (ready : semaphore.Ready woken (semaphore.threads who)) :
    who ∈ crowd ∧ 0 < (semaphore.threads who).rank := by
  have left : 0 < (semaphore.threads who).rank := by
    cases pc : semaphore.threads who <;> simp_all [Ready, Pc.rank]
  refine ⟨attended.covers.mem ?_, left⟩
  intro idle
  rw [idle] at left
  cases left

/-- A step leaves enough threads on their way, and less to do for all together. -/
private theorem attended_advance (sound : Sound initVal semaphore) (attended : Attended crowd semaphore)
    (ready : semaphore.Ready woken (semaphore.threads who))
    (ran : semaphore.advance who woken = .ok next) :
    Attended crowd next ∧
      total Pc.rank crowd next.threads < total Pc.rank crowd semaphore.threads := by
  obtain ⟨member, _⟩ := ready_left attended ready
  by_cases quiet : semaphore.threads who = .signal → woken = none
  · obtain ⟨new, places, less, counts⟩ := advance_places sound ready quiet ran
    have alerts := total_move Pc.alert semaphore.threads new member
    have ranks := total_move Pc.rank semaphore.threads new member
    refine ⟨⟨places ▸ attended.covers.move member, ?_⟩, by rw [places]; omega⟩
    rintro ⟨other, asleep⟩
    rw [places] at asleep ⊢
    rcases counts with nothing | awake | ⟨up, balance⟩
    · omega
    · exact absurd (places ▸ asleep) (awake other)
    · have before : semaphore.threads other = .sleeping := by
        rw [Function.update_apply] at asleep
        split at asleep
        · exact absurd asleep up
        · exact asleep
      have enough := attended.alert ⟨other, before⟩
      omega
  · obtain ⟨pc, some⟩ := Classical.not_imp.mp quiet
    obtain ⟨sleeper, rfl⟩ := Option.ne_none_iff_exists'.mp some
    obtain ⟨asleep, same, places, still⟩ := signal_places pc ready ran
    have enough := attended.alert ⟨sleeper, asleep⟩
    have inside : sleeper ∈ crowd := attended.covers.mem (by simp [asleep])
    have first := total_move Pc.alert semaphore.threads .relock inside
    have second := total_move Pc.alert (Function.update semaphore.threads sleeper .relock) .upUnlock
      member
    have firstRank := total_move Pc.rank semaphore.threads .relock inside
    have secondRank := total_move Pc.rank (Function.update semaphore.threads sleeper .relock)
      .upUnlock member
    rw [asleep] at first firstRank
    rw [still] at second secondRank
    simp only [Pc.alert, Pc.rank] at first second firstRank secondRank
    refine ⟨⟨places ▸ (attended.covers.move inside).move member, ?_⟩, by rw [places]; omega⟩
    intro _
    rw [places, same]
    omega

/-- A call, or a wake-up that nobody asked for, leaves enough threads on their way too. -/
private theorem attended_goto {new : Pc} (attended : Attended crowd semaphore)
    (place : semaphore.threads who = .idle ∨ semaphore.threads who = .sleeping)
    (up : new ≠ .sleeping) : Attended (insert who crowd) (semaphore.goto who new) := by
  have member : who ∈ insert who crowd := Finset.mem_insert_self who crowd
  have alerts := total_move Pc.alert semaphore.threads new member
  have joined : total Pc.alert (insert who crowd) semaphore.threads = _ :=
    attended.covers.total_join rfl
  have light : (semaphore.threads who).alert = 0 := by
    rcases place with idle | asleep
    · simp [idle, Pc.alert]
    · simp [asleep, Pc.alert]
  refine ⟨attended.covers.join.move member, ?_⟩
  rintro ⟨other, asleep⟩
  have before : semaphore.threads other = .sleeping := by
    by_cases own : other = who
    · rw [goto_threads, if_pos own] at asleep
      exact absurd asleep up
    · simpa [own] using asleep
  have enough := attended.alert ⟨other, before⟩
  have shape : (semaphore.goto who new).threads = Function.update semaphore.threads who new := rfl
  rw [shape, goto_val]
  omega

private theorem attended_exec {move : Move κ} (sound : Sound initVal semaphore)
    (attended : Attended crowd semaphore) (allowed : semaphore.Allowed move)
    (ran : semaphore.exec move = .ok next) : ∃ wider, Attended wider next := by
  cases move with
  | up who | down who =>
    cases ran
    exact ⟨_, attended_goto attended (.inl allowed) (by simp)⟩
  | wake who =>
    cases ran
    exact ⟨_, attended_goto attended (.inr allowed) (by simp)⟩
  | advance who woken => exact ⟨_, (attended_advance sound attended allowed ran).1⟩

private theorem reachable_attended (bounded : intMin ≤ initVal ∧ initVal ≤ intMax)
    (reached : Reachable (program κ initVal) semaphore) :
    Sound initVal semaphore ∧ ∃ crowd, Attended crowd semaphore := by
  have starts : Sound initVal (program κ initVal).start := reachable_sound bounded .start
  apply reached.invariant fun semaphore => Sound initVal semaphore ∧ ∃ crowd, Attended crowd semaphore
  · refine ⟨starts, ∅, fun _ _ => rfl, ?_⟩
    rintro ⟨who, asleep⟩
    cases asleep
  · rintro state move next ⟨sound, crowd, attended⟩ allowed ran
    exact ⟨(sound_exec sound allowed).returned ran, attended_exec sound attended allowed ran⟩

/-- Nobody is between the beginning of a call and its end, save for sleepers that have
nothing to take. -/
def AtRest (semaphore : Semaphore κ) : Prop :=
  semaphore.mutex = none ∧
    (∀ who, semaphore.threads who = .idle ∨ semaphore.threads who = .sleeping) ∧
    ((∃ who, semaphore.threads who = .sleeping) → semaphore.val ≤ 0)

omit [DecidableEq κ] in
/-- Where no thread can take a step, the semaphore is at rest. -/
private theorem at_rest (sound : Sound initVal semaphore) (attended : Attended crowd semaphore)
    (stuck : ∀ who woken, ¬ semaphore.Ready woken (semaphore.threads who)) : AtRest semaphore := by
  have outside : ∀ who, (semaphore.threads who).locks = false := by
    intro who
    cases pc : semaphore.threads who with
    | idle | upLock | downLock | sleeping | relock => rfl
    | increment | upTest | upUnlock | downTest | wait | decrement | downUnlock =>
      exact absurd (by rw [pc]; trivial) (stuck who none)
    | signal =>
      by_cases someone : ∃ sleeper, semaphore.threads sleeper = .sleeping
      · obtain ⟨sleeper, asleep⟩ := someone
        exact absurd (by rw [pc]; exact asleep) (stuck who (some sleeper))
      · exact absurd (by rw [pc]; exact not_exists.mp someone) (stuck who none)
  have free : semaphore.mutex = none := sound.guards.free outside
  have places : ∀ who, semaphore.threads who = .idle ∨ semaphore.threads who = .sleeping := by
    intro who
    have still := stuck who none
    have released := outside who
    cases pc : semaphore.threads who <;> simp_all [Ready, Pc.locks]
  refine ⟨free, places, ?_⟩
  intro someone
  have enough := attended.alert someone
  have none : total Pc.alert crowd semaphore.threads = 0 := by
    apply total_eq_zero
    intro who
    rcases places who with idle | asleep
    · simp [idle, Pc.alert]
    · simp [asleep, Pc.alert]
  omega

/-- A call goes on: no new call begins, and nobody wakes without a signal. -/
def Move.GoesOn : Move κ → Prop
  | .advance _ _ => True
  | .up _ | .down _ | .wake _ => False

/-- Each step of the calls there are uses up some of what is left to do. -/
private theorem steps_bounded {moves : List (Move κ)} (sound : Sound initVal semaphore)
    (attended : Attended crowd semaphore) (permitted : (program κ initVal).Permits semaphore moves)
    (goOn : ∀ move ∈ moves, move.GoesOn) :
    moves.length ≤ total Pc.rank crowd semaphore.threads ∧
      ∀ final, (program κ initVal).replay semaphore moves = .ok final →
        Sound initVal final ∧ Attended crowd final := by
  induction moves generalizing semaphore with
  | nil =>
    refine ⟨Nat.zero_le _, ?_⟩
    intro final ended
    cases ended
    exact ⟨sound, attended⟩
  | cons move rest ih =>
    obtain ⟨first, others⟩ := List.forall_mem_cons.mp goOn
    obtain ⟨allowed, after⟩ := permitted
    cases move with
    | up | down | wake => exact first.elim
    | advance who woken =>
      have ready : semaphore.Ready woken (semaphore.threads who) := allowed
      have ends : Ends (Overruns semaphore) (semaphore.exec (.advance who woken)) (Sound initVal) :=
        sound_exec sound allowed
      simp only [Program.replay]
      cases ran : (program κ initVal).exec semaphore (.advance who woken) with
      | ok next =>
        rw [ran] at after
        obtain ⟨still, less⟩ := attended_advance sound attended ready ran
        obtain ⟨short, kept⟩ := ih (ends.returned ran) still after others
        refine ⟨?_, kept⟩
        rw [List.length_cons]
        omega
      | error overflow =>
        rw [ran] at after
        have last : rest = [] := after
        obtain ⟨member, left⟩ := ready_left attended ready
        have most := le_total Pc.rank semaphore.threads member
        refine ⟨by simp only [last, List.length_singleton]; omega, ?_⟩
        intro final ended
        cases ended

/-- However the threads take turns, the calls there are come to rest after so many steps;
then nobody is left waiting while there is something to take. -/
theorem comes_to_rest (bounded : intMin ≤ initVal ∧ initVal ≤ intMax)
    (reached : Reachable (program κ initVal) semaphore) :
    ∃ bound, ∀ moves, (program κ initVal).Permits semaphore moves → (∀ move ∈ moves, move.GoesOn) →
      moves.length ≤ bound ∧ ∀ final, (program κ initVal).replay semaphore moves = .ok final →
        (∀ move, move.GoesOn → ¬ (program κ initVal).allowed final move) → AtRest final := by
  obtain ⟨sound, crowd, attended⟩ := reachable_attended bounded reached
  refine ⟨total Pc.rank crowd semaphore.threads, ?_⟩
  intro moves permitted goOn
  obtain ⟨short, kept⟩ := steps_bounded sound attended permitted goOn
  refine ⟨short, ?_⟩
  intro final ended stuck
  obtain ⟨soundLast, attendedLast⟩ := kept final ended
  exact at_rest soundLast attendedLast fun who woken => stuck (.advance who woken) trivial

/-- The second sleeper is up again, and the first has taken what there was. -/
theorem comes_to_rest_two :
    ∃ semaphore : Semaphore (Fin 3), semaphore.threads 1 = .relock ∧ ∃ bound, ∀ moves,
      (program (Fin 3) 0).Permits semaphore moves → (∀ move ∈ moves, move.GoesOn) →
      moves.length ≤ bound ∧ ∀ final, (program (Fin 3) 0).replay semaphore moves = .ok final →
        (∀ move, move.GoesOn → ¬ (program (Fin 3) 0).allowed final move) → AtRest final := by
  have shown : ((program (Fin 3) 0).replay (program (Fin 3) 0).start twoDowns).map
      (fun semaphore => semaphore.threads 1) = .ok .relock := by decide +kernel
  obtain ⟨semaphore, run, seen⟩ := Run.shown (by decide +kernel) shown
  exact ⟨semaphore, seen, comes_to_rest (by decide) ⟨_, run⟩⟩

end EventDisp.Semaphore
