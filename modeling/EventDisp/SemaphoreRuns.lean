import EventDisp.General.Crowd
import EventDisp.General.History
import EventDisp.General.Lock
import EventDisp.General.Outcome
import EventDisp.Semaphore

/-! What holds of a semaphore in every interleaving: nobody gets past `down` before the
value allows it, `val_` stays an `int` until one too many `up`s, and no signal is lost. -/
namespace EventDisp.Semaphore

open Execution History Outcome Crowd

variable {κ : Type} [DecidableEq κ] {semaphore next : Semaphore κ} {initVal : Int} {who : κ}
  {woken : Option κ} {new : Pc}

@[simp] theorem goto_threads (semaphore : Semaphore κ) (who other : κ) (pc : Pc) :
    (semaphore.goto who pc).threads other = if other = who then pc else semaphore.threads other :=
  Function.update_apply ..

@[simp] theorem goto_val (semaphore : Semaphore κ) (who : κ) (pc : Pc) :
    (semaphore.goto who pc).val = semaphore.val := rfl

@[simp] theorem goto_log (semaphore : Semaphore κ) (who : κ) (pc : Pc) :
    (semaphore.goto who pc).log = semaphore.log := rfl

/-- How often `val_` went up, and how often down. -/
def ups (log : List (Event κ)) : Nat :=
  log.countP fun | .incremented _ => true | .decremented _ => false

def downs (log : List (Event κ)) : Nat :=
  log.countP fun | .incremented _ => false | .decremented _ => true

/-- Only what is above zero is taken, and only what fits is added. -/
def Taken (initVal : Int) (earlier : List (Event κ)) : Event κ → Prop
  | .incremented _ => initVal + ups earlier - downs earlier < intMax
  | .decremented _ => 0 < initVal + ups earlier - downs earlier

/-- What a thread knows of `val_` at a place. -/
def Pc.Sees (val : Int) : Pc → Prop
  | .signal | .decrement => 0 < val
  | .wait => val ≤ 0
  | .idle | .upLock | .increment | .upTest | .upUnlock | .downLock | .downTest | .sleeping | .relock
  | .downUnlock => True

/-- Who is outside of the lock knows nothing of the value. -/
theorem Pc.sees_outside {pc : Pc} {val : Int} (outside : pc.locks = false) : pc.Sees val := by
  cases pc <;> simp_all [Pc.locks, Pc.Sees]

/-- The lock is with whoever is inside, `val_` is the balance of the log, and what the
threads have seen of it is still so. -/
structure Sound (initVal : Int) (semaphore : Semaphore κ) : Prop where
  guards : Lock.Guards semaphore.mutex fun who => (semaphore.threads who).locks
  sees : ∀ who, (semaphore.threads who).Sees semaphore.val
  counted : semaphore.val = initVal + ups semaphore.log - downs semaphore.log
  bounded : intMin ≤ semaphore.val ∧ semaphore.val ≤ intMax
  orderly : Throughout (Taken initVal) semaphore.log

/-- A thread goes on without the lock, or keeps it. -/
private theorem Sound.goto (sound : Sound initVal semaphore)
    (same : new.locks = (semaphore.threads who).locks) (seen : new.Sees semaphore.val) :
    Sound initVal (semaphore.goto who new) := by
  refine ⟨sound.guards.keep ?_, ?_, sound.counted, sound.bounded, sound.orderly⟩
  · intro other
    by_cases own : other = who <;> simp [own, same]
  · intro other
    by_cases own : other = who
    · simpa [own] using seen
    · simpa [own] using sound.sees other

private theorem Sound.acquire (sound : Sound initVal semaphore) (free : semaphore.mutex = none)
    (locks : new.locks = true) (seen : new.Sees semaphore.val) :
    Sound initVal ({ semaphore with mutex := some who }.goto who new) := by
  have guards := sound.guards
  rw [free] at guards
  refine ⟨guards.acquire (by simpa using locks) ?_, ?_, sound.counted, sound.bounded, sound.orderly⟩
  · intro other different
    simp [different]
  · intro other
    by_cases own : other = who
    · simpa [own] using seen
    · simpa [own] using sound.sees other

private theorem Sound.release (sound : Sound initVal semaphore)
    (inside : (semaphore.threads who).locks = true) (leaves : new.locks = false) :
    Sound initVal ({ semaphore with mutex := none }.goto who new) := by
  refine ⟨sound.guards.release inside (by simpa using leaves) ?_, ?_, sound.counted, sound.bounded,
    sound.orderly⟩
  · intro other different
    simp [different]
  · intro other
    by_cases own : other = who
    · simpa [own] using Pc.sees_outside leaves
    · simpa [own] using sound.sees other

/-- Only the thread inside changes `val_`; nobody else has looked at it. -/
private theorem Sound.change {val : Int} {event : Event κ} (sound : Sound initVal semaphore)
    (inside : (semaphore.threads who).locks = true) (locks : new.locks = true)
    (seen : new.Sees val)
    (counted : val = initVal + ups (semaphore.log ++ [event]) - downs (semaphore.log ++ [event]))
    (bounded : intMin ≤ val ∧ val ≤ intMax) (taken : Taken initVal semaphore.log event) :
    Sound initVal ({ semaphore with val, log := semaphore.log ++ [event] }.goto who new) := by
  refine ⟨sound.guards.keep ?_, ?_, counted, bounded, throughout_concat.mpr ⟨sound.orderly, taken⟩⟩
  · intro other
    by_cases own : other = who <;> simp [own, locks, inside]
  · intro other
    by_cases own : other = who
    · simpa [own] using seen
    · have outside : (semaphore.threads other).locks = false := by
        rw [Bool.eq_false_iff]
        intro also
        exact own (sound.guards.alone also inside)
      simpa [own] using Pc.sees_outside outside

omit [DecidableEq κ] in
private theorem counts_up (log : List (Event κ)) (who : κ) :
    ups (log ++ [.incremented who]) = ups log + 1 ∧ downs (log ++ [.incremented who]) = downs log := by
  simp [ups, downs]

omit [DecidableEq κ] in
private theorem counts_down (log : List (Event κ)) (who : κ) :
    ups (log ++ [.decremented who]) = ups log ∧ downs (log ++ [.decremented who]) = downs log + 1 := by
  simp [ups, downs]

/-- The one overflow there is: an increment at the top. -/
def Overruns (semaphore : Semaphore κ) (overflow : Overflow) : Prop :=
  overflow = .increment ∧ semaphore.val = intMax

/-- A step of a thread. -/
private theorem sound_advance (sound : Sound initVal semaphore)
    (ready : semaphore.Ready woken (semaphore.threads who)) :
    Ends (Overruns semaphore) (semaphore.advance who woken) (Sound initVal) := by
  have seen := sound.sees who
  have guards := sound.guards who
  have counted := sound.counted
  have bounded := sound.bounded
  unfold advance
  cases pc : semaphore.threads who with
  | idle | sleeping =>
    rw [pc] at ready
    exact ready.elim
  | upLock | downLock | relock =>
    rw [pc] at ready
    exact sound.acquire ready rfl trivial
  | increment =>
    by_cases full : semaphore.val = intMax
    · simp only [full, if_true]
      exact .error ⟨rfl, full⟩
    · obtain ⟨up, down⟩ := counts_up semaphore.log who
      simp only [full, if_false]
      refine sound.change (by simp [pc, Pc.locks]) rfl trivial ?_ ?_ ?_
      · rw [up, down]
        omega
      · omega
      · simp only [Taken]
        omega
  | decrement =>
    rw [pc] at seen
    have positive : 0 < semaphore.val := seen
    have least : intMin < 0 := by decide
    have above : semaphore.val ≠ intMin := by omega
    obtain ⟨up, down⟩ := counts_down semaphore.log who
    simp only [above, if_false]
    refine sound.change (by simp [pc, Pc.locks]) rfl trivial ?_ ?_ ?_
    · rw [up, down]
      omega
    · omega
    · simp only [Taken]
      omega
  | upTest =>
    by_cases positive : semaphore.val > 0 <;>
      exact sound.goto (by simp [pc, positive, Pc.locks]) (by simp [positive, Pc.Sees])
  | downTest =>
    by_cases blocked : semaphore.val ≤ 0 <;>
      exact sound.goto (by simp [pc, blocked, Pc.locks]) (by simp [blocked, Pc.Sees]; try omega)
  | signal =>
    cases woken with
    | none => exact sound.goto (by simp [pc, Pc.locks]) trivial
    | some sleeper =>
      rw [pc] at ready
      have asleep : semaphore.threads sleeper = .sleeping := ready
      have other : who ≠ sleeper := by
        rintro rfl
        rw [asleep] at pc
        cases pc
      have stirred : Sound initVal (semaphore.goto sleeper .relock) :=
        sound.goto (by simp [asleep, Pc.locks]) trivial
      exact stirred.goto (by simp [other, pc, Pc.locks]) trivial
  | wait | upUnlock | downUnlock => exact sound.release (by simp [pc, Pc.locks]) rfl

theorem sound_exec {move : Move κ} (sound : Sound initVal semaphore)
    (allowed : semaphore.Allowed move) :
    Ends (Overruns semaphore) (semaphore.exec move) (Sound initVal) := by
  cases move with
  | up who | down who | wake who =>
    have idle : semaphore.threads who = _ := allowed
    exact .ok (sound.goto (by simp [idle, Pc.locks]) trivial)
  | advance who woken => exact sound_advance sound allowed

/-- From an initial value that is an `int`. -/
theorem reachable_sound (bounded : intMin ≤ initVal ∧ initVal ≤ intMax)
    (reached : Reachable (program κ initVal) semaphore) : Sound initVal semaphore := by
  apply reached.invariant (Sound initVal)
  · exact ⟨Lock.Guards.start fun _ => rfl, fun _ => trivial, by simp [program, ups, downs], bounded,
      throughout_nil⟩
  · intro state move next sound allowed ran
    exact (sound_exec sound allowed).returned ran

/-- Where a thread can go from a place in one step. -/
inductive Pc.Goes : Pc → Pc → Prop where
  | lock : Goes .upLock .increment
  | increment : Goes .increment .upTest
  | positive : Goes .upTest .signal
  | blocked : Goes .upTest .upUnlock
  | signal : Goes .signal .upUnlock
  | upUnlock : Goes .upUnlock .idle
  | downLock : Goes .downLock .downTest
  | relock : Goes .relock .downTest
  | wait : Goes .downTest .wait
  | passes : Goes .downTest .decrement
  | sleep : Goes .wait .sleeping
  | decrement : Goes .decrement .downUnlock
  | downUnlock : Goes .downUnlock .idle

/-- What a step from a place adds to the log. -/
def Pc.logs (who : κ) : Pc → List (Event κ)
  | .increment => [.incremented who]
  | .decrement => [.decremented who]
  | .idle | .upLock | .upTest | .signal | .upUnlock | .downLock | .downTest | .wait | .sleeping
  | .relock | .downUnlock => []

/-- What one step does to the places of all threads. -/
theorem advance_goes (ready : semaphore.Ready woken (semaphore.threads who))
    (ran : semaphore.advance who woken = .ok next) :
    (semaphore.threads who).Goes (next.threads who) ∧
      (∀ other, other ≠ who → next.threads other = semaphore.threads other ∨
        semaphore.threads other = .sleeping ∧ next.threads other = .relock) ∧
      next.log = semaphore.log ++ (semaphore.threads who).logs who := by
  unfold advance at ran
  cases pc : semaphore.threads who with
  | idle | sleeping =>
    rw [pc] at ready
    exact ready.elim
  | upLock | downLock | relock | wait | upUnlock | downUnlock =>
    rw [pc] at ran
    cases ran
    exact ⟨by simpa using by constructor, by simp +contextual, by simp [goto, Pc.logs]⟩
  | increment =>
    rw [pc] at ran
    by_cases full : semaphore.val = intMax
    · simp [full] at ran
    · simp only [full, if_false] at ran
      cases ran
      exact ⟨by simpa using Pc.Goes.increment, by simp +contextual, by simp [goto, Pc.logs]⟩
  | decrement =>
    rw [pc] at ran
    by_cases empty : semaphore.val = intMin
    · simp [empty] at ran
    · simp only [empty, if_false] at ran
      cases ran
      exact ⟨by simpa using Pc.Goes.decrement, by simp +contextual, by simp [goto, Pc.logs]⟩
  | upTest =>
    rw [pc] at ran
    cases ran
    refine ⟨?_, by simp +contextual, by simp [goto, Pc.logs]⟩
    by_cases positive : semaphore.val > 0
    · simpa [positive] using Pc.Goes.positive
    · simpa [positive] using Pc.Goes.blocked
  | downTest =>
    rw [pc] at ran
    cases ran
    refine ⟨?_, by simp +contextual, by simp [goto, Pc.logs]⟩
    by_cases blocked : semaphore.val ≤ 0
    · simpa [blocked] using Pc.Goes.wait
    · simpa [blocked] using Pc.Goes.passes
  | signal =>
    rw [pc] at ran ready
    cases woken with
    | none =>
      cases ran
      exact ⟨by simpa using Pc.Goes.signal, by simp +contextual, by simp [goto, Pc.logs]⟩
    | some sleeper =>
      cases ran
      refine ⟨by simpa using Pc.Goes.signal, ?_, by simp [goto, Pc.logs]⟩
      intro other different
      by_cases own : other = sleeper
      · subst own
        exact .inr ⟨ready, by simp [different]⟩
      · exact .inl (by simp [different, own])

/-- In every interleaving the lock is with the one inside, `val_` is the balance, `down`
takes only what is there, and an `up` at the greatest `int` is the one thing that goes
wrong. -/
theorem taken_in_turn {attempts : List (Semaphore κ × Move κ)}
    {outcome : Except Overflow (Semaphore κ)} (bounded : intMin ≤ initVal ∧ initVal ≤ intMax)
    (run : Run (program κ initVal) attempts outcome) :
    (∀ semaphore, outcome = .ok semaphore →
      Lock.Guards semaphore.mutex (fun who => (semaphore.threads who).locks) ∧
      semaphore.val = initVal + ups semaphore.log - downs semaphore.log ∧
      Throughout (Taken initVal) semaphore.log) ∧
    (∀ overflow, outcome = .error overflow → overflow = .increment ∧
      ∃ before semaphore move, attempts = before ++ [(semaphore, move)] ∧
        initVal + ups semaphore.log - downs semaphore.log = intMax) := by
  constructor
  · rintro semaphore rfl
    have sound := reachable_sound bounded ⟨attempts, run⟩
    exact ⟨sound.guards, sound.counted, sound.orderly⟩
  · rintro overflow rfl
    generalize stopped : Except.error overflow = outcome at run
    cases run with
    | start => cases stopped
    | @step before semaphore move earlier allowed =>
      have sound := reachable_sound bounded ⟨before, earlier⟩
      obtain ⟨which, full⟩ := (sound_exec sound allowed).stopped stopped.symm
      exact ⟨which, before, semaphore, move, rfl, sound.counted ▸ full⟩

/-- Two `down`s sleep at zero, one `up` wakes the first; the second wakes by itself. -/
def twoDowns : List (Move (Fin 3)) :=
  [.down 0, .advance 0 none, .advance 0 none, .advance 0 none, .down 1, .advance 1 none,
    .advance 1 none, .advance 1 none, .up 2, .advance 2 none, .advance 2 none, .advance 2 none,
    .advance 2 (some 0), .advance 2 none, .wake 1, .advance 0 none, .advance 0 none, .advance 0 none]

theorem taken_in_turn_two :
    ∃ semaphore : Semaphore (Fin 3), (semaphore.threads 0, semaphore.threads 1) =
        (.downUnlock, .relock) ∧
      semaphore.log = [.incremented 2, .decremented 0] ∧
      Lock.Guards semaphore.mutex (fun who => (semaphore.threads who).locks) ∧
      semaphore.val = 0 + ups semaphore.log - downs semaphore.log ∧
      Throughout (Taken 0) semaphore.log := by
  have shown : ((program (Fin 3) 0).replay (program (Fin 3) 0).start twoDowns).map
      (fun semaphore => ((semaphore.threads 0, semaphore.threads 1), semaphore.log)) =
      .ok ((.downUnlock, .relock), [.incremented 2, .decremented 0]) := by decide +kernel
  obtain ⟨semaphore, run, seen⟩ := Run.shown (by decide +kernel) shown
  obtain ⟨places, logged⟩ := Prod.mk.inj seen
  exact ⟨semaphore, places, logged, (taken_in_turn (by decide) run).1 semaphore rfl⟩

end EventDisp.Semaphore
