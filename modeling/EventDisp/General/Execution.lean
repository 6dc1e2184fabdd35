/-! Runs of a fallible program: a total step function that answers with a new
state or a fault, and a contract saying which calls a client may make. A run
records every attempted call with the state it was made in. -/
namespace EventDisp.Execution

/-- A start state, the calls a client may make in a state, and what a call does.
A fault ends the run. -/
structure Program (σ : Type u) (ℓ : Type v) (ε : Type w) where
  start : σ
  allowed : σ → ℓ → Prop
  exec : σ → ℓ → Except ε σ

/-- A run: the attempts in order, each with the state before it, and the last
outcome. -/
inductive Run (program : Program σ ℓ ε) : List (σ × ℓ) → Except ε σ → Prop where
  | start : Run program [] (.ok program.start)
  | step (before : Run program attempts (.ok state)) (allowed : program.allowed state call) :
      Run program (attempts ++ [(state, call)]) (program.exec state call)

/-- A state some run ends in. -/
def Reachable (program : Program σ ℓ ε) (state : σ) : Prop :=
  ∃ attempts, Run program attempts (.ok state)

variable {program : Program σ ℓ ε} {attempts : List (σ × ℓ)} {outcome : Except ε σ}

theorem Reachable.start : Reachable program program.start := ⟨[], .start⟩

theorem Reachable.step (reached : Reachable program state) (allowed : program.allowed state call)
    (ran : program.exec state call = .ok next) : Reachable program next := by
  obtain ⟨attempts, run⟩ := reached
  exact ⟨attempts ++ [(state, call)], ran ▸ run.step allowed⟩

/-- A run that made an attempt is a run up to it and the attempt. -/
theorem Run.last (run : Run program (attempts ++ [(state, call)]) outcome) :
    Run program attempts (.ok state) ∧ program.allowed state call ∧
    outcome = program.exec state call := by
  generalize made : attempts ++ [(state, call)] = all at run
  cases run with
  | start => simp at made
  | step before allowed =>
    obtain ⟨rfl, same⟩ := List.append_inj' made rfl
    cases same
    exact ⟨before, allowed, rfl⟩

/-- Every attempt of a run was made in a state an earlier part of it reached,
under the contract. -/
theorem Run.attempted (run : Run program attempts outcome) (attempt : σ × ℓ)
    (member : attempt ∈ attempts) :
    ∃ earlier, earlier <+: attempts ∧ Run program earlier (.ok attempt.1) ∧
      program.allowed attempt.1 attempt.2 := by
  induction run with
  | start => simp at member
  | @step attempts state call before allowed ih =>
    rcases List.mem_append.mp member with inside | last
    · obtain ⟨earlier, shorter, reached, permitted⟩ := ih inside
      exact ⟨earlier, shorter.trans (List.prefix_append _ _), reached, permitted⟩
    · obtain rfl := List.mem_singleton.mp last
      exact ⟨attempts, List.prefix_append _ _, before, allowed⟩

/-- What holds at the start and survives every call that meets `guard` holds at
the end of every run all of whose calls meet it. -/
theorem Run.guarded (run : Run program attempts (.ok state)) (invariant : σ → Prop)
    (guard : σ → ℓ → Prop) (initial : invariant program.start)
    (preserved : ∀ state call next, invariant state → program.allowed state call →
      guard state call → program.exec state call = .ok next → invariant next)
    (met : ∀ attempt ∈ attempts, guard attempt.1 attempt.2) : invariant state := by
  generalize ended : Except.ok state = outcome at run
  induction run generalizing state with
  | start =>
    cases ended
    exact initial
  | @step attempts before call earlier allowed ih =>
    have last : guard before call := met (before, call) (by simp)
    exact preserved _ _ _ (ih (fun attempt member => met attempt (List.mem_append_left _ member))
      rfl)
      allowed last ended.symm

/-- What holds at the start and survives every allowed call is an invariant. -/
theorem Run.invariant (run : Run program attempts (.ok state)) (invariant : σ → Prop)
    (initial : invariant program.start)
    (preserved : ∀ state call next, invariant state → program.allowed state call →
      program.exec state call = .ok next → invariant next) : invariant state :=
  run.guarded invariant (fun _ _ => True) initial
    (fun state call next held allowed _ ran => preserved state call next held allowed ran)
    (fun _ _ => trivial)

theorem Reachable.invariant (reached : Reachable program state) (invariant : σ → Prop)
    (initial : invariant program.start)
    (preserved : ∀ state call next, invariant state → program.allowed state call →
      program.exec state call = .ok next → invariant next) : invariant state :=
  reached.elim fun _ run => run.invariant invariant initial preserved

/-- Allowed calls lead from one state to another. -/
inductive Leads (program : Program σ ℓ ε) (origin : σ) : σ → Prop where
  | here : Leads program origin origin
  | step (before : Leads program origin state) (allowed : program.allowed state call)
      (ran : program.exec state call = .ok next) : Leads program origin next

theorem Leads.trans (first : Leads program origin middle) (second : Leads program middle final) :
    Leads program origin final := by
  induction second with
  | here => exact first
  | step _ allowed ran ih => exact ih.step allowed ran

/-- What leads somewhere still does when more calls are allowed. -/
theorem Leads.widen {wide : Program σ ℓ ε} (leads : Leads program origin final)
    (allowed : ∀ state call, program.allowed state call → wide.allowed state call)
    (same : wide.exec = program.exec) : Leads wide origin final := by
  induction leads with
  | here => exact .here
  | step _ permitted ran ih => exact ih.step (allowed _ _ permitted) (by rw [same]; exact ran)

/-- A run under a narrower contract. -/
theorem Run.widen {wide : Program σ ℓ ε} (run : Run program attempts outcome)
    (allowed : ∀ state call, program.allowed state call → wide.allowed state call)
    (begins : wide.start = program.start) (same : wide.exec = program.exec) :
    Run wide attempts outcome := by
  induction run with
  | start => exact begins ▸ Run.start
  | step _ permitted ih => exact same ▸ ih.step (allowed _ _ permitted)

theorem Reachable.leads (reached : Reachable program origin) (leads : Leads program origin final) :
    Reachable program final := by
  induction leads with
  | here => exact reached
  | step _ allowed ran ih => exact ih.step allowed ran

theorem Leads.invariant (leads : Leads program origin final) (invariant : σ → Prop)
    (preserved : ∀ state call next, invariant state → program.allowed state call →
      program.exec state call = .ok next → invariant next)
      (holds : invariant origin) : invariant final := by
  induction leads with
  | here => exact holds
  | step _ allowed ran ih => exact preserved _ _ _ ih allowed ran

/-- A state leads to a goal when one that has not met it can always make a call
that keeps the invariant and decreases the measure. -/
theorem Leads.descend (program : Program σ ℓ ε) (invariant goal : σ → Prop) (measure : σ → Nat)
    (advances : ∀ state, invariant state → ¬ goal state → ∃ call next, program.allowed state call ∧
      program.exec state call = .ok next ∧ invariant next ∧ measure next < measure state)
    (origin : σ) (holds : invariant origin) :
    ∃ final, Leads program origin final ∧ invariant final ∧ goal final := by
  by_cases met : goal origin
  · exact ⟨origin, .here, holds, met⟩
  · obtain ⟨call, next, allowed, ran, kept, less⟩ := advances origin holds met
    obtain ⟨final, leads, stays, reached⟩ :=
      Leads.descend program invariant goal measure advances next kept
    exact ⟨final, (Leads.here.step allowed ran).trans leads, stays, reached⟩
termination_by measure origin

/-- The calls made one after the other, up to the first fault. -/
def Program.replay (program : Program σ ℓ ε) : σ → List ℓ → Except ε σ
  | state, [] => .ok state
  | state, call :: rest =>
    match program.exec state call with
    | .ok next => program.replay next rest
    | .error fault => .error fault

/-- The attempts a replay makes. -/
def Program.trace (program : Program σ ℓ ε) : σ → List ℓ → List (σ × ℓ)
  | _, [] => []
  | state, call :: rest =>
    (state, call) ::
      match program.exec state call with
      | .ok next => program.trace next rest
      | .error _ => []

/-- A trace attempts no other calls. -/
theorem Program.mem_trace {program : Program σ ℓ ε} {state : σ} {calls : List ℓ} {attempt : σ × ℓ}
    (member : attempt ∈ program.trace state calls) : attempt.2 ∈ calls := by
  induction calls generalizing state with
  | nil => cases member
  | cons call rest ih =>
    rcases List.mem_cons.mp member with rfl | later
    · exact List.mem_cons_self
    · cases outcome : program.exec state call with
      | ok next => exact List.mem_cons_of_mem _ (ih (by simpa only [outcome] using later))
      | error => simp [outcome] at later

/-- Every call is allowed when its turn comes, and only the last may fault. -/
def Program.Permits (program : Program σ ℓ ε) : σ → List ℓ → Prop
  | _, [] => True
  | state, call :: rest => program.allowed state call ∧
    match program.exec state call with
    | .ok next => program.Permits next rest
    | .error _ => rest = []

instance Program.decidablePermits (program : Program σ ℓ ε)
    [∀ state, DecidablePred (program.allowed state)]
    (state : σ) (calls : List ℓ) : Decidable (program.Permits state calls) :=
  match calls with
  | [] => isTrue trivial
  | call :: rest =>
    match outcome : program.exec state call with
    | .ok next =>
      have := program.decidablePermits next rest
      decidable_of_iff (program.allowed state call ∧ program.Permits next rest)
        (by simp [Program.Permits, outcome])
    | .error _ =>
      decidable_of_iff (program.allowed state call ∧ rest.isEmpty = true)
        (by simp [Program.Permits, outcome])

/-- Permitted calls are a run, with the outcome of replaying them. -/
theorem Run.replay (run : Run program attempts (.ok state))
    (permitted : program.Permits state calls) :
    Run program (attempts ++ program.trace state calls) (program.replay state calls) := by
  induction calls generalizing attempts state with
  | nil => simpa [Program.replay, Program.trace] using run
  | cons call rest ih =>
    obtain ⟨allowed, after⟩ := permitted
    have stepped := run.step allowed
    cases outcome : program.exec state call with
    | ok next =>
      rw [outcome] at stepped after
      simpa [Program.replay, Program.trace, outcome] using ih stepped after
    | error fault =>
      rw [outcome] at stepped
      simpa [Program.replay, Program.trace, outcome] using stepped

/-- Permitted calls replayed from the start. -/
theorem replayed (program : Program σ ℓ ε) (calls : List ℓ)
    (permitted : program.Permits program.start calls) :
    Run program (program.trace program.start calls) (program.replay program.start calls) :=
  Run.replay .start permitted

/-- Permitted calls are a run to a state in which is seen what replaying them shows. -/
theorem Run.shown {observe : σ → ω} {seen : ω} {calls : List ℓ}
    (permitted : program.Permits program.start calls)
    (shown : (program.replay program.start calls).map observe = .ok seen) :
    ∃ state, Run program (program.trace program.start calls) (.ok state) ∧
    observe state = seen := by
  have run := replayed program calls permitted
  cases outcome : program.replay program.start calls with
  | ok state =>
    rw [outcome] at run shown
    exact ⟨state, run, Except.ok.inj shown⟩
  | error fault =>
    rw [outcome] at shown
    cases shown

/-- Where permitted calls end is reachable. -/
theorem Reachable.replayed {calls : List ℓ} (permitted : program.Permits program.start calls)
    (ran : program.replay program.start calls = .ok state) : Reachable program state := by
  have run := Execution.replayed program calls permitted
  rw [ran] at run
  exact ⟨_, run⟩

/-- When the guard decides, in every state satisfying the invariant, whether a
call is good, all calls of a run are good exactly when all meet the guard: the
first call that misses the guard is already a bad one. -/
theorem Run.exact (run : Run program attempts outcome) (invariant : σ → Prop)
    (good guard : σ → ℓ → Prop) (initial : invariant program.start)
    (preserved : ∀ state call next, invariant state → program.allowed state call →
      guard state call → program.exec state call = .ok next → invariant next)
    (decides : ∀ state call, invariant state → program.allowed state call →
      (good state call ↔ guard state call)) :
    (∀ attempt ∈ attempts, good attempt.1 attempt.2) ↔
      ∀ attempt ∈ attempts, guard attempt.1 attempt.2 := by
  induction run with
  | start => simp
  | @step attempts state call before allowed ih =>
    simp only [List.forall_mem_append, List.forall_mem_singleton]
    rw [ih]
    exact and_congr_right fun met =>
      decides state call (before.guarded invariant guard initial preserved met) allowed

/-- When a call keeps a property of the state exactly when it meets the guard, a
run ends with the property exactly when all of its calls met the guard. -/
theorem Run.exact_state (run : Run program attempts (.ok state)) (invariant property : σ → Prop)
    (guard : σ → ℓ → Prop) (initial : invariant program.start ∧ property program.start)
    (preserved : ∀ state call next, invariant state → program.allowed state call →
      program.exec state call = .ok next → invariant next)
    (decides : ∀ state call next, invariant state → program.allowed state call →
      program.exec state call = .ok next → (property next ↔ property state ∧ guard state call)) :
    property state ↔ ∀ attempt ∈ attempts, guard attempt.1 attempt.2 := by
  generalize ended : Except.ok state = outcome at run
  induction run generalizing state with
  | start =>
    cases ended
    simp [initial.2]
  | @step attempts before call earlier allowed ih =>
    have held := earlier.invariant invariant initial.1 preserved
    rw [decides before call state held allowed ended.symm, ih rfl]
    simp [or_imp, forall_and]

end EventDisp.Execution
