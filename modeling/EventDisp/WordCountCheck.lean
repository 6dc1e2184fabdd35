import EventDisp.WordCountRuns

/-! The word count is exact; and what its check makes of the words that are left when the
partitions do not share all of them. -/
namespace EventDisp.WordCount

open Execution
open MPEventDispatcher (Caller)

variable {setup : Setup} {rule : MPEventDispatcher.Rule Nat}

/-- **The word count is exact.** As long as the square of the number of partitions is no
more than what an `int` can hold below zero: no step of any interleaving goes wrong, and when
the main thread is past the semaphore, every task there is has done its part and nobody is
in the semaphore; each counter is the number of words it is for, in all partitions. -/
theorem counts_exact {attempts : List (WordCount setup × Move setup.splitCount)}
    {outcome : Except Misuse (WordCount setup)}
    (fits : setup.splitCount * setup.splitCount ≤ 2147483648)
    (run : Run (program rule setup) attempts outcome) :
    ∃ state, outcome = .ok state ∧ (state.main = .checking →
      (∀ job, (setup.Enqueues job → (state.places job).Past setup.splitCount) ∧
        (state.places job ≠ .waiting → setup.Enqueues job)) ∧
      (∀ who, state.taskDoneSem.threads who = .idle) ∧
      ∀ destination offset, state.count destination offset =
        setup.occurrences (setup.first setup.splitCount) destination offset % 4294967296) := by
  obtain ⟨state, rfl⟩ : ∃ state, outcome = .ok state := by
    cases run with
    | start => exact ⟨_, rfl⟩
    | step before allowed => exact continues fits (sound_reachable fits ⟨_, before⟩) allowed
  refine ⟨state, rfl, ?_⟩
  intro checking
  have sound := sound_reachable fits ⟨attempts, run⟩
  exact ⟨fun job => ⟨past_all fits sound checking job, enqueues_of_begun sound.placed⟩,
    threads_idle sound checking, count_eq fits sound checking⟩

/-- Whether a move can be made, where no signal comes too early. -/
def permitted (state : WordCount setup) : Move setup.splitCount → Bool
  | .main =>
    state.main ≠ .checking && (state.system.call (.thread 0)).isNone &&
      state.taskDoneSem.threads (.thread 0) = .idle
  | .task dispatcher =>
    match state.system.running dispatcher with
    | some task =>
      state.places (setup.job task.number) ≠ .ended &&
        (state.system.call (.task dispatcher)).isNone &&
        state.taskDoneSem.threads (.task dispatcher) = .idle
    | none => false
  | .caller caller => state.system.dispatcher.enabled (.caller caller)
  | .eventLoop dispatcher =>
    state.system.dispatcher.enabled (.eventLoop dispatcher) &&
      match state.system.running dispatcher with
      | some task => state.places (setup.job task.number) = .ended
      | none => true
  | .semaphore (.advance who woken) =>
    match state.taskDoneSem.threads who with
    | .idle | .sleeping => false
    | .upLock | .downLock | .relock => state.taskDoneSem.mutex = none
    | .signal =>
      match woken with
      | some sleeper => state.taskDoneSem.threads sleeper = .sleeping
      | none => false
    | .increment | .upTest | .upUnlock | .downTest | .wait | .decrement | .downUnlock => true
  | .semaphore (.wake who) => state.taskDoneSem.threads who = .sleeping
  | .semaphore (.up _) | .semaphore (.down _) => false

theorem allowed_of_permitted {state : WordCount setup} {move : Move setup.splitCount}
    (permits : state.permitted move = true) : state.Allowed move := by
  cases move with
  | main => simpa [permitted, Allowed, and_assoc] using permits
  | task dispatcher =>
    cases running : state.system.running dispatcher with
    | none => simp [permitted, running] at permits
    | some task => simpa [permitted, Allowed, running, and_assoc] using permits
  | caller caller => exact permits
  | eventLoop dispatcher =>
    cases running : state.system.running dispatcher <;>
      simpa [permitted, Allowed, running] using permits
  | semaphore move =>
    refine ⟨?_, ?_⟩
    · cases move <;> simp_all [permitted]
    · cases move with
      | up | down => simp [permitted] at permits
      | wake who => simpa [permitted, Semaphore.Allowed] using permits
      | advance who woken =>
        cases pc : state.taskDoneSem.threads who <;> cases woken <;>
          simp_all [permitted, Semaphore.Allowed, Semaphore.Ready, Semaphore.Wakes]

/-- The runs of such moves. -/
def narrow (rule : MPEventDispatcher.Rule Nat) (setup : Setup) :
    Program (WordCount setup) (Move setup.splitCount) Misuse :=
  { program rule setup with allowed := fun state move => state.permitted move = true }

instance (state : WordCount setup) : DecidablePred ((narrow rule setup).allowed state) :=
  fun move => inferInstanceAs (Decidable (state.permitted move = true))

/-- Two partitions with a counter each, and five words. -/
abbrev fiveWords : Setup := ⟨1, 2, 5, Nat.one_pos, Nat.two_pos⟩

/-- The main thread waits before the first task runs; from then on the two dispatchers take
turns, and the last checkpoint wakes it. -/
private def fiveWordsMoves : List (Move 2) :=
  let first : Fin 2 := ⟨0, Nat.two_pos⟩
  let second : Fin 2 := ⟨1, Nat.one_lt_two⟩
  let main : Caller 2 := .thread 0
  let call (caller : Caller 2) : List (Move 2) := List.replicate 7 (.caller caller)
  let turns (caller : Caller 2) (steps : Nat) : List (Move 2) :=
    List.replicate steps (.semaphore (.advance caller none))
  let up (own : Fin 2) : List (Move 2) := .task own :: turns (.task own) 4 ++ [.task own]
  let both (moves : Fin 2 → List (Move 2)) : List (Move 2) := moves first ++ moves second
  let runs (steps : Nat) : List (Move 2) := both fun own => List.replicate steps (.eventLoop own)
  let step : List (Move 2) := both fun own => [.task own]
  let brings : List (Move 2) := both fun own => .task own :: call (.task own)
  List.flatten [[.main], call main, [.main], call main, [.main], turns main 3, runs 5,
    brings, brings, step, brings, brings, step, runs 10, step, step, runs 10, step, step, runs 10,
    both up, runs 10, up first, .task second :: turns (.task second) 3,
    [.semaphore (.advance (.task second) (some main))], turns (.task second) 1, turns main 4,
    [.main]]

/-- The run of these moves, to its end. -/
private theorem fiveWords_run : ∃ attempts, ∃ state : WordCount fiveWords,
    Run (program .roundRobin fiveWords) attempts (.ok state) ∧ state.main = .checking ∧
      (state.count 0 0, state.count 1 0) = (2, 2) := by
  have shown : ((narrow .roundRobin fiveWords).replay (narrow .roundRobin fiveWords).start
      fiveWordsMoves).map (fun state => (state.main, state.count 0 0, state.count 1 0)) =
      .ok (.checking, 2, 2) := by decide +kernel
  obtain ⟨state, run, seen⟩ := Run.shown (by decide +kernel) shown
  obtain ⟨checking, counted⟩ := Prod.mk.inj seen
  exact ⟨_, state, run.widen (fun _ _ => allowed_of_permitted) rfl rfl, checking, counted⟩

theorem counts_exact_five : ∃ state : WordCount fiveWords, state.main = .checking ∧
    (state.count 0 0, state.count 1 0) = (2, 2) ∧
    (∀ who, state.taskDoneSem.threads who = .idle) ∧
    ∀ destination offset, state.count destination offset =
      fiveWords.occurrences (fiveWords.first 2) destination offset % 4294967296 := by
  obtain ⟨attempts, state, run, checking, counted⟩ := fiveWords_run
  obtain ⟨_, same, facts⟩ := counts_exact (by decide) run
  cases same
  exact ⟨state, checking, counted, (facts checking).2⟩

/-- What has been compared is equal. -/
theorem checkEqual_iff (count1 count2 : Nat → Nat → Nat) (splitCount size : Nat) :
    checkEqual count1 count2 splitCount size = true ↔
      ∀ partition < splitCount, ∀ x < size, count1 partition x = count2 partition x := by
  have block (partition : Nat) (ret : Bool) :
      (List.range size).foldl
        (fun ret x => if count1 partition x ≠ count2 partition x then false else ret) ret = true ↔
      ret = true ∧ ∀ x < size, count1 partition x = count2 partition x := by
    induction size with
    | zero => simp
    | succ size ih =>
      rw [List.range_succ, List.foldl_append, Nat.forall_lt_succ_right, ← and_assoc, ← ih]
      by_cases same : count1 partition size = count2 partition size <;> simp [same]
  unfold checkEqual
  induction splitCount with
  | zero => simp
  | succ splitCount ih =>
    rw [List.range_succ, List.foldl_append, Nat.forall_lt_succ_right]
    exact (block splitCount _).trans (and_congr_left fun _ => ih)

/-- One word more. -/
private theorem occurrences_succ (words destination offset : Nat) :
    setup.occurrences (words + 1) destination offset = setup.occurrences words destination offset +
      if setup.destination words = destination ∧ setup.offset words = offset then 1 else 0 := by
  rw [Setup.occurrences, Finset.range_add_one, Finset.filter_insert]
  split
  · exact Finset.card_insert_of_notMem (by simp)
  · rfl

private theorem inc_apply (count : Nat → Nat → Nat) (block idx amount destination offset : Nat) :
    inc count block idx amount destination offset =
      if block = destination ∧ idx = offset then (count destination offset + amount) % 4294967296
      else count destination offset := by
  by_cases here : block = destination
  · subst here
    by_cases there : idx = offset
    · simp [inc, there]
    · have different : offset ≠ idx := fun same => there same.symm
      simp [inc, there, different]
  · have different : destination ≠ block := fun same => here same.symm
    simp [inc, here, different]

/-- The main thread counts every word. -/
theorem countS_eq (destination offset : Nat) : countS setup destination offset =
    setup.occurrences setup.generateCount destination offset % 4294967296 := by
  unfold countS
  induction setup.generateCount with
  | zero => rfl
  | succ words ih =>
    rw [List.range_succ, List.foldl_append, List.foldl_cons, List.foldl_nil, inc_apply, ih,
      occurrences_succ]
    split
    · omega
    · rw [Nat.add_zero]

/-- The words behind the last partition are fewer than the partitions. -/
private theorem rest_lt (setup : Setup) : setup.first setup.splitCount ≤ setup.generateCount ∧
    setup.generateCount - setup.first setup.splitCount < setup.splitCount := by
  have whole := Nat.div_add_mod setup.generateCount setup.splitCount
  have less := Nat.mod_lt setup.generateCount setup.splitCount_pos
  simp only [Setup.first, Setup.wordsPerSplit]
  omega

/-- What more words add to a counter. -/
private theorem occurrences_le (setup : Setup) {fewer words : Nat} (more : fewer ≤ words)
    (destination offset : Nat) :
    setup.occurrences fewer destination offset ≤ setup.occurrences words destination offset ∧
      setup.occurrences words destination offset ≤
        setup.occurrences fewer destination offset + (words - fewer) := by
  induction words, more using Nat.le_induction with
  | base => simp
  | succ words more ih =>
    rw [occurrences_succ]
    split <;> omega

/-- **The check passes exactly when the partitions share all words.** Otherwise it compares
with words that no map task passes over, and fails. -/
theorem check_passes {attempts : List (WordCount setup × Move setup.splitCount)}
    {state : WordCount setup} (fits : setup.splitCount * setup.splitCount ≤ 2147483648)
    (run : Run (program rule setup) attempts (.ok state)) (checking : state.main = .checking) :
    checkEqual (countS setup) state.count setup.splitCount setup.splitSize = true ↔
      setup.splitCount ∣ setup.generateCount := by
  have counted := count_eq fits (sound_reachable fits ⟨attempts, run⟩) checking
  obtain ⟨inside, less⟩ := rest_lt setup
  rw [checkEqual_iff]
  constructor
  · intro equal
    by_contra rest
    have behind : setup.first setup.splitCount + 1 ≤ setup.generateCount := by
      refine lt_of_le_of_ne inside fun same => rest ?_
      exact Dvd.intro _ same
    -- The first word behind the partitions is counted here and not there.
    have bound : setup.destination (setup.first setup.splitCount) < setup.splitCount := by
      apply Nat.div_lt_of_lt_mul
      rw [Nat.mul_comm]
      exact Nat.mod_lt _ (Nat.mul_pos setup.splitCount_pos setup.splitSize_pos)
    have same := equal _ bound (setup.offset (setup.first setup.splitCount))
      (Nat.mod_lt _ setup.splitSize_pos)
    rw [countS_eq, counted] at same
    obtain ⟨_, most⟩ := occurrences_le setup inside
      (setup.destination (setup.first setup.splitCount))
      (setup.offset (setup.first setup.splitCount))
    obtain ⟨least, _⟩ := occurrences_le setup behind
      (setup.destination (setup.first setup.splitCount))
      (setup.offset (setup.first setup.splitCount))
    rw [occurrences_succ, if_pos ⟨rfl, rfl⟩] at least
    have few : setup.splitCount ≤ setup.splitCount * setup.splitCount := Nat.le_mul_self _
    omega
  · rintro shared partition _ x _
    have all : setup.first setup.splitCount = setup.generateCount :=
      Nat.mul_div_cancel' shared
    rw [countS_eq, counted, all]

/-- The fifth word is in nobody's part. -/
theorem check_passes_five : ∃ state : WordCount fiveWords, state.main = .checking ∧
    (state.count 0 0, state.count 1 0) = (2, 2) ∧
    checkEqual (countS fiveWords) state.count 2 1 = false := by
  obtain ⟨attempts, state, run, checking, counted⟩ := fiveWords_run
  refine ⟨state, checking, counted, Bool.eq_false_iff.mpr fun passes => ?_⟩
  exact absurd ((check_passes (by decide) run checking).mp passes) (by decide)

end EventDisp.WordCount
