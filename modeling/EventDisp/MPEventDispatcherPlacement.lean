import EventDisp.MPEventDispatcherOrder
import EventDisp.General.RoundRobin

/-! Where the rule that is not `USE_HASHING` sends tasks: the ids are dealt out to
the dispatchers in turn, each when it first appears. -/
namespace EventDisp.MPEventDispatcher

open Execution

variable {τ : Type} [DecidableEq τ] {concurrentTaskCount : Nat}
variable {system after : System concurrentTaskCount τ} {move : Move concurrentTaskCount τ}
variable {attempts : List (System concurrentTaskCount τ × Move concurrentTaskCount τ)}

/-- The id a destination is chosen for in an attempt. -/
def chosenFor (attempt : System concurrentTaskCount τ × Move concurrentTaskCount τ) : Option τ :=
  match attempt.2 with
  | .caller caller =>
    match attempt.1.dispatcher.callers caller with
    | .choose (some newTask) => some newTask.id
    | _ => none
  | _ => none

/-- The ids in the order they first appear. -/
def appeared (attempts : List (System concurrentTaskCount τ × Move concurrentTaskCount τ)) :
    List τ :=
  (attempts.filterMap chosenFor).eraseDups

/-- An id appears once. -/
theorem appeared_concat (attempt : System concurrentTaskCount τ × Move concurrentTaskCount τ) :
    appeared (attempts ++ [attempt]) =
      match chosenFor attempt with
      | some id => if id ∈ appeared attempts then appeared attempts else appeared attempts ++ [id]
      | none => appeared attempts := by
  cases chosen : chosenFor attempt with
  | none => simp [appeared, chosen]
  | some id =>
    have more : (attempts ++ [attempt]).filterMap chosenFor = attempts.filterMap chosenFor ++
      [id] := by
      simp [chosen]
    rw [appeared, more, List.eraseDups_append]
    by_cases seen : id ∈ attempts.filterMap chosenFor
    · simp [appeared, List.removeAll, seen]
    · simp [appeared, List.removeAll, seen, List.eraseDups_cons]

/-- What a step does to the table and the token: a choice, or nothing. -/
theorem exec_chooses {rule : Rule τ}
    (ran : (program concurrentTaskCount rule).exec system move = .ok after) :
    (after.dispatcher.taskIDTable, after.dispatcher.roundRobinToken) =
      match chosenFor (system, move) with
      | some id => ((system.dispatcher.chooseDestination rule id).1.taskIDTable,
          (system.dispatcher.chooseDestination rule id).1.roundRobinToken)
      | none => (system.dispatcher.taskIDTable, system.dispatcher.roundRobinToken) := by
  have dispatched {dispatcher moved : MPEventDispatcher concurrentTaskCount τ}
    {destination : Fin concurrentTaskCount}
      {inner : EventDispatcher.Move (Caller concurrentTaskCount) τ}
      {events : List (Event concurrentTaskCount τ)}
      (stepped : dispatcher.dispatch destination inner = .ok (moved, events)) :
      moved.taskIDTable = dispatcher.taskIDTable ∧
        moved.roundRobinToken = dispatcher.roundRobinToken := by
    simp only [dispatch] at stepped
    split at stepped
    · cases stepped
      exact ⟨rfl, rfl⟩
    · cases stepped
  simp only [program, System.exec] at ran
  split at ran
  · rename_i moved events stepped
    cases ran
    cases move with
    | enqueueTask | stop | resume =>
      cases stepped
      rfl
    | eventLoop own =>
      obtain ⟨table, token⟩ := dispatched stepped
      exact Prod.ext table token
    | caller caller =>
      simp only [step, callerStep] at stepped
      simp only [chosenFor]
      cases pc : system.dispatcher.callers caller with
      | idle =>
        simp only [pc] at stepped
        cases stepped
        rfl
      | choose newTask =>
        cases newTask with
        | none => simp [pc] at stepped
        | some newTask =>
          simp only [pc] at stepped
          cases stepped
          rfl
      | forward newTask taskDestination =>
        simp only [pc] at stepped
        split at stepped
        · obtain ⟨table, token⟩ := dispatched stepped
          exact Prod.ext table token
        · cases stepped
      | inside newTask taskDestination =>
        simp only [pc] at stepped
        split at stepped
        · cases stepped
          rfl
        · obtain ⟨table, token⟩ := dispatched stepped
          exact Prod.ext table token
  · cases ran

/-- The ids that have appeared are dealt out, and the token is whose turn it is. -/
structure Placed (dispatcher : MPEventDispatcher concurrentTaskCount τ) (ids : List τ) : Prop where
  dealt : RoundRobin.Dealt concurrentTaskCount ids dispatcher.taskIDTable.lookup
  token : dispatcher.roundRobinToken = ids.length % concurrentTaskCount

/-- A choice deals out an id that has not appeared. -/
theorem choice_placed {dispatcher : MPEventDispatcher concurrentTaskCount τ} {ids : List τ}
    (positive : 0 < concurrentTaskCount) (placed : Placed dispatcher ids) (id : τ) :
    Placed (dispatcher.chooseDestination .roundRobin id).1
    (if id ∈ ids then ids else ids ++ [id]) := by
  cases found : dispatcher.taskIDTable.lookup id with
  | some destination =>
    rw [if_pos (placed.dealt.mem_iff.mpr (by rw [found]; nofun))]
    simpa only [chooseDestination, found] using placed
  | none =>
    have unseen : id ∉ ids := fun seen => placed.dealt.mem_iff.mp seen found
    rw [if_neg unseen]
    simp only [chooseDestination, found]
    refine ⟨placed.dealt.concat unseen ?_ fun other different =>
      FiniteMap.lookup_insert_other _ _ different, ?_⟩
    · rw [FiniteMap.lookup_insert_same, placed.token]
    · rw [List.length_append]
      exact RoundRobin.wrap positive placed.token

theorem Placed.congr {dispatcher other : MPEventDispatcher concurrentTaskCount τ} {ids : List τ}
    (placed : Placed dispatcher ids)
    (same : (other.taskIDTable, other.roundRobinToken) = (dispatcher.taskIDTable,
      dispatcher.roundRobinToken)) :
    Placed other ids := by
  obtain ⟨table, token⟩ := Prod.mk.inj same
  exact ⟨table ▸ placed.dealt, token ▸ placed.token⟩

theorem run_placed (positive : 0 < concurrentTaskCount)
    (run : Run (program concurrentTaskCount .roundRobin) attempts (.ok system)) :
    Placed system.dispatcher (appeared attempts) := by
  generalize ended : Except.ok system = outcome at run
  induction run generalizing system with
  | start =>
    cases ended
    exact ⟨.nil, (Nat.zero_mod _).symm⟩
  | @step attempts before move earlier allowed ih =>
    have placed := ih rfl
    have chose := exec_chooses ended.symm
    rw [appeared_concat]
    cases chosen : chosenFor (before, move) with
    | none =>
      rw [chosen] at chose
      exact placed.congr chose
    | some id =>
      rw [chosen] at chose
      exact (choice_placed positive placed id).congr chose

/-- What appeared first stays first. -/
theorem prefix_of_appeared
    {earlier : List (System concurrentTaskCount τ × Move concurrentTaskCount τ)}
    (before : earlier <+: attempts) : appeared earlier <+: appeared attempts := by
  obtain ⟨later, rfl⟩ := before
  simp only [appeared, List.filterMap_append, List.eraseDups_append]
  exact List.prefix_append ..

/-- What the rule promises about where tasks go. -/
structure RoundRobinPlacement
    (attempts : List (System concurrentTaskCount τ × Move concurrentTaskCount τ))
    (system : System concurrentTaskCount τ) : Prop where
  /-- The dispatchers take turns with the ids that appear. -/
  inTurn : ∀ turn id, (appeared attempts)[turn]? = some id →
    system.dispatcher.taskIDTable.lookup id = some (turn % concurrentTaskCount)
  /-- Another id is not assigned yet. -/
  others : ∀ id, id ∉ appeared attempts → system.dispatcher.taskIDTable.lookup id = none
  /-- What an id was assigned to earlier, it is assigned to. -/
  forGood : ∀ earlier before, earlier <+: attempts →
    Run (program concurrentTaskCount .roundRobin) earlier (.ok before) →
    ∀ id destination, before.dispatcher.taskIDTable.lookup id = some destination →
      system.dispatcher.taskIDTable.lookup id = some destination
  /-- A call is about to hand its task to the dispatcher of the task's id. -/
  destined : ∀ caller newTask destination,
    system.dispatcher.callers caller = .forward newTask destination →
    system.dispatcher.taskIDTable.lookup newTask.id = some destination
  /-- Dispatchers are handed the tasks of their ids. -/
  dispatched : ∀ destination caller task, .dispatched destination (.called caller (some task)) ∈
    system.log →
    system.dispatcher.taskIDTable.lookup task.id = some destination.val
  inRange : ∀ id destination, system.dispatcher.taskIDTable.lookup id = some destination →
    destination < concurrentTaskCount
  /-- An id that has appeared does not advance the token. -/
  repeated : ∀ caller newTask after, system.dispatcher.callers caller = .choose (some newTask) →
    newTask.id ∈ appeared attempts → (program concurrentTaskCount .roundRobin).exec system
    (.caller caller) = .ok after →
    after.dispatcher.roundRobinToken = system.dispatcher.roundRobinToken
  /-- No dispatcher has two ids more than another. -/
  balanced : ∀ one two : Fin concurrentTaskCount,
    Set.ncard { id | system.dispatcher.taskIDTable.lookup id = some one.val } ≤
      Set.ncard { id | system.dispatcher.taskIDTable.lookup id = some two.val } + 1

/-- **Ids are dealt out in turn.** Where `USE_HASHING` is not defined, in every interleaving. -/
theorem round_robin_placement (positive : 0 < concurrentTaskCount)
    (run : Run (program concurrentTaskCount .roundRobin) attempts (.ok system)) :
    RoundRobinPlacement attempts system := by
  have dealt := (run_placed positive run).dealt
  have sequenced := reachable_sequenced positive ⟨attempts, run⟩
  refine ⟨dealt.inTurn, dealt.others, ?_, ?_, ?_, fun id destination => dealt.inRange positive, ?_,
    fun one two => dealt.balanced one.isLt two.isLt⟩
  · intro earlier before shorter reached id destination assigned
    obtain ⟨turn, here, rfl⟩ := (run_placed positive reached).dealt.position assigned
    obtain ⟨bound, is_id⟩ := List.getElem?_eq_some_iff.mp here
    apply dealt.inTurn turn id
    rw [List.prefix_iff_getElem?.mp (prefix_of_appeared shorter) turn bound, is_id]
  · intro caller newTask destination pc
    have located := sequenced.located caller
    simp only [Located, pc] at located
    exact located.2.1
  · intro destination caller task member
    refine sequenced.routed destination task (.inl ?_)
    simp only [EventDispatcher.handed, System.seenAt, logOf, List.mem_filterMap]
    exact ⟨_, ⟨_, member, if_pos rfl⟩, rfl⟩
  · intro caller newTask after pc seen ran
    have chose := congrArg Prod.snd (exec_chooses ran)
    simp only [chosenFor, pc] at chose
    rw [chose]
    cases found : system.dispatcher.taskIDTable.lookup newTask.id with
    | some destination => simp only [chooseDestination, found]
    | none => exact absurd found (dealt.mem_iff.mp seen)

/-- Two ids for two dispatchers, the first of them twice. -/
theorem round_robin_placement_run :
    ∃ system, (program 2 .roundRobin).replay (program 2 .roundRobin).start sampleMoves =
    .ok system ∧
      RoundRobinPlacement ((program 2 .roundRobin).trace (program 2 .roundRobin).start sampleMoves)
      system :=
  ⟨_, rfl, round_robin_placement (by decide)
    (Execution.replayed (program 2 .roundRobin) sampleMoves (by decide +kernel))⟩

end EventDisp.MPEventDispatcher
