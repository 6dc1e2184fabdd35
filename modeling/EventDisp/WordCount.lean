import EventDisp.MPEventDispatcherClients
import EventDisp.SemaphoreProgress

/-! `word_count.cc`: a map task for each partition, a reduce task for each word and a
checkpoint task of each map task for each partition, on as many dispatchers, and the main
thread that waits on a semaphore. An increment of a counter is a read and a write. The
macro for the check is defined; the arguments are `int`s, so no `size_t` but the
semaphore's overflows. -/
namespace EventDisp

open MPEventDispatcher (Caller)

namespace WordCount

/-- The arguments of `doTest`. -/
structure Setup where
  splitSize : Nat
  splitCount : Nat
  generateCount : Nat
  splitSize_pos : 0 < splitSize
  splitCount_pos : 0 < splitCount

namespace Setup

variable (setup : Setup)

/-- `randomWords`. -/
def word (x : Nat) : Nat := x % (setup.splitCount * setup.splitSize)

def destination (x : Nat) : Nat := setup.word x / setup.splitSize

def offset (x : Nat) : Nat := setup.word x % setup.splitSize

def wordsPerSplit : Nat := setup.generateCount / setup.splitCount

/-- `-1 * splitCount * splitCount + 1`, a `size_t`, as an `int`. -/
def initVal : Int :=
  Int.bmod ((18446744073709551615 * setup.splitCount * setup.splitCount + 1) %
    18446744073709551616 : Nat) 4294967296

end Setup

/-- The tasks: of the map task of a partition, the one for the word at `x` or the
checkpoint for the partition `x`. -/
inductive Job (splitCount : Nat) where
  | map (partition : Fin splitCount)
  | reduce (partition : Fin splitCount) (x : Nat)
  | checkpoint (partition : Fin splitCount) (x : Nat)
  deriving DecidableEq, Repr

/-- Tasks are told apart by what they are for. -/
def Job.number : Job splitCount → Nat
  | .map partition => 3 * partition
  | .reduce partition x => 3 * (partition + splitCount * x) + 1
  | .checkpoint partition x => 3 * (partition + splitCount * x) + 2

namespace Setup

variable (setup : Setup)

def job (number : Nat) : Job setup.splitCount :=
  let partition : Fin setup.splitCount :=
    ⟨number / 3 % setup.splitCount, Nat.mod_lt _ setup.splitCount_pos⟩
  match number % 3 with
  | 0 => .map partition
  | 1 => .reduce partition (number / 3 / setup.splitCount)
  | _ => .checkpoint partition (number / 3 / setup.splitCount)

/-- The group a task is enqueued with. -/
def group : Job setup.splitCount → Nat
  | .map partition => partition
  | .reduce _ x => setup.destination x
  | .checkpoint _ x => x

def task (job : Job setup.splitCount) : UnitTask Nat := ⟨job.number, setup.group job⟩

end Setup

/-- Where a task is. -/
inductive Place where
  | waiting
  /-- Before the test of the first loop of `map`. -/
  | words (x : Nat)
  /-- Before the test of the second one. -/
  | checkpoints (x : Nat)
  /-- In `count_[idx] += amount`, before it is read. -/
  | read
  | write (value : Nat)
  /-- Before `sem->up()`. -/
  | call
  /-- In it, and whether `val_` has been incremented. -/
  | up (incremented : Bool)
  | ended
  deriving DecidableEq, Repr

inductive MainPc where
  /-- Before the test of the loop over the partitions. -/
  | enqueueing (partition start stop : Nat)
  /-- In `taskDoneSem.down()`. -/
  | waiting
  /-- Past it: the counts are read and deleted. -/
  | checking
  deriving DecidableEq, Repr

/-- An access past the end of an array, a step that the dispatchers cannot take, or an
overflow of the semaphore. -/
inductive Misuse where
  | outOfBounds
  | dispatcher (fault : Fault)
  | semaphore (overflow : Semaphore.Overflow)
  deriving DecidableEq, Repr

end WordCount

open WordCount in
/-- The dispatchers, the semaphore, the counters, the arguments `start` and `end` that are
bound to the map tasks, and where everybody is. -/
structure WordCount (setup : Setup) where
  system : MPEventDispatcher.System setup.splitCount Nat
  taskDoneSem : Semaphore (Caller setup.splitCount)
  count : Nat → Nat → Nat := fun _ _ => 0
  ranges : Fin setup.splitCount → Nat × Nat := fun _ => (0, 0)
  places : Job setup.splitCount → Place := fun _ => .waiting
  main : MainPc := .enqueueing 0 0 setup.wordsPerSplit

namespace WordCount

variable {setup : Setup}

/-- Who moves: the main thread or a running task, outside of calls; a call of
`enqueueTask`; an event loop; somebody in the semaphore. -/
inductive Move (splitCount : Nat) where
  | main
  | task (dispatcher : Fin splitCount)
  | caller (caller : Caller splitCount)
  | eventLoop (dispatcher : Fin splitCount)
  | semaphore (move : Semaphore.Move (Caller splitCount))
  deriving DecidableEq, Repr

def goto (state : WordCount setup) (job : Job setup.splitCount) (place : Place) : WordCount setup :=
  { state with places := Function.update state.places job place }

/-- The dispatchers take a step. -/
def dispatch (rule : MPEventDispatcher.Rule Nat) (state : WordCount setup)
    (move : MPEventDispatcher.Move setup.splitCount Nat) : Except Misuse (WordCount setup) :=
  match state.system.exec rule move with
  | .ok system => .ok { state with system }
  | .error fault => .error (.dispatcher fault)

/-- `Dispatcher::instance()->enqueue`. -/
def enqueue (rule : MPEventDispatcher.Rule Nat) (state : WordCount setup)
    (caller : Caller setup.splitCount) (job : Job setup.splitCount) : Except Misuse (WordCount setup) :=
  state.dispatch rule (.enqueueTask caller (some (setup.task job)))

/-- The semaphore takes a step. -/
def operate (state : WordCount setup) (move : Semaphore.Move (Caller setup.splitCount)) :
    Except Misuse (WordCount setup) :=
  match state.taskDoneSem.exec move with
  | .ok taskDoneSem => .ok { state with taskDoneSem }
  | .error overflow => .error (.semaphore overflow)

/-- The next step of `doTest`. -/
def mainStep (rule : MPEventDispatcher.Rule Nat) (state : WordCount setup) :
    Except Misuse (WordCount setup) :=
  match state.main with
  | .enqueueing partition start stop =>
    if inside : partition < setup.splitCount then
      { state with
        ranges := Function.update state.ranges ⟨partition, inside⟩ (start, stop)
        main := .enqueueing (partition + 1) stop (stop + setup.wordsPerSplit) }.enqueue
          rule (.thread 0) (.map ⟨partition, inside⟩)
    else { state with main := .waiting }.operate (.down (.thread 0))
  | .waiting => .ok { state with main := .checking }
  | .checking => .ok state

/-- The next step of `map`, `reduce` or `checkpoint`. -/
def jobStep (rule : MPEventDispatcher.Rule Nat) (state : WordCount setup)
    (dispatcher : Fin setup.splitCount) (job : Job setup.splitCount) :
    Except Misuse (WordCount setup) :=
  match job, state.places job with
  | .map partition, .words x =>
    if x < (state.ranges partition).2 then
      if x < setup.generateCount ∧ setup.destination x < setup.splitCount then
        (state.goto job (.words (x + 1))).enqueue rule (.task dispatcher) (.reduce partition x)
      else .error .outOfBounds
    else .ok (state.goto job (.checkpoints 0))
  | .map partition, .checkpoints x =>
    if x < setup.splitCount then
      (state.goto job (.checkpoints (x + 1))).enqueue rule (.task dispatcher) (.checkpoint partition x)
    else .ok (state.goto job .ended)
  | .reduce _ x, .read =>
    if setup.offset x < setup.splitSize then
      .ok (state.goto job (.write (state.count (setup.destination x) (setup.offset x))))
    else .error .outOfBounds
  | .reduce _ x, .write value =>
    let block := Function.update (state.count (setup.destination x)) (setup.offset x)
      ((value + 1) % 4294967296)
    .ok ({ state with count := Function.update state.count (setup.destination x) block }.goto job .ended)
  | .checkpoint .., .call => (state.goto job (.up false)).operate (.up (.task dispatcher))
  | .checkpoint .., .up _ => .ok (state.goto job .ended)
  | _, _ => .ok state

/-- Where a task begins. -/
def entry (state : WordCount setup) : Job setup.splitCount → Place
  | .map partition => .words (state.ranges partition).1
  | .reduce .. => .read
  | .checkpoint .. => .call

/-- The task that a dispatcher has just begun to run is at its beginning. -/
def begun (state : WordCount setup) (before : Option (UnitTask Nat))
    (dispatcher : Fin setup.splitCount) : WordCount setup :=
  match before, state.system.running dispatcher with
  | none, some task => state.goto (setup.job task.number) (state.entry (setup.job task.number))
  | _, _ => state

/-- The increment in `up` is noted with the task that is in it. -/
def noted (state : WordCount setup) (move : Semaphore.Move (Caller setup.splitCount)) :
    WordCount setup :=
  match move with
  | .advance (.task dispatcher) _ =>
    match state.taskDoneSem.threads (.task dispatcher), state.system.running dispatcher with
    | .increment, some task => state.goto (setup.job task.number) (.up true)
    | _, _ => state
  | .advance (.thread _) _ | .up _ | .down _ | .wake _ => state

def exec (rule : MPEventDispatcher.Rule Nat) (state : WordCount setup) :
    Move setup.splitCount → Except Misuse (WordCount setup)
  | .main => state.mainStep rule
  | .task dispatcher =>
    match state.system.running dispatcher with
    | some task => state.jobStep rule dispatcher (setup.job task.number)
    | none => .ok state
  | .caller caller => state.dispatch rule (.caller caller)
  | .eventLoop dispatcher =>
    match state.dispatch rule (.eventLoop dispatcher) with
    | .ok after => .ok (after.begun (state.system.running dispatcher) dispatcher)
    | .error misuse => .error misuse
  | .semaphore move => (state.noted move).operate move

/-- Whether the move can be made: outside of calls there are none, a task ends at its end,
and nobody else calls the semaphore. -/
def Allowed (state : WordCount setup) : Move setup.splitCount → Prop
  | .main =>
    state.main ≠ .checking ∧ state.system.call (.thread 0) = none ∧
      state.taskDoneSem.threads (.thread 0) = .idle
  | .task dispatcher =>
    ∃ task, state.system.running dispatcher = some task ∧
      state.places (setup.job task.number) ≠ .ended ∧
      state.system.call (.task dispatcher) = none ∧
      state.taskDoneSem.threads (.task dispatcher) = .idle
  | .caller caller => state.system.dispatcher.enabled (.caller caller) = true
  | .eventLoop dispatcher =>
    state.system.dispatcher.enabled (.eventLoop dispatcher) = true ∧
      ∀ task, state.system.running dispatcher = some task →
        state.places (setup.job task.number) = .ended
  | .semaphore move =>
    (match move with
      | .advance .. | .wake _ => True
      | .up _ | .down _ => False) ∧ state.taskDoneSem.Allowed move

/-- `CountBlock::inc`, on one of the blocks. -/
def inc (count : Nat → Nat → Nat) (block idx amount : Nat) : Nat → Nat → Nat :=
  Function.update count block
    (Function.update (count block) idx ((count block idx + amount) % 4294967296))

/-- What the main thread counts to compare with, all words one behind the other. -/
def countS (setup : Setup) : Nat → Nat → Nat :=
  (List.range setup.generateCount).foldl
    (fun countS x => inc countS (setup.destination x) (setup.offset x) 1) fun _ _ => 0

def checkEqual (count1 count2 : Nat → Nat → Nat) (splitCount size : Nat) : Bool :=
  (List.range splitCount).foldl
    (fun ret partition =>
      (List.range size).foldl
        (fun ret x => if count1 partition x ≠ count2 partition x then false else ret) ret) true

/-- Every interleaving, from the call of `doTest` on. -/
def program (rule : MPEventDispatcher.Rule Nat) (setup : Setup) :
    Execution.Program (WordCount setup) (Move setup.splitCount) Misuse where
  start :=
    { system := (MPEventDispatcher.program setup.splitCount rule).start
      taskDoneSem := (Semaphore.program (Caller setup.splitCount) setup.initVal).start }
  allowed := Allowed
  exec := exec rule

end WordCount
end EventDisp
