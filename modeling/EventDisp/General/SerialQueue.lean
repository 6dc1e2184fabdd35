import Mathlib.Data.List.Basic

/-! A queue of distinct items served one at a time, in order, by one worker. An
item stays at the head while it is served; the worker may skip items once the
queue is closing, and stops when it is closing and empty. What such a server does
is read off the log of its events. -/
namespace EventDisp.SerialQueue

inductive Event (α : Type u) where
  | pushed (item : α)
  | started (item : α)
  | skipped (item : α)
  | finished (item : α)
  | removed (item : α)
  | deleted (item : α)
  | closing
  | closed
  deriving DecidableEq, Repr

/-- What the worker is doing: with the head of the queue, until it is removed. -/
inductive Phase (α : Type u) where
  | idle
  | started (item : α)
  | served (item : α)
  | removed (item : α)

structure Server (α : Type u) where
  queue : List α := []
  phase : Phase α := .idle
  isClosing : Bool := false
  isClosed : Bool := false

inductive Step : Server α → Event α → Server α → Prop where
  | push (opened : server.isClosed = false) :
      Step server (.pushed item) { server with queue := server.queue ++ [item] }
  | start (head : server.queue.head? = some item) (idle : server.phase = .idle) :
      Step server (.started item) { server with phase := .started item }
  | skip (head : server.queue.head? = some item) (idle : server.phase = .idle)
      (closing : server.isClosing = true) :
      Step server (.skipped item) { server with phase := .served item }
  | finish (started : server.phase = .started item) :
      Step server (.finished item) { server with phase := .served item }
  | remove (shape : server.queue = item :: rest) (served : server.phase = .served item) :
      Step server (.removed item) { server with queue := rest, phase := .removed item }
  | delete (removed : server.phase = .removed item) :
      Step server (.deleted item) { server with phase := .idle }
  | close : Step server .closing { server with isClosing := true }
  | exit (closing : server.isClosing = true) (empty : server.queue = []) (idle : server.phase = .idle) :
      Step server .closed { server with isClosed := true }

section Projections

variable {α : Type u}

@[simp] def Event.pushed? : Event α → Option α | .pushed item => some item | _ => none
@[simp] def Event.started? : Event α → Option α | .started item => some item | _ => none
@[simp] def Event.skipped? : Event α → Option α | .skipped item => some item | _ => none
@[simp] def Event.finished? : Event α → Option α | .finished item => some item | _ => none
@[simp] def Event.removed? : Event α → Option α | .removed item => some item | _ => none
@[simp] def Event.deleted? : Event α → Option α | .deleted item => some item | _ => none

/-- The worker turned to the item, to serve it or to skip it. -/
@[simp] def Event.attended? : Event α → Option α | .started item | .skipped item => some item | _ => none

/-- The items the log mentions in one kind of event, in order. -/
def project (kind : Event α → Option α) (log : List (Event α)) : List α := log.filterMap kind

abbrev pushed : List (Event α) → List α := project Event.pushed?
abbrev started : List (Event α) → List α := project Event.started?
abbrev skipped : List (Event α) → List α := project Event.skipped?
abbrev finished : List (Event α) → List α := project Event.finished?
abbrev removed : List (Event α) → List α := project Event.removed?
abbrev deleted : List (Event α) → List α := project Event.deleted?
abbrev attended : List (Event α) → List α := project Event.attended?

@[simp] theorem project_nil (kind : Event α → Option α) : project kind [] = [] := rfl

@[simp] theorem project_append (kind : Event α → Option α) (log more : List (Event α)) :
    project kind (log ++ more) = project kind log ++ project kind more :=
  List.filterMap_append ..

@[simp] theorem project_cons (kind : Event α → Option α) (event : Event α) (log : List (Event α)) :
    project kind (event :: log) = (kind event).toList ++ project kind log := by
  cases picked : kind event <;> simp [project, picked]

end Projections

/-- The log is one the server can have, and leaves it in this state. No item is
pushed twice. -/
inductive Accepts {α : Type u} : List (Event α) → Server α → Prop where
  | start : Accepts [] {}
  | step (before : Accepts log server) (fresh : ∀ item, event = .pushed item → item ∉ pushed log)
      (stepped : Step server event next) : Accepts (log ++ [event]) next

variable {α : Type u} {log earlier later : List (Event α)} {server : Server α} {item : α}
  {event : Event α}

/-- Every prefix of an accepted log is accepted, up to the step after it. -/
theorem Accepts.cut (accepts : Accepts (earlier ++ event :: later) server) :
    ∃ before after, Accepts earlier before ∧ Step before event after ∧
      ∀ item, event = .pushed item → item ∉ pushed earlier := by
  generalize whole : earlier ++ event :: later = log at accepts
  induction accepts generalizing later with
  | start => simp at whole
  | @step log _ last _ before fresh stepped ih =>
    rcases List.eq_nil_or_concat later with rfl | ⟨init, final, rfl⟩
    · obtain ⟨rfl, same⟩ := List.append_inj' whole rfl
      cases same
      exact ⟨_, _, before, stepped, fresh⟩
    · have shape : (earlier ++ event :: init) ++ [final] = log ++ [last] := by simpa using whole
      obtain ⟨rfl, _⟩ := List.append_inj' shape rfl
      exact ih rfl

/-- The item being served. -/
@[simp] def Phase.running : Phase α → List α
  | .started item => [item]
  | .idle | .served _ | .removed _ => []

/-- The item the worker has turned to and not yet removed. -/
@[simp] def Phase.attending : Phase α → List α
  | .started item | .served item => [item]
  | .idle | .removed _ => []

/-- The removed item that is still to be deleted. -/
@[simp] def Phase.deleting : Phase α → List α
  | .removed item => [item]
  | .idle | .started _ | .served _ => []

/-- How the events of a log account for each other. -/
structure Accounts (log : List (Event α)) (server : Server α) : Prop where
  distinct : (pushed log).Nodup
  order : pushed log = removed log ++ server.queue
  deletion : removed log = deleted log ++ server.phase.deleting
  running : started log = finished log ++ server.phase.running
  attention : attended log = removed log ++ server.phase.attending
  settled : ∀ item ∈ attended log,
    item ∈ finished log ∨ item ∈ skipped log ∨ item ∈ server.phase.running
  closing : server.isClosing = true ↔ .closing ∈ log
  skipping : ∀ item ∈ skipped log, server.isClosing = true
  closed : server.isClosed = true ↔ .closed ∈ log
  empty : server.isClosed = true → server.queue = [] ∧ server.phase = .idle ∧
    server.isClosing = true

private theorem Accounts.start : Accounts [] ({} : Server α) := by
  constructor <;> simp

private theorem Accounts.push (accounts : Accounts log server) (fresh : item ∉ pushed log)
    (opened : server.isClosed = false) :
    Accounts (log ++ [.pushed item]) { server with queue := server.queue ++ [item] } := by
  obtain ⟨distinct, order, deletion, running, attention, settled, closing, skipping, closed,
    empty⟩ := accounts
  refine ⟨?_, by simp [order], by simpa using deletion, by simpa using running, by simpa using attention,
    by simpa using settled, by simpa using closing, by simpa using skipping, by simpa using closed, ?_⟩
  · simp only [project_append, List.nodup_append]
    refine ⟨distinct, by simp, ?_⟩
    rintro other inside last now rfl
    rw [show other = item by simpa using now] at inside
    exact fresh inside
  · intro ended
    simp [opened] at ended

/-- The worker turns to the item at the head, to serve it. -/
private theorem Accounts.turn (accounts : Accounts log server) (head : server.queue.head? = some item)
    (idle : server.phase = .idle) : Accounts (log ++ [.started item]) { server with phase := .started item } := by
  obtain ⟨distinct, order, deletion, running, attention, settled, closing, skipping, closed, empty⟩ := accounts
  simp only [idle, Phase.deleting, Phase.running, Phase.attending, List.append_nil] at deletion running attention settled
  refine ⟨by simpa using distinct, by simpa using order, by simpa using deletion, by simp [running],
    by simp [attention], ?_, by simpa using closing, by simpa using skipping, by simpa using closed, ?_⟩
  · intro other inside
    simp only [project_append, List.mem_append] at inside ⊢
    rcases inside with before | now
    · rcases settled other before with finished | skipped | impossible
      · exact .inl (.inl finished)
      · exact .inr (.inl (.inl skipped))
      · cases impossible
    · exact .inr (.inr (by simpa using now))
  · intro ended
    simp [(empty (by simpa using ended)).1] at head

/-- The worker turns to the item at the head, to skip it. -/
private theorem Accounts.skip (accounts : Accounts log server) (head : server.queue.head? = some item)
    (idle : server.phase = .idle) (closed : server.isClosing = true) :
    Accounts (log ++ [.skipped item]) { server with phase := .served item } := by
  obtain ⟨distinct, order, deletion, running, attention, settled, closing, skipping, ended, empty⟩ := accounts
  simp only [idle, Phase.deleting, Phase.running, Phase.attending, List.append_nil] at deletion running attention settled
  refine ⟨by simpa using distinct, by simpa using order, by simpa using deletion, by simp [running],
    by simp [attention], ?_, by simpa using closing, fun _ _ => closed, by simpa using ended, ?_⟩
  · intro other inside
    simp only [project_append, List.mem_append] at inside ⊢
    rcases inside with before | now
    · rcases settled other before with finished | skipped | impossible
      · exact .inl (.inl finished)
      · exact .inr (.inl (.inl skipped))
      · cases impossible
    · exact .inr (.inl (.inr (by simpa using now)))
  · intro stopped
    simp [(empty (by simpa using stopped)).1] at head

private theorem Accounts.finish (accounts : Accounts log server) (started : server.phase = .started item) :
    Accounts (log ++ [.finished item]) { server with phase := .served item } := by
  obtain ⟨distinct, order, deletion, running, attention, settled, closing, skipping, closed, empty⟩ := accounts
  simp only [started, Phase.deleting, Phase.running, Phase.attending, List.append_nil] at deletion running attention settled
  refine ⟨by simpa using distinct, by simpa using order, by simpa using deletion, by simp [running],
    by simp [attention], ?_, by simpa using closing, by simpa using skipping, by simpa using closed, ?_⟩
  · intro other inside
    simp only [project_append, List.mem_append] at inside ⊢
    rcases inside with before | now
    · rcases settled other before with finished | skipped | running
      · exact .inl (.inl finished)
      · exact .inr (.inl (.inl skipped))
      · exact .inl (.inr (by simpa using running))
    · simp at now
  · intro ended
    simp [(empty (by simpa using ended)).2.1] at started

private theorem Accounts.remove (accounts : Accounts log server) {rest : List α}
    (shape : server.queue = item :: rest) (served : server.phase = .served item) :
    Accounts (log ++ [.removed item]) { server with queue := rest, phase := .removed item } := by
  obtain ⟨distinct, order, deletion, running, attention, settled, closing, skipping, closed, empty⟩ := accounts
  simp only [served, Phase.deleting, Phase.running, Phase.attending, List.append_nil] at deletion running attention settled
  refine ⟨by simpa using distinct, by simp [order, shape], by simp [deletion], by simp [running],
    by simp [attention], by simpa using settled, by simpa using closing, by simpa using skipping,
    by simpa using closed, ?_⟩
  intro ended
  simp [(empty (by simpa using ended)).1] at shape

private theorem Accounts.delete (accounts : Accounts log server) (gone : server.phase = .removed item) :
    Accounts (log ++ [.deleted item]) { server with phase := .idle } := by
  obtain ⟨distinct, order, deletion, running, attention, settled, closing, skipping, closed, empty⟩ := accounts
  simp only [gone, Phase.deleting, Phase.running, Phase.attending, List.append_nil] at deletion running attention settled
  refine ⟨by simpa using distinct, by simpa using order, by simp [deletion], by simp [running],
    by simp [attention], by simpa using settled, by simpa using closing, by simpa using skipping,
    by simpa using closed, ?_⟩
  intro ended
  simp [(empty (by simpa using ended)).2.1] at gone

private theorem Accounts.close (accounts : Accounts log server) :
    Accounts (log ++ [.closing]) { server with isClosing := true } := by
  obtain ⟨distinct, order, deletion, running, attention, settled, closing, skipping, closed,
    empty⟩ := accounts
  refine ⟨by simpa using distinct, by simpa using order, by simpa using deletion, by simpa using running,
    by simpa using attention, by simpa using settled, by simp, fun _ _ => rfl, by simpa using closed, ?_⟩
  intro ended
  obtain ⟨none, idle, _⟩ := empty (by simpa using ended)
  exact ⟨none, idle, rfl⟩

private theorem Accounts.exit (accounts : Accounts log server) (closed : server.isClosing = true)
    (none : server.queue = []) (idle : server.phase = .idle) :
    Accounts (log ++ [.closed]) { server with isClosed := true } := by
  obtain ⟨distinct, order, deletion, running, attention, settled, closing, skipping, ended,
    empty⟩ := accounts
  exact ⟨by simpa using distinct, by simpa using order, by simpa using deletion, by simpa using running,
    by simpa using attention, by simpa using settled, by simpa using closing, by simpa using skipping,
    by simp, fun _ => ⟨none, idle, closed⟩⟩

theorem Accepts.accounts (accepts : Accepts log server) : Accounts log server := by
  induction accepts with
  | start => exact .start
  | step before fresh stepped ih =>
    cases stepped with
    | push opened => exact ih.push (fresh _ rfl) opened
    | start head idle => exact ih.turn head idle
    | skip head idle closing => exact ih.skip head idle closing
    | finish started => exact ih.finish started
    | remove shape served => exact ih.remove shape served
    | delete removed => exact ih.delete removed
    | close => exact ih.close
    | exit closing empty idle => exact ih.exit closing empty idle

/-- An item in the queue has not been removed. -/
theorem Accepts.queued_not_removed (accepts : Accepts log server) (queued : item ∈ server.queue) :
    item ∈ pushed log ∧ item ∉ removed log := by
  have accounts := accepts.accounts
  refine ⟨by simp [accounts.order, queued], ?_⟩
  intro gone
  have distinct := accounts.distinct
  rw [accounts.order, List.nodup_append] at distinct
  exact distinct.2.2 item gone item queued rfl

/-- What the worker turned to is everything removed and the item at hand. -/
theorem Accepts.started_attended (_ : Accepts log server) (begun : item ∈ started log) :
    item ∈ attended log := by
  obtain ⟨event, member, kind⟩ := List.mem_filterMap.mp begun
  refine List.mem_filterMap.mpr ⟨event, member, ?_⟩
  cases event <;> simp_all

/-- An item is started at the head of the queue, for the first time, when nothing
else is being served. -/
theorem Accepts.started_at (accepts : Accepts (earlier ++ .started item :: later) server) :
    item ∈ pushed earlier ∧ item ∉ removed earlier ∧ item ∉ started earlier ∧
    started earlier = finished earlier := by
  obtain ⟨before, after, prior, stepped, _⟩ := accepts.cut
  have accounts := prior.accounts
  cases stepped with
  | start head idle =>
    obtain ⟨inside, present⟩ := prior.queued_not_removed (List.mem_of_head? head)
    have attention := accounts.attention
    have running := accounts.running
    simp only [idle, Phase.attending, Phase.running, List.append_nil] at attention running
    exact ⟨inside, present, fun begun => present (attention ▸ prior.started_attended begun),
      running⟩

/-- An item is skipped at the head of the queue, not having been started, when the
queue is closing. -/
theorem Accepts.skipped_at (accepts : Accepts (earlier ++ .skipped item :: later) server) :
    item ∈ pushed earlier ∧ item ∉ removed earlier ∧ item ∉ started earlier ∧
    .closing ∈ earlier := by
  obtain ⟨before, after, prior, stepped, _⟩ := accepts.cut
  have accounts := prior.accounts
  cases stepped with
  | skip head idle closing =>
    obtain ⟨inside, present⟩ := prior.queued_not_removed (List.mem_of_head? head)
    have attention := accounts.attention
    simp only [idle, Phase.attending, List.append_nil] at attention
    exact ⟨inside, present, fun begun => present (attention ▸ prior.started_attended begun),
      accounts.closing.mp closing⟩

/-- An item is removed once it was served to the end or skipped. -/
theorem Accepts.removed_at (accepts : Accepts (earlier ++ .removed item :: later) server) :
    item ∈ finished earlier ∨ item ∈ skipped earlier := by
  obtain ⟨before, after, prior, stepped, _⟩ := accepts.cut
  have accounts := prior.accounts
  cases stepped with
  | remove shape served =>
    have attended : item ∈ attended earlier := by simp [accounts.attention, served]
    simpa [served] using accounts.settled item attended

/-- When the worker stops, everything pushed was removed and deleted. -/
theorem Accepts.closed_at (accepts : Accepts (earlier ++ .closed :: later) server) :
    removed earlier = pushed earlier ∧ deleted earlier = pushed earlier := by
  obtain ⟨before, after, prior, stepped, _⟩ := accepts.cut
  have accounts := prior.accounts
  cases stepped with
  | exit closing empty idle =>
    have order := accounts.order
    have deletion := accounts.deletion
    simp only [empty, idle, Phase.deleting, List.append_nil] at order deletion
    exact ⟨order.symm, by rw [order, deletion]⟩

/-- Nothing is pushed once the worker has stopped. -/
theorem Accepts.nothing_pushed_after_closed
    (accepts : Accepts (earlier ++ .closed :: later) server) :
    pushed later = [] := by
  apply List.eq_nil_iff_forall_not_mem.mpr
  intro item inside
  obtain ⟨event, member, kind⟩ := List.mem_filterMap.mp inside
  obtain ⟨front, back, rfl⟩ := List.append_of_mem member
  have shape : earlier ++ .closed :: (front ++ event :: back) = (earlier ++ .closed :: front) ++
    event :: back := by
    simp
  rw [shape] at accepts
  obtain ⟨before, after, prior, stepped, _⟩ := accepts.cut
  cases stepped with
  | push opened =>
    have closed := prior.accounts.closed.mpr (by simp)
    rw [opened] at closed
    cases closed
  | start | skip | finish | remove | delete | close | exit => cases kind

/-- Items are started in the order they were pushed: one pushed before has been
removed by then, served to the end or skipped. -/
theorem Accepts.started_in_order {first second : α} {front back : List α}
    (accepts : Accepts (earlier ++ .started second :: later) server)
    (order : pushed (earlier ++ .started second :: later) = front ++ second :: back)
    (ahead : first ∈ front) :
    first ∈ removed earlier ∧ (first ∈ finished earlier ∨ first ∈ skipped earlier) := by
  have distinct := accepts.accounts.distinct
  obtain ⟨before, after, prior, stepped, _⟩ := accepts.cut
  have accounts := prior.accounts
  cases stepped with
  | start head idle =>
    obtain ⟨rest, shape⟩ := List.head?_eq_some_iff.mp head
    have whole : removed earlier ++ second :: (rest ++ pushed later) = front ++ second :: back := by
      rw [← order]
      simp [accounts.order, shape]
    rw [order, ← whole, List.nodup_append, List.nodup_cons] at distinct
    obtain ⟨_, ⟨notLater, _⟩, apart⟩ := distinct
    have present : second ∉ removed earlier := fun inside =>
      apart second inside second (List.mem_cons_self ..) rfl
    obtain ⟨same, _⟩ := (List.append_cons_inj_of_notMem present notLater).mp whole
    have gone : first ∈ removed earlier := same ▸ ahead
    refine ⟨gone, ?_⟩
    have settled := accounts.settled first (by simp [accounts.attention, gone])
    simpa [idle] using settled

end EventDisp.SerialQueue
