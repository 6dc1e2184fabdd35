import Mathlib.Data.List.Induction

/-! Properties of a history: what holds of each entry, given the entries before it,
which entries there are, and what has begun and not ended. -/
namespace EventDisp.History

variable {α : Type u} {log events : List α} {event : α} {holds : List α → α → Prop}

/-- Every entry is good, given the part of the history before it. -/
def Throughout (holds : List α → α → Prop) (log : List α) : Prop :=
  ∀ earlier event later, log = earlier ++ event :: later → holds earlier event

theorem throughout_nil : Throughout holds [] := by
  intro earlier event later shape
  simp at shape

/-- A history grows by one entry. -/
theorem throughout_concat :
    Throughout holds (log ++ [event]) ↔ Throughout holds log ∧ holds log event := by
  constructor
  · intro all
    refine ⟨fun earlier inner later shape => all earlier inner (later ++ [event]) (by simp [shape]),
      ?_⟩
    exact all log event [] rfl
  · rintro ⟨before, last⟩ earlier inner later shape
    rcases List.eq_nil_or_concat later with rfl | ⟨init, final, rfl⟩
    · obtain ⟨rfl, same⟩ := List.append_inj' shape rfl
      cases same
      exact last
    · have shorter : log ++ [event] = (earlier ++ inner :: init) ++ [final] := by simpa using shape
      obtain ⟨rfl, _⟩ := List.append_inj' shorter rfl
      exact before earlier inner init rfl

/-- A history grows by several entries. -/
theorem throughout_append : Throughout holds (log ++ events) ↔ Throughout holds log ∧
    ∀ earlier event later, events = earlier ++ event :: later → holds (log ++ earlier) event := by
  constructor
  · intro all
    refine ⟨fun earlier event later shape =>
      all earlier event (later ++ events) (by rw [shape]; simp),
      fun earlier event later shape =>
        all (log ++ earlier) event later (by rw [shape, List.append_assoc])⟩
  · rintro ⟨before, last⟩ earlier event later shape
    rcases List.append_eq_append_iff.mp shape with ⟨between, rfl, rest⟩ | ⟨between, rfl, rest⟩
    · exact last between event later rest
    · cases between with
      | nil =>
        have first := last [] event later rest.symm
        simpa using first
      | cons first between =>
        cases rest
        exact before earlier event between rfl

/-- What holds of all entries held before the last ones. -/
theorem Throughout.before (all : Throughout holds (log ++ events)) : Throughout holds log :=
  (throughout_append.mp all).1

/-- A history grows by several entries that are good whatever comes before. -/
theorem Throughout.append (before : Throughout holds log)
    (always : ∀ event ∈ events, ∀ earlier, holds earlier event) :
    Throughout holds (log ++ events) :=
  throughout_append.mpr ⟨before, fun earlier event later shape =>
    always event (by simp [shape]) (log ++ earlier)⟩

/-- The entries, each with the part of the history before it. -/
def entries (past : List α) : List α → List (List α × α)
  | [] => []
  | event :: rest => (past, event) :: entries (past ++ [event]) rest

theorem entries_concat (past log : List α) (event : α) :
    entries past (log ++ [event]) = entries past log ++ [(past ++ log, event)] := by
  induction log generalizing past with
  | nil => simp [entries]
  | cons first rest ih => simp [entries, ih]

/-- Some entry has begun it, and no entry since has ended it. -/
def Since (begins ends : α → Prop) (log : List α) : Prop :=
  ∃ earlier event later, log = earlier ++ event :: later ∧ begins event ∧ ∀ inner ∈ later,
    ¬ ends inner

variable {begins ends : α → Prop}

theorem not_since_nil : ¬ Since begins ends [] := by
  rintro ⟨earlier, event, later, shape, _⟩
  simp at shape

/-- The last entry begins it, or does not end it. -/
theorem since_concat : Since begins ends (log ++ [event]) ↔ begins event ∨ ¬ ends event ∧
    Since begins ends log := by
  constructor
  · rintro ⟨earlier, first, later, shape, began, goes⟩
    rcases List.eq_nil_or_concat later with rfl | ⟨init, final, rfl⟩
    · obtain ⟨_, same⟩ := List.append_inj' shape rfl
      cases same
      exact .inl began
    · have shorter : log ++ [event] = (earlier ++ first :: init) ++ [final] := by simpa using shape
      obtain ⟨rfl, same⟩ := List.append_inj' shorter rfl
      cases same
      exact .inr ⟨goes event (by simp), earlier, first, init, rfl, began, fun inner member =>
        goes inner (by simp [member])⟩
  · rintro (began | ⟨still, earlier, first, later, rfl, began, goes⟩)
    · exact ⟨log, event, [], rfl, began, nofun⟩
    · refine ⟨earlier, first, later ++ [event], by simp, began, ?_⟩
      intro inner member
      rcases List.mem_append.mp member with before | last
      · exact goes inner before
      · rw [List.mem_singleton.mp last]
        exact still

/-- It goes on as long as nothing ends it. -/
theorem Since.append (since : Since begins ends log) (goes : ∀ event ∈ events, ¬ ends event) :
    Since begins ends (log ++ events) := by
  obtain ⟨earlier, event, later, rfl, began, still⟩ := since
  refine ⟨earlier, event, later ++ events, by simp, began, ?_⟩
  intro inner member
  exact (List.mem_append.mp member).elim (still inner) (goes inner)

/-- What goes on and has not begun among the last entries has not been ended by them. -/
theorem Since.unended (since : Since begins ends (log ++ events)) (old : ∀ event ∈ events,
    ¬ begins event) :
    ∀ event ∈ events, ¬ ends event := by
  induction events using List.reverseRecOn with
  | nil => exact nofun
  | append_singleton events last ih =>
    rw [← List.append_assoc, since_concat] at since
    obtain ⟨still, before⟩ :=
      since.resolve_left (old last (List.mem_append_right _ (List.mem_singleton_self _)))
    have earlier := ih before fun event member => old event (List.mem_append_left _ member)
    exact List.forall_mem_append.mpr ⟨earlier, List.forall_mem_singleton.mpr still⟩

end EventDisp.History
