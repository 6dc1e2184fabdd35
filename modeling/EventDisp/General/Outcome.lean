/-! What a fallible computation guarantees: the value it ends with satisfies a
condition, or it stops with one of the faults that are tolerated. -/
namespace EventDisp.Outcome

variable {ε : Type u} {α : Type v} {β : Type v} {tolerated : ε → Prop}

/-- The computation ends well, or stops with a tolerated fault. -/
def Ends (tolerated : ε → Prop) (outcome : Except ε α) (post : α → Prop) : Prop :=
  match outcome with
  | .ok value => post value
  | .error fault => tolerated fault

variable {outcome : Except ε α} {post middle : α → Prop} {value : α} {fault : ε}

theorem Ends.ok (holds : post value) : Ends tolerated (.ok value) post := holds

theorem Ends.error (stops : tolerated fault) : Ends tolerated (.error fault) post := stops

theorem Ends.returned (ends : Ends tolerated outcome post) (ran : outcome = .ok value) :
    post value := by
  rw [ran] at ends
  exact ends

theorem Ends.stopped (ends : Ends tolerated outcome post) (stopped : outcome = .error fault) :
    tolerated fault := by
  rw [stopped] at ends
  exact ends

theorem Ends.mono (ends : Ends tolerated outcome middle)
    (weaker : ∀ value, middle value → post value) :
    Ends tolerated outcome post := by
  cases outcome with
  | ok value => exact weaker value ends
  | error fault => exact ends

theorem Ends.weaken {permitted : ε → Prop} (ends : Ends tolerated outcome post)
    (weaker : ∀ fault, tolerated fault → permitted fault) : Ends permitted outcome post := by
  cases outcome with
  | ok value => exact ends
  | error fault => exact weaker fault ends

/-- One computation after another. -/
theorem Ends.bind {rest : α → Except ε β} {final : β → Prop} (ends : Ends tolerated outcome middle)
    (next : ∀ value, outcome = .ok value → middle value → Ends tolerated (rest value) final) :
    Ends tolerated (outcome >>= rest) final := by
  cases outcome with
  | ok value => exact next value rfl ends
  | error fault => exact ends

/-- A computation whose result is put into another form. -/
theorem Ends.map {form : α → β} {final : β → Prop} (ends : Ends tolerated outcome middle)
    (next : ∀ value, middle value → final (form value)) :
    Ends tolerated (outcome.map form) final := by
  cases outcome with
  | ok value => exact next value ends
  | error fault => exact ends

/-- One computation after another returns exactly when both do. -/
theorem bind_returns {rest : α → Except ε β} {result : β} :
    (outcome >>= rest) = .ok result ↔ ∃ value, outcome = .ok value ∧ rest value = .ok result := by
  cases outcome with
  | ok value => simp [bind, Except.bind]
  | error fault => simp [bind, Except.bind]

end EventDisp.Outcome
