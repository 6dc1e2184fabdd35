/-! Mutual exclusion: the holder of a lock is the one inside the critical section. -/
namespace EventDisp.Lock

variable {κ : Type u} {holder : Option κ} {inside after : κ → Bool} {who one two : κ}

/-- Exactly the holder of the lock is inside the critical section. -/
def Guards (holder : Option κ) (inside : κ → Bool) : Prop :=
  ∀ who, inside who = true ↔ holder = some who

theorem Guards.start (outside : ∀ who, inside who = false) : Guards none inside := by
  intro who
  simp [outside]

theorem Guards.alone (guards : Guards holder inside) (first : inside one = true)
    (second : inside two = true) :
    one = two :=
  Option.some.inj (((guards one).mp first).symm.trans ((guards two).mp second))

/-- With nobody inside, the lock is free. -/
theorem Guards.free (guards : Guards holder inside) (outside : ∀ who, inside who = false) :
    holder = none := by
  cases held : holder with
  | none => rfl
  | some who =>
    have present := (guards who).mpr held
    rw [outside] at present
    cases present

/-- Nobody enters or leaves. -/
theorem Guards.keep (guards : Guards holder inside) (same : ∀ who, after who = inside who) :
    Guards holder after := by
  intro who
  rw [same]
  exact guards who

/-- One enters when the lock is free. -/
theorem Guards.acquire (guards : Guards none inside) (enters : after who = true)
    (others : ∀ other, other ≠ who → after other = inside other) : Guards (some who) after := by
  intro other
  by_cases own : other = who
  · simp [own, enters]
  · rw [others other own, guards other, Option.some.injEq]
    exact ⟨nofun, fun same => absurd same.symm own⟩

/-- The one inside leaves. -/
theorem Guards.release (guards : Guards holder inside) (present : inside who = true)
    (leaves : after who = false) (others : ∀ other, other ≠ who → after other = inside other) :
    Guards none after := by
  apply Guards.start
  intro other
  by_cases own : other = who
  · exact own ▸ leaves
  · rw [others other own, Bool.eq_false_iff]
    intro also
    exact own (guards.alone also present)

end EventDisp.Lock
