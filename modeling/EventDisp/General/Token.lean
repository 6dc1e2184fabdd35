/-! Works with one owner each, counted while they are pending. An owner passes a
single token from work to work: no more than one of them is pending, and once. -/
namespace EventDisp.Token

variable {ω : Type u} {κ : Type v} [DecidableEq ω] {owner : ω → κ} {count rest : ω → Nat} {who : κ}
  {work taken : ω}

/-- Of the owner's works nothing is pending but the given one. -/
def Sole (owner : ω → κ) (count : ω → Nat) (who : κ) (work : Option ω) : Prop :=
  ∀ other, owner other = who → count other = if work = some other then 1 else 0

/-- One pending work more. -/
def More (rest count : ω → Nat) (work : ω) : Prop :=
  ∀ other, count other = rest other + if work = other then 1 else 0

/-- What is pending is the owner's one work. -/
theorem Sole.unique {held : Option ω} (sole : Sole owner count who held) (own : owner work = who)
    (pending : count work ≠ 0) : held = some work := by
  rw [sole work own] at pending
  simpa using pending

/-- The one work is taken up. -/
theorem Sole.take {held : Option ω} (sole : Sole owner count who held)
    (more : More rest count taken) (own : owner taken = who) :
    held = some taken ∧ Sole owner rest who none := by
  have pending := more taken
  rw [if_pos rfl] at pending
  have same := sole.unique own (by omega)
  refine ⟨same, ?_⟩
  intro other owned
  have before := sole other owned
  rw [more other, same] at before
  simp only [Option.some.injEq, reduceCtorEq, if_false] at before ⊢
  omega

/-- A work is handed out. -/
theorem Sole.give (sole : Sole owner rest who none) (more : More rest count work) :
    Sole owner count who (some work) := by
  intro other owned
  have before := sole other owned
  rw [more other, before]
  simp

/-- Works of others do not matter. -/
theorem Sole.apart {held : Option ω} (sole : Sole owner count who held)
    (same : ∀ other, owner other = who → rest other = count other) : Sole owner rest who held :=
  fun other owned => (same other owned).trans (sole other owned)

theorem More.apart (more : More rest count work) (owner : ω → κ) (different : owner work ≠ who) :
    ∀ other, owner other = who → count other = rest other := by
  rintro other rfl
  rw [more other, if_neg fun same => different (congrArg owner same)]
  rfl

end EventDisp.Token
