import Mathlib.Algebra.BigOperators.Group.List.Basic
import Mathlib.Algebra.GroupWithZero.Nat

/-! Giving up the front of a list until enough has been given up, and no more than
that. -/
namespace EventDisp.Shedding

variable {α : Type u} {weight other : α → Nat} {excess : Nat} {list gone rest : List α} {head : α}

/-- The shortest front whose weights make up for the excess is given up, or the whole
list when none does. -/
structure Sheds (weight : α → Nat) (excess : Nat) (list gone rest : List α) : Prop where
  split : list = gone ++ rest
  enough : excess ≤ (gone.map weight).sum ∨ rest = []
  shortest : ∀ less, less <+: gone → excess ≤ (less.map weight).sum → less = gone

/-- Nothing has to be given up. -/
theorem Sheds.nothing (weight : α → Nat) (list : List α) : Sheds weight 0 list [] list :=
  ⟨rfl, .inl (Nat.zero_le _), fun _ shorter _ => List.prefix_nil.mp shorter⟩

/-- Nothing is left to give up. -/
theorem Sheds.exhausted (weight : α → Nat) (excess : Nat) : Sheds weight excess [] [] [] :=
  ⟨rfl, .inr rfl, fun _ shorter _ => List.prefix_nil.mp shorter⟩

/-- One more is given up. -/
theorem Sheds.cons (more : 0 < excess)
    (sheds : Sheds weight (excess - weight head) list gone rest) :
    Sheds weight excess (head :: list) (head :: gone) rest := by
  refine ⟨by rw [sheds.split]; rfl, ?_, ?_⟩
  · rcases sheds.enough with enough | empty
    · left
      simp only [List.map_cons, List.sum_cons]
      omega
    · exact .inr empty
  · intro less shorter suffices'
    cases less with
    | nil => simp at suffices'; omega
    | cons first less =>
      obtain ⟨rfl, behind⟩ := List.cons_prefix_cons.mp shorter
      simp only [List.map_cons, List.sum_cons] at suffices'
      rw [sheds.shortest less behind (by omega)]

/-- Only the weights of what is on the list matter. -/
theorem Sheds.congr (sheds : Sheds weight excess list gone rest)
    (same : ∀ element ∈ list, other element = weight element) :
    Sheds other excess list gone rest := by
  have equal {part : List α} (within : ∀ element ∈ part, element ∈ list) :
    (part.map other).sum = (part.map weight).sum := by
    rw [List.map_congr_left fun element member => same element (within element member)]
  have inside (element : α) (member : element ∈ gone) : element ∈ list := by
    rw [sheds.split]
    exact List.mem_append_left _ member
  refine ⟨sheds.split, ?_, fun less shorter enough => sheds.shortest less shorter ?_⟩
  · rw [equal inside]
    exact sheds.enough
  · rw [← equal fun element member => inside element (shorter.subset member)]
    exact enough

end EventDisp.Shedding
