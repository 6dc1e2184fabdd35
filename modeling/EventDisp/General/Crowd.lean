import Mathlib.Algebra.Order.BigOperators.Group.Finset
import Mathlib.Algebra.Order.Group.Nat

/-! Finitely many of possibly infinitely many parties are busy, each in a place that has
a weight. What a party's move does to the weight of all. -/
namespace EventDisp.Crowd

variable {κ : Type u} {σ : Type v} [DecidableEq κ]
variable {crowd : Finset κ} {rest new : σ} {place : κ → σ} {weight : σ → Nat} {who : κ}

/-- Everybody outside the crowd is at rest. -/
def Covers (crowd : Finset κ) (rest : σ) (place : κ → σ) : Prop :=
  ∀ who, who ∉ crowd → place who = rest

/-- The weight of a crowd. -/
def total (weight : σ → Nat) (crowd : Finset κ) (place : κ → σ) : Nat :=
  ∑ who ∈ crowd, weight (place who)

omit [DecidableEq κ] in
theorem Covers.mem (covers : Covers crowd rest place) (busy : place who ≠ rest) : who ∈ crowd := by
  by_contra outside
  exact busy (covers who outside)

/-- A party from outside joins before it moves. -/
theorem Covers.join (covers : Covers crowd rest place) : Covers (insert who crowd) rest place := by
  intro other outside
  rw [Finset.mem_insert, not_or] at outside
  exact covers other outside.2

theorem Covers.move (covers : Covers crowd rest place) (member : who ∈ crowd) :
    Covers crowd rest (Function.update place who new) := by
  intro other outside
  have different : other ≠ who := fun same => outside (same ▸ member)
  rw [Function.update_of_ne different]
  exact covers other outside

/-- Whoever joins from rest adds no weight. -/
theorem Covers.total_join (covers : Covers crowd rest place) (light : weight rest = 0) :
    total weight (insert who crowd) place = total weight crowd place := by
  apply Finset.sum_insert_of_eq_zero_if_notMem
  intro outside
  rw [covers who outside, light]

/-- A move exchanges the weight of the old place for the weight of the new one. -/
theorem total_move (weight : σ → Nat) (place : κ → σ) (new : σ) (member : who ∈ crowd) :
    total weight crowd (Function.update place who new) + weight (place who) =
      total weight crowd place + weight new := by
  have others : ∑ other ∈ crowd.erase who, weight (Function.update place who new other) =
      ∑ other ∈ crowd.erase who, weight (place other) := by
    apply Finset.sum_congr rfl
    intro other inside
    rw [Function.update_of_ne (Finset.ne_of_mem_erase inside)]
  unfold total
  rw [← Finset.sum_erase_add crowd _ member, ← Finset.sum_erase_add crowd _ member, others,
    Function.update_self]
  omega

/-- A move of somebody outside the crowd. -/
theorem total_outside (weight : σ → Nat) (place : κ → σ) (new : σ) (outside : who ∉ crowd) :
    total weight crowd (Function.update place who new) = total weight crowd place := by
  apply Finset.sum_congr rfl
  intro other inside
  have different : other ≠ who := fun same => outside (same ▸ inside)
  rw [Function.update_of_ne different]

omit [DecidableEq κ] in
theorem le_total (weight : σ → Nat) (place : κ → σ) (member : who ∈ crowd) :
    weight (place who) ≤ total weight crowd place :=
  Finset.single_le_sum (f := fun who => weight (place who)) (fun _ _ => Nat.zero_le _) member

omit [DecidableEq κ] in
theorem total_eq_zero (light : ∀ who, weight (place who) = 0) : total weight crowd place = 0 :=
  Finset.sum_eq_zero fun who _ => light who

section Unit

variable (light : ∀ who ∈ crowd, weight (place who) ≤ 1)

omit [DecidableEq κ]

include light in
/-- Where nobody weighs more than one, the crowd weighs no more than its number. -/
theorem total_le_card : total weight crowd place ≤ crowd.card := by
  rw [Finset.card_eq_sum_ones]
  exact Finset.sum_le_sum light

include light in
/-- Then everybody weighs one exactly when all of them together weigh their number. -/
theorem card_le_total : crowd.card ≤ total weight crowd place ↔
    ∀ who ∈ crowd, weight (place who) = 1 := by
  constructor
  · intro full who member
    have same : total weight crowd place = ∑ _ ∈ crowd, 1 := by
      rw [← Finset.card_eq_sum_ones]
      exact Nat.le_antisymm (total_le_card light) full
    exact (Finset.sum_eq_sum_iff_of_le light).mp same who member
  · intro each
    rw [total, Finset.sum_congr rfl each, Finset.card_eq_sum_ones]

end Unit

end EventDisp.Crowd
