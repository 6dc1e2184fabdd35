import Mathlib.Data.List.AList
import Mathlib.Algebra.BigOperators.Group.List.Basic
import Mathlib.Algebra.GroupWithZero.Nat

/-! Totals over a finite map: a weight for each entry, summed over the map, and
how the sum moves when one entry is inserted, replaced or erased. -/
namespace EventDisp

/-- A finite map with one value type; `AList` carries the distinctness of its
keys. -/
abbrev FiniteMap (κ : Type u) (ν : Type v) := AList fun _ : κ => ν

namespace FiniteMap

variable {κ : Type u} {ν : Type v}

/-- The sum of the weights of all entries. -/
def total (weight : κ → ν → Nat) (map : FiniteMap κ ν) : Nat :=
  (map.entries.map fun entry => weight entry.1 entry.2).sum

variable [DecidableEq κ]

private theorem sum_dlookup (weight : κ → ν → Nat) (key : κ) (entries : List (Sigma fun _ : κ => ν))
    (distinct : entries.NodupKeys) :
    (entries.map fun entry => weight entry.1 entry.2).sum =
      ((entries.dlookup key).elim 0 (weight key)) +
        ((entries.kerase key).map fun entry => weight entry.1 entry.2).sum := by
  induction entries with
  | nil => simp
  | cons head rest ih =>
    obtain ⟨name, value⟩ := head
    obtain ⟨_, tail⟩ := List.nodupKeys_cons.mp distinct
    by_cases same : key = name
    · subst same
      simp
    · rw [List.dlookup_cons_ne _ _ (by simpa using same), List.kerase_cons_ne (by simpa using same)]
      simp only [List.map_cons, List.sum_cons, ih tail]
      omega

/-- A total is the weight found at one key plus the total of all other keys. -/
theorem total_split (weight : κ → ν → Nat) (map : FiniteMap κ ν) (key : κ) :
    total weight map = (map.lookup key).elim 0 (weight key) + total weight (map.erase key) :=
  sum_dlookup weight key map.entries map.nodupKeys

theorem total_insert (weight : κ → ν → Nat) (map : FiniteMap κ ν) (key : κ) (value : ν) :
    total weight (map.insert key value) = weight key value + total weight (map.erase key) := by
  unfold total
  rw [AList.entries_insert, List.map_cons, List.sum_cons]
  rfl

theorem total_insert_absent (weight : κ → ν → Nat) {map : FiniteMap κ ν} {key : κ} (value : ν)
    (absent : map.lookup key = none) :
    total weight (map.insert key value) = weight key value + total weight map := by
  rw [total_insert, total_split weight map key, absent]
  simp

/-- Replacing the value at a key exchanges the two weights and nothing else. -/
theorem total_replace (weight : κ → ν → Nat) {map : FiniteMap κ ν} {key : κ} {old : ν} (value : ν)
    (held : map.lookup key = some old) :
    total weight (map.insert key value) + weight key old = total weight map + weight key value := by
  rw [total_insert, total_split weight map key, held]
  simp only [Option.elim_some]
  omega

theorem total_erase (weight : κ → ν → Nat) {map : FiniteMap κ ν} {key : κ} {old : ν}
    (held : map.lookup key = some old) :
    total weight (map.erase key) + weight key old = total weight map := by
  rw [total_split weight map key, held]
  simp only [Option.elim_some]
  omega

/-- One entry never outweighs the whole map. -/
theorem weight_le_total (weight : κ → ν → Nat) {map : FiniteMap κ ν} {key : κ} {value : ν}
    (held : map.lookup key = some value) : weight key value ≤ total weight map := by
  have split := total_erase weight held
  omega

/-- A total vanishes exactly when every entry's weight does. -/
theorem total_eq_zero (weight : κ → ν → Nat) {map : FiniteMap κ ν} :
    total weight map = 0 ↔ ∀ key value, map.lookup key = some value → weight key value = 0 := by
  constructor
  · intro zero key value held
    have bound := weight_le_total weight held
    omega
  · intro light
    apply List.sum_eq_zero
    simp only [List.mem_map]
    rintro _ ⟨entry, member, rfl⟩
    exact light entry.1 entry.2 (AList.mem_lookup_iff.mpr member)

/-- A total depends only on what the lookups answer. -/
theorem total_congr (weight : κ → ν → Nat) {map other : FiniteMap κ ν}
    (same : ∀ key, map.lookup key = other.lookup key) : total weight map = total weight other := by
  have permuted : map.entries.Perm other.entries :=
    List.lookup_ext map.nodupKeys other.nodupKeys fun key value =>
      (show value ∈ map.lookup key ↔ value ∈ other.lookup key by rw [same key])
  exact (permuted.map _).sum_eq

@[simp] theorem lookup_insert_same (map : FiniteMap κ ν) (key : κ) (value : ν) :
    (map.insert key value).lookup key = some value := AList.lookup_insert map

theorem lookup_insert_other (map : FiniteMap κ ν) {key other : κ} (value : ν)
    (different : other ≠ key) :
    (map.insert key value).lookup other = map.lookup other := AList.lookup_insert_ne different

/-- A lookup after an insertion, with both keys free. -/
theorem lookup_insert_eq (map : FiniteMap κ ν) (key other : κ) (value : ν) :
    (map.insert key value).lookup other = if other = key then some value else map.lookup other := by
  split
  · rename_i same
    subst same
    simp
  · rename_i different
    exact AList.lookup_insert_ne different

theorem lookup_erase_eq (map : FiniteMap κ ν) (key other : κ) :
    (map.erase key).lookup other = if other = key then none else map.lookup other := by
  split
  · rename_i same
    subst same
    exact AList.lookup_erase _ map
  · rename_i different
    exact AList.lookup_erase_ne different

end FiniteMap

end EventDisp
