import Mathlib.Data.List.Basic
import Mathlib.Data.List.Induction

/-! Sequences whose entries come in groups, one group behind the other. -/
namespace EventDisp.Grouping

variable {α : Type u} {β : Type v} {entries : List α} {key : α → Nat} {first count group : Nat}

/-- The entries of one group. -/
def groupOf (key : α → Nat) (group : Nat) (entries : List α) : List α :=
  entries.filter (key · = group)

theorem groupOf_concat (entry : α) : groupOf key group (entries ++ [entry]) =
    groupOf key group entries ++ if key entry = group then [entry] else [] := by
  unfold groupOf
  rw [List.filter_append]
  by_cases own : key entry = group <;> simp [own]

/-- Numbers in a row, parted at one of them. -/
private theorem range'_parted (within : group ∈ List.range' first count) :
    List.range' first count = List.range' first (group - first) ++
      group :: List.range' (group + 1) (first + count - group - 1) := by
  obtain ⟨from', below⟩ := List.mem_range'_1.mp within
  have front : first + (group - first) = group := by omega
  have back : group - first + (first + count - group - 1 + 1) = count := by omega
  rw [← List.range'_succ]
  nth_rewrite 2 [← front]
  rw [List.range'_append_1, back]

/-- Entries whose groups do not decrease are the groups put together. -/
theorem flatMap_groupOf (sorted : entries.Pairwise fun one two => key one ≤ key two)
    (within : ∀ entry ∈ entries, key entry ∈ List.range' first count) :
    (List.range' first count).flatMap (groupOf key · entries) = entries := by
  induction entries using List.reverseRecOn with
  | nil => simp [groupOf]
  | append_singleton entries entry ih =>
    obtain ⟨earlier, _, below⟩ := List.pairwise_append.mp sorted
    have before := ih earlier fun inner member => within inner (List.mem_append_left _ member)
    have inside := within entry (by simp)
    have parted := range'_parted inside
    obtain ⟨least, _⟩ := List.mem_range'_1.mp inside
    have behind : ∀ group ∈ List.range' (key entry + 1) (first + count - key entry - 1),
        groupOf key group entries = [] := by
      intro group member
      have later := (List.mem_range'_1.mp member).1
      refine List.filter_eq_nil_iff.mpr fun inner inside => ?_
      have le := below inner inside entry (List.mem_singleton_self _)
      simp only [decide_eq_true_eq]
      omega
    have lower : ∀ group ∈ List.range' first (key entry - first),
        groupOf key group (entries ++ [entry]) = groupOf key group entries := by
      intro group member
      have less := (List.mem_range'_1.mp member).2
      rw [groupOf_concat, if_neg (by omega), List.append_nil]
    have upper : ∀ group ∈ List.range' (key entry + 1) (first + count - key entry - 1),
        groupOf key group (entries ++ [entry]) = [] := by
      intro group member
      have later := (List.mem_range'_1.mp member).1
      rw [groupOf_concat, if_neg (by omega), behind group member, List.append_nil]
    rw [parted, List.flatMap_append, List.flatMap_cons, List.flatMap_eq_nil_iff.mpr behind,
      List.append_nil] at before
    rw [parted, List.flatMap_append, List.flatMap_cons, List.flatMap_eq_nil_iff.mpr upper,
      List.append_nil, List.flatMap_congr lower, groupOf_concat, if_pos rfl, ← List.append_assoc,
      before]

/-- Pieces that come one behind the other, where none begins before the ones in front of it
are whole, are what the whole pieces begin with. -/
theorem flatMap_begins {part whole : α → List β} (begins : ∀ entry ∈ entries, part entry <+:
    whole entry) (inTurn : entries.Pairwise fun one two => part two ≠ [] → part one = whole one) :
    entries.flatMap part <+: entries.flatMap whole := by
  induction entries with
  | nil => exact List.prefix_rfl
  | cons entry rest ih =>
    obtain ⟨first, later⟩ := List.pairwise_cons.mp inTurn
    have behind := ih (fun inner member => begins inner (List.mem_cons_of_mem _ member)) later
    rw [List.flatMap_cons, List.flatMap_cons]
    by_cases nothing : rest.flatMap part = []
    · rw [nothing, List.append_nil]
      exact (begins entry List.mem_cons_self).trans (List.prefix_append ..)
    · obtain ⟨inner, member, some'⟩ : ∃ inner ∈ rest, part inner ≠ [] := by
        simpa [List.flatMap_eq_nil_iff] using nothing
      rw [first inner member some', List.prefix_append_right_inj]
      exact behind

/-- What comes of the entries, taken by their places from the first one on. -/
theorem flatMap_places (f : α → List β) (entries : List α) :
    (List.range' 1 entries.length).flatMap (fun place => (entries[place - 1]?).elim [] f) =
      entries.flatMap f := by
  induction entries using List.reverseRecOn with
  | nil => rfl
  | append_singleton entries entry ih =>
    have front : ∀ place ∈ List.range' 1 entries.length,
        ((entries ++ [entry])[place - 1]?).elim [] f = (entries[place - 1]?).elim [] f := by
      intro place member
      obtain ⟨_, below⟩ := List.mem_range'_1.mp member
      rw [List.getElem?_append_left (by omega)]
    rw [List.length_append, List.length_singleton, List.range'_1_concat, List.flatMap_append,
      List.flatMap_congr front, ih, List.flatMap_append]
    simp

end EventDisp.Grouping
