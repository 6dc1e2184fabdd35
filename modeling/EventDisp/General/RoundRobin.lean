import Mathlib.Data.Int.CardIntervalMod
import Mathlib.Data.Set.Card

/-! Keys that are dealt out to places in turn, each when it is first seen and for
good. -/
namespace EventDisp.RoundRobin

variable {κ : Type u} {places token : Nat} {keys : List κ} {assigned next : κ → Option Nat}
  {key : κ} {place : Nat}

/-- The keys, in the order they were first seen, have been dealt out to so many
places, and no other key has. -/
structure Dealt (places : Nat) (keys : List κ) (assigned : κ → Option Nat) : Prop where
  distinct : keys.Nodup
  inTurn : ∀ position key, keys[position]? = some key → assigned key = some (position % places)
  others : ∀ key, key ∉ keys → assigned key = none

theorem Dealt.nil : Dealt places [] fun _ : κ => none := ⟨.nil, nofun, fun _ _ => rfl⟩

/-- A key that was seen before is not dealt out again. -/
theorem Dealt.mem_iff (dealt : Dealt places keys assigned) : key ∈ keys ↔ assigned key ≠ none := by
  constructor
  · intro seen
    obtain ⟨position, here⟩ := List.mem_iff_getElem?.mp seen
    rw [dealt.inTurn position key here]
    nofun
  · intro given
    by_contra unseen
    exact given (dealt.others key unseen)

/-- The next key goes to the place that is next in turn. -/
theorem Dealt.concat (dealt : Dealt places keys assigned) (unseen : key ∉ keys)
    (given : next key = some (keys.length % places))
    (same : ∀ other, other ≠ key → next other = assigned other) :
    Dealt places (keys ++ [key]) next := by
  refine ⟨?_, ?_, ?_⟩
  · exact (List.nodup_append_comm).mp (List.nodup_cons.mpr ⟨unseen, dealt.distinct⟩)
  · intro position other here
    by_cases before : position < keys.length
    · rw [List.getElem?_append_left before] at here
      have seen := List.mem_of_getElem? here
      rw [same other fun equal => unseen (equal ▸ seen), dealt.inTurn position other here]
    · rw [List.getElem?_append_right (Nat.le_of_not_lt before)] at here
      obtain ⟨last, rfl⟩ := List.getElem?_eq_some_iff.mp here
      rw [List.length_singleton] at last
      rw [List.getElem_singleton, given, (by omega : position = keys.length)]
  · intro other absent
    simp only [List.mem_append, List.mem_singleton, not_or] at absent
    rw [same other absent.2, dealt.others other absent.1]

/-- A counter that starts again at the number of places is a remainder. -/
theorem wrap (positive : 0 < places) (turn : token = keys.length % places) :
    (if token + 1 ≥ places then 0 else token + 1) = (keys.length + 1) % places := by
  have bound := Nat.mod_lt keys.length positive
  rw [turn, ← Nat.mod_add_mod]
  split
  · rename_i last
    rw [(by omega : keys.length % places + 1 = places), Nat.mod_self]
  · rename_i more
    exact (Nat.mod_eq_of_lt (by omega)).symm

/-- Where a key is, it was dealt in its turn. -/
theorem Dealt.position (dealt : Dealt places keys assigned) (given : assigned key = some place) :
    ∃ position, keys[position]? = some key ∧ place = position % places := by
  have seen : key ∈ keys := dealt.mem_iff.mpr (by rw [given]; nofun)
  obtain ⟨position, here⟩ := List.mem_iff_getElem?.mp seen
  have turn := dealt.inTurn position key here
  rw [given] at turn
  exact ⟨position, here, Option.some.inj turn⟩

theorem Dealt.inRange (dealt : Dealt places keys assigned) (positive : 0 < places)
    (given : assigned key = some place) : place < places := by
  obtain ⟨position, _, rfl⟩ := dealt.position given
  exact Nat.mod_lt _ positive

/-- How many keys are at a place: as many as there are turns of it. -/
theorem Dealt.count (dealt : Dealt places keys assigned) (inside : place < places) :
    Set.ncard { key | assigned key = some place } = Nat.count (· ≡ place [MOD places])
    keys.length := by
  rw [Nat.count_eq_card_filter_range, ← Set.ncard_coe_finset]
  symm
  have within : ∀ turn ∈ (((Finset.range keys.length).filter (· ≡ place [MOD places]) : Finset Nat) : Set Nat),
      turn < keys.length ∧ turn ≡ place [MOD places] := by
    intro turn member
    simpa using member
  refine Set.ncard_congr (fun turn member => keys.get ⟨turn, (within turn member).1⟩) ?_ ?_ ?_
  · intro turn member
    obtain ⟨bound, turns⟩ := within turn member
    have given := dealt.inTurn turn keys[turn] (List.getElem?_eq_getElem bound)
    rw [Set.mem_ofPred_eq, List.get_eq_getElem, given, turns, Nat.mod_eq_of_lt inside]
  · intro one two first second same
    exact (List.Nodup.getElem_inj_iff dealt.distinct).mp same
  · intro key given
    obtain ⟨position, here, turn⟩ := dealt.position given
    obtain ⟨bound, is_key⟩ := List.getElem?_eq_some_iff.mp here
    refine ⟨position, ?_, is_key⟩
    have turns : position ≡ place [MOD places] := by
      rw [Nat.ModEq, ← turn, Nat.mod_eq_of_lt inside]
    simpa using ⟨bound, turns⟩

/-- No place has two keys more than another. -/
theorem Dealt.balanced (dealt : Dealt places keys assigned) {one two : Nat} (first : one < places)
    (second : two < places) :
    Set.ncard { key | assigned key = some one } ≤ Set.ncard { key | assigned key = some two } +
    1 := by
  have positive : 0 < places := Nat.zero_lt_of_lt first
  rw [dealt.count first, dealt.count second, Nat.count_modEq_card _ positive,
    Nat.count_modEq_card _ positive]
  split <;> split <;> omega

end EventDisp.RoundRobin
