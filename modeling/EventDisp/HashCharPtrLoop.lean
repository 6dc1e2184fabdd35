import EventDisp.HashCharPtr

/-! The loop of `HashCharPtr` reads the beginning of a string once, from left to right,
and never what lies behind its end. -/
namespace EventDisp.HashCharPtr

variable {combine : UInt64 → UInt32 → UInt64} {c text behind : Memory} {before after vars : Vars}

/-- What one round does: it reads on from where it stands, inside the string, and combines
what it has read with padding behind it. Nothing is left in the word from a round before. -/
structure Filled (combine : UInt64 → UInt32 → UInt64) (c : Memory) (before after : Vars) :
    Prop where
  onward : before.charsHashed < after.charsHashed
  within : after.charsHashed ≤ strlen c
  few : after.charsHashed ≤ before.charsHashed + 4
  reads : after.reads = before.reads ++ List.range' before.charsHashed
    (after.charsHashed - before.charsHashed)
  bytes : ∃ val1 val2 val3 val4, after.val = ⟨some val1, some val2, some val3, some val4⟩ ∧
    after.hashSeed = combine before.hashSeed (pack val1 val2 val3 val4) ∧
    [val1, val2, val3, val4] = (c.drop before.charsHashed).take
      (after.charsHashed - before.charsHashed) ++
      List.replicate (4 - (after.charsHashed - before.charsHashed)) padding

/-- The bytes of a word are a group and padding. -/
theorem padded_bytes {group : Memory} (short : group.length ≤ 4) :
    [group.getD 0 padding, group.getD 1 padding, group.getD 2 padding, group.getD 3 padding] =
      group ++ List.replicate (4 - group.length) padding := by
  match group with
  | [] | [_] | [_, _] | [_, _, _] | [_, _, _, _] => rfl
  | _ :: _ :: _ :: _ :: _ :: _ =>
    simp only [List.length_cons] at short
    omega

/-- Where characters are left, so many of them make a group that groups of four are left. -/
theorem first_group {left : Memory} (some_left : left ≠ []) :
    ∃ group rest, left = group ++ rest ∧ group ≠ [] ∧ group.length ≤ 4 ∧ 4 ∣ rest.length := by
  have positive : 0 < left.length := List.length_pos_iff.mpr some_left
  let taken := if left.length % 4 = 0 then 4 else left.length % 4
  have bounds : 0 < taken ∧ taken ≤ 4 ∧ taken ≤ left.length ∧ 4 ∣ left.length - taken := by
    simp only [taken]
    split <;> omega
  refine ⟨left.take taken, left.drop taken, (List.take_append_drop ..).symm, ?_, ?_, ?_⟩
  · apply List.ne_nil_of_length_pos
    rw [List.length_take]
    omega
  · rw [List.length_take]
    omega
  · rw [List.length_drop]
    exact bounds.2.2.2

/-- Every round is like that, whatever the rounds before have left. -/
theorem round_filled (clean : 0 ∉ text) (more : before.charsHashed < text.length) :
    ∃ after, round combine (text ++ 0 :: behind) before = some after ∧
      Filled combine (text ++ 0 :: behind) before after := by
  obtain ⟨front, left, rfl, here⟩ : ∃ front left, text = front ++ left ∧
    before.charsHashed = front.length :=
    ⟨text.take before.charsHashed, text.drop before.charsHashed, (List.take_append_drop ..).symm, by
      rw [List.length_take]
      omega⟩
  have some_left : left ≠ [] := by
    rintro rfl
    rw [List.append_nil] at more
    omega
  obtain ⟨group, rest, rfl, group_some, short, groups⟩ := first_group some_left
  have positive : 0 < group.length := List.length_pos_iff.mpr group_some
  rw [← List.append_assoc] at clean more ⊢
  refine ⟨_, round_group clean groups group_some short here, ?_⟩
  have read : ((front ++ group ++ rest ++ 0 :: behind).drop before.charsHashed).take group.length =
    group := by
    rw [here, List.append_assoc, List.append_assoc, List.drop_left, List.take_left]
  have taken : front.length + group.length - before.charsHashed = group.length := by
    rw [here, Nat.add_sub_cancel_left]
  constructor
  case onward =>
    rw [here]
    exact Nat.lt_add_of_pos_right positive
  case within =>
    rw [strlen_text clean, List.length_append, List.length_append]
    exact Nat.le_add_right ..
  case few =>
    rw [here]
    exact Nat.add_le_add_left short _
  case reads => rw [taken, here]
  case bytes =>
    refine ⟨_, _, _, _, rfl, rfl, ?_⟩
    rw [taken, read]
    exact padded_bytes short

/-- From any place in the string the loop ends, and has read from left to right up to where it ends. -/
theorem loop_consumes_from (clean : 0 ∉ text) (inside : vars.charsHashed ≤ text.length)
    (few : vars.charsHashed ≤ maxLenToHash + 3) (read : vars.reads = List.range vars.charsHashed) :
    ∃ last, (∀ rounds, text.length - vars.charsHashed < rounds →
    loop combine (text ++ 0 :: behind) rounds vars = some last) ∧
      last.reads = List.range last.charsHashed ∧ last.charsHashed ≤ text.length ∧
      last.charsHashed ≤ maxLenToHash + 3 ∧
      (text.length ≤ last.charsHashed ∨ maxLenToHash ≤ last.charsHashed) := by
  induction left : text.length - vars.charsHashed using Nat.strongRecOn generalizing vars with
  | ind left ih =>
    subst left
    by_cases more : vars.charsHashed < maxLenToHash ∧ vars.charsHashed < text.length
    · obtain ⟨next, ran, filled⟩ := @round_filled combine text behind vars clean more.2
      have onward := filled.onward
      have within := filled.within
      have longer := filled.few
      rw [strlen_text clean] at within
      have also : next.reads = List.range next.charsHashed := by
        rw [filled.reads, read, List.range_eq_range', List.range_eq_range']
        have joined :=
          @List.range'_append 0 vars.charsHashed (next.charsHashed - vars.charsHashed) 1
        rw [Nat.one_mul, Nat.zero_add] at joined
        rw [joined, Nat.add_sub_cancel' (Nat.le_of_lt onward)]
      obtain ⟨last, ended, rest⟩ := ih _ (by omega) within (by omega) also rfl
      refine ⟨last, ?_, rest⟩
      intro rounds enough
      obtain ⟨rounds, rfl⟩ : ∃ less, rounds = less + 1 := ⟨rounds - 1, by omega⟩
      rw [loop, strlen_text clean, if_pos more, ran, Option.bind_eq_bind, Option.bind_some]
      exact ended rounds (by omega)
    · refine ⟨vars, ?_, read, inside, few, by omega⟩
      intro rounds enough
      obtain ⟨rounds, rfl⟩ : ∃ less, rounds = less + 1 := ⟨rounds - 1, by omega⟩
      rw [loop, strlen_text clean, if_neg more]

/-- The loop ends on every string. It has then read the characters from the first on, each
once, at least sixteen and at most nineteen where the string has so many, and none behind
the end. Every round fills all four bytes anew. -/
theorem loop_consumes (combine : UInt64 → UInt32 → UInt64) (terminated : 0 ∈ c) :
    (∃ last, (∀ rounds, strlen c < rounds → loop combine c rounds {} = some last) ∧
      last.reads = List.range last.charsHashed ∧ (∀ index ∈ last.reads, index < strlen c) ∧
      min (strlen c) 16 ≤ last.charsHashed ∧ last.charsHashed ≤ min (strlen c) 19) ∧
    ∀ before : Vars, before.charsHashed < maxLenToHash ∧ before.charsHashed < strlen c →
      ∃ after, round combine c before = some after ∧ Filled combine c before after := by
  obtain ⟨text, behind, rfl, clean⟩ := List.eq_append_cons_of_mem terminated
  rw [strlen_text clean]
  constructor
  · obtain ⟨last, ended, reads, within, few, stopped⟩ :=
      @loop_consumes_from combine text behind {} clean (Nat.zero_le _) (Nat.zero_le _) rfl
    simp only [maxLenToHash] at few stopped
    refine ⟨last, ended, reads, ?_, by omega, by omega⟩
    intro index member
    rw [reads, List.mem_range] at member
    omega
  · intro before more
    exact round_filled clean more.2

/-- A string of six characters is read in a group of two and one of four. -/
theorem loop_consumes_six : ∃ last, loop (fun seed word => seed + word.toUInt64) [1, 2, 3, 4, 5, 6,
    0, 7] 7 {} = some last ∧
    last.reads = [0, 1, 2, 3, 4, 5] := by
  obtain ⟨⟨last, ended, reads, _, least, most⟩, _⟩ :=
    @loop_consumes [1, 2, 3, 4, 5, 6, 0, 7] (fun seed word => seed + word.toUInt64) (by decide)
  have length : strlen [1, 2, 3, 4, 5, 6, 0, 7] = 6 := rfl
  rw [length] at least most
  have six : last.charsHashed = 6 := by omega
  rw [six] at reads
  exact ⟨last, ended 7 (by decide), reads⟩

end EventDisp.HashCharPtr
