import Mathlib.Data.List.Basic

/-! `cache.h`: `HashCharPtr`, the hash of a key where `USE_STRING_HASHING` is not
defined. A `char` is a byte here, and memory is the list of the bytes from the
address `c` on. `boost::hash_combine` is a parameter. -/
namespace EventDisp.HashCharPtr

abbrev Memory := List UInt8

def maxLenToHash : Nat := 16
def padding : UInt8 := 0
def modulusMask : Nat := 0x3

/-- `union IntChar`. A byte that was never written is `none`. -/
structure IntChar where
  val1 : Option UInt8 := none
  val2 : Option UInt8 := none
  val3 : Option UInt8 := none
  val4 : Option UInt8 := none
  deriving DecidableEq, Repr

/-- Four bytes as an integer, the lowest first. -/
def pack (val1 val2 val3 val4 : UInt8) : UInt32 :=
  UInt32.ofNat (val1.toNat + 256 * (val2.toNat + 256 * (val3.toNat + 256 * val4.toNat)))

/-- `val.intVal`, when all of its bytes were written. -/
def IntChar.intVal (val : IntChar) : Option UInt32 := do
  return pack (← val.val1) (← val.val2) (← val.val3) (← val.val4)

/-- The variables of the loop. -/
structure Vars where
  charsHashed : Nat := 0
  hashSeed : UInt64 := 0
  val : IntChar := {}
  /-- The indices of the characters it has read, in order. -/
  reads : List Nat := []
  deriving DecidableEq, Repr

def strlen (c : Memory) : Nat := (c.takeWhile (· ≠ 0)).length

def set1 (char : UInt8) (val : IntChar) : IntChar := { val with val1 := some char }
def set2 (char : UInt8) (val : IntChar) : IntChar := { val with val2 := some char }
def set3 (char : UInt8) (val : IntChar) : IntChar := { val with val3 := some char }
def set4 (char : UInt8) (val : IntChar) : IntChar := { val with val4 := some char }

/-- A byte of `val` is assigned `c[charsHashed++]`. -/
def copy (c : Memory) (set : UInt8 → IntChar → IntChar) (vars : Vars) : Option Vars := do
  let char ← getElem? c vars.charsHashed
  return { vars with
    charsHashed := vars.charsHashed + 1
    val := set char vars.val
    reads := vars.reads ++ [vars.charsHashed] }

/-- A byte of `val` is assigned `PADDING`. -/
def pad (set : UInt8 → IntChar → IntChar) (vars : Vars) : Vars :=
  { vars with val := set padding vars.val }

/-- `switch (toCopy)`. -/
def fill (c : Memory) (toCopy : Nat) (vars : Vars) : Option Vars :=
  match toCopy with
  | 0 => do
    let vars ← copy c set1 vars
    let vars ← copy c set2 vars
    let vars ← copy c set3 vars
    copy c set4 vars
  | 1 => do
    let vars ← copy c set1 vars
    return pad set4 (pad set3 (pad set2 vars))
  | 2 => do
    let vars ← copy c set1 vars
    let vars ← copy c set2 vars
    return pad set4 (pad set3 vars)
  | 3 => do
    let vars ← copy c set1 vars
    let vars ← copy c set2 vars
    let vars ← copy c set3 vars
    return pad set4 vars
  | _ => some vars

section Loop
variable (combine : UInt64 → UInt32 → UInt64) (c : Memory)

/-- One round of the loop. -/
def round (vars : Vars) : Option Vars := do
  let toCopy := (strlen c - vars.charsHashed) &&& modulusMask
  let vars ← fill c toCopy vars
  return { vars with hashSeed := combine vars.hashSeed (← vars.val.intVal) }

/-- The loop, for at most so many rounds. -/
def loop : Nat → Vars → Option Vars
  | 0, _ => none
  | rounds + 1, vars =>
    if vars.charsHashed < maxLenToHash ∧ vars.charsHashed < strlen c then
      round combine c vars >>= loop rounds
    else
      some vars

/-- `HashCharPtr::operator()`, where it returns: no read leaves the memory and the
loop ends. -/
def hash : Option UInt64 := (loop combine c (strlen c + 1) {}).map Vars.hashSeed

end Loop

/-- The integers the first characters of a string are combined as, when there are
fewer than four. -/
def leading : Memory → List UInt32
  | [one] => [pack one padding padding padding]
  | [one, two] => [pack one two padding padding]
  | [one, two, three] => [pack one two three padding]
  | _ => []

/-- Four characters to an integer. -/
def fours : Memory → List UInt32
  | one :: two :: three :: four :: rest => pack one two three four :: fours rest
  | _ => []

/-- What a string's hash combines: first the characters that are too many for groups
of four, then up to four groups. -/
def words (text : Memory) : List UInt32 :=
  leading (text.take (text.length % 4)) ++ fours ((text.drop (text.length % 4)).take maxLenToHash)

variable {combine : UInt64 → UInt32 → UInt64} {text behind one two : Memory} {vars : Vars}
  {place rounds : Nat}

theorem strlen_text (clean : 0 ∉ text) : strlen (text ++ 0 :: behind) = text.length := by
  have kept : ∀ char ∈ text, decide (char ≠ 0) = true := by
    intro char member
    have visible : char ≠ 0 := fun same => clean (same ▸ member)
    simpa using visible
  rw [strlen, List.takeWhile_append_of_pos kept]
  simp

/-- The mask is a remainder. -/
theorem masked (number : Nat) : number &&& modulusMask = number % 4 :=
  Nat.and_two_pow_sub_one_eq_mod number 2

/-- A group of characters, with padding behind it. -/
def IntChar.padded (group : Memory) : IntChar :=
  ⟨some (group.getD 0 padding), some (group.getD 1 padding), some (group.getD 2 padding),
    some (group.getD 3 padding)⟩

/-- A group of characters as an integer. -/
def word (group : Memory) : UInt32 :=
  pack (group.getD 0 padding) (group.getD 1 padding) (group.getD 2 padding) (group.getD 3 padding)

/-- A round takes a group behind which only groups of four are left. -/
theorem round_group {before group rest : Memory} (clean : 0 ∉ before ++ group ++ rest)
    (groups : 4 ∣ rest.length) (some_left : group ≠ []) (short : group.length ≤ 4)
    (here : vars.charsHashed = before.length) :
    round combine (before ++ group ++ rest ++ 0 :: behind) vars = some {
      charsHashed := before.length + group.length
      hashSeed := combine vars.hashSeed (word group)
      val := .padded group
      reads := vars.reads ++ List.range' before.length group.length } := by
  have left : (before ++ group ++ rest).length - before.length &&& modulusMask =
    group.length % 4 := by
    rw [masked, List.length_append, List.length_append]
    omega
  rw [round, strlen_text clean, here, left, List.append_assoc, List.append_assoc]
  obtain ⟨place, seed, val, reads⟩ := vars
  obtain rfl : place = before.length := here
  generalize rest ++ 0 :: behind = behind
  have third (one two char : UInt8) (more : Memory) :
      (before ++ one :: two :: char :: more)[before.length + 1 + 1]? = some char := by simp [Nat.add_assoc]
  have fourth (one two three char : UInt8) (more : Memory) :
      (before ++ one :: two :: three :: char :: more)[before.length + 1 + 1 + 1]? = some char := by simp [Nat.add_assoc]
  match group with
  | [] => exact absurd rfl some_left
  | [_] | [_, _] | [_, _, _] | [_, _, _, _] =>
    simp [fill, copy, pad, set1, set2, set3, set4, IntChar.intVal, IntChar.padded, word,
      List.range'_succ, third, fourth]
  | _ :: _ :: _ :: _ :: _ :: _ =>
    simp only [List.length_cons] at short
    omega

/-- A round with a group of four. -/
theorem round_fours {before rest : Memory} {char1 char2 char3 char4 : UInt8}
    (clean : 0 ∉ before ++ char1 :: char2 :: char3 :: char4 :: rest) (groups : 4 ∣ rest.length)
    (here : vars.charsHashed = before.length) :
    round combine (before ++ char1 :: char2 :: char3 :: char4 :: rest ++ 0 :: behind) vars = some {
      charsHashed := before.length + 4
      hashSeed := combine vars.hashSeed (pack char1 char2 char3 char4)
      val := ⟨some char1, some char2, some char3, some char4⟩
      reads := vars.reads ++ List.range' before.length 4 } := by
  have shape : before ++ char1 :: char2 :: char3 :: char4 :: rest = before ++ [char1, char2, char3,
    char4] ++ rest := by simp
  rw [shape] at clean ⊢
  exact round_group clean groups nofun (Nat.le_refl _) here

/-- The first round, when there are characters too many for groups of four. -/
theorem round_leading {group rest : Memory} (clean : 0 ∉ group ++ rest) (groups : 4 ∣ rest.length)
    (short : group.length < 4) (some_left : group ≠ []) :
    ∃ word next, round combine (group ++ rest ++ 0 :: behind) {} = some next ∧
    leading group = [word] ∧
      next.charsHashed = group.length ∧ next.hashSeed = combine 0 word := by
  have ran := @round_group combine behind {} [] group rest clean groups some_left
    (Nat.le_of_lt short) rfl
  refine ⟨word group, _, ran, ?_, Nat.zero_add _, rfl⟩
  match group with
  | [] => exact absurd rfl some_left
  | [_] | [_, _] | [_, _, _] => rfl
  | _ :: _ :: _ :: _ :: _ =>
    simp only [List.length_cons] at short
    omega

/-- From where only groups of four are left, the loop combines one after the other until
the string ends or enough characters are hashed. -/
theorem loop_fours (clean : 0 ∉ text) (groups : 4 ∣ text.length - vars.charsHashed)
    (within : vars.charsHashed ≤ text.length) (enough : text.length - vars.charsHashed < rounds) :
    ∃ last, loop combine (text ++ 0 :: behind) rounds vars = some last ∧
      last.hashSeed = (fours ((text.drop vars.charsHashed).take
      (4 * ((19 - vars.charsHashed) / 4)))).foldl combine
        vars.hashSeed := by
  induction rounds generalizing vars with
  | zero => omega
  | succ rounds ih =>
    rw [loop, strlen_text clean]
    split
    · rename_i more
      obtain ⟨before, rest, rfl, here⟩ : ∃ before rest, text = before ++ rest ∧
        vars.charsHashed = before.length :=
        ⟨text.take vars.charsHashed, text.drop vars.charsHashed,
          (List.take_append_drop ..).symm, by simp [within]⟩
      rw [here, List.length_append, Nat.add_sub_cancel_left] at groups enough
      rw [here, List.length_append] at more
      match rest with
      | [] | [_] | [_, _] | [_, _, _] => simp at groups more
      | char1 :: char2 :: char3 :: char4 :: rest =>
        simp only [List.length_cons] at groups enough
        rw [round_fours clean (by omega) here]
        simp only [Option.bind_eq_bind, Option.bind_some]
        obtain ⟨last, ran, seed⟩ := @ih {
          charsHashed := before.length + 4
          hashSeed := combine vars.hashSeed (pack char1 char2 char3 char4)
          val := ⟨some char1, some char2, some char3, some char4⟩
          reads := vars.reads ++ List.range' before.length 4 }
          (by simp only [List.length_append, List.length_cons]; omega)
          (by simp only [List.length_append, List.length_cons]; omega)
          (by simp only [List.length_append, List.length_cons]; omega)
        refine ⟨last, ran, seed.trans ?_⟩
        have another : 4 * ((19 - before.length) / 4) = 4 * ((19 - (before.length + 4)) / 4) +
          4 := by
          simp only [maxLenToHash] at more
          omega
        rw [here, another, List.drop_left, ← List.drop_drop, List.drop_left]
        rfl
    · refine ⟨vars, rfl, ?_⟩
      have none_left : text.drop vars.charsHashed = [] ∨ 4 * ((19 - vars.charsHashed) / 4) = 0 := by
        simp only [List.drop_eq_nil_iff, maxLenToHash] at *
        omega
      rcases none_left with ended | stopped
      · rw [ended, List.take_nil]
        rfl
      · rw [stopped, List.take_zero]
        rfl

/-- The hash of a string combines its words. -/
theorem hash_text (clean : 0 ∉ text) :
    hash combine (text ++ 0 :: behind) = some ((words text).foldl combine 0) := by
  obtain ⟨group, rest, rfl, length, groups⟩ : ∃ group rest, text = group ++ rest ∧
      group.length = (group ++ rest).length % 4 ∧ 4 ∣ rest.length :=
    ⟨text.take (text.length % 4), text.drop (text.length % 4), (List.take_append_drop ..).symm,
      by
        rw [List.take_append_drop, List.length_take]
        exact Nat.min_eq_left (Nat.mod_le ..),
      by
        rw [List.length_drop]
        omega⟩
  have shown : words (group ++ rest) = leading group ++ fours (rest.take 16) := by
    rw [words, ← length, List.take_left, List.drop_left]
    rfl
  have bound : group.length < 4 := by
    rw [length]
    exact Nat.mod_lt _ (by decide)
  rw [hash, strlen_text clean, shown, List.foldl_append]
  by_cases none_left : group = []
  · subst none_left
    obtain ⟨last, ran, seed⟩ :=
      @loop_fours combine ([] ++ rest) behind {} (([] ++ rest).length + 1) clean
      (by simpa using groups) (Nat.zero_le _) (by simp)
    rw [ran, Option.map_some, seed]
    rfl
  · have positive : 0 < group.length := List.length_pos_iff.mpr none_left
    have longer : (group ++ rest).length = group.length + rest.length := List.length_append
    obtain ⟨word, next, ran, one_word, place, seed⟩ :=
      @round_leading combine behind group rest clean groups bound none_left
    obtain ⟨last, ended, hashed⟩ :=
      @loop_fours combine (group ++ rest) behind next (group ++ rest).length clean
      (by simpa [place] using groups) (by omega) (by omega)
    have groups_left : 4 * ((19 - group.length) / 4) = 16 := by
      omega
    rw [loop, strlen_text clean, if_pos ⟨by decide, (by omega : 0 < (group ++ rest).length)⟩, ran,
      Option.bind_eq_bind,
      Option.bind_some, ended, Option.map_some, hashed, seed, one_word, place, groups_left,
      List.drop_left]
    rfl

/-- The bytes can be told from the integer. -/
theorem pack_inj {val1 val2 val3 val4 other1 other2 other3 other4 : UInt8} :
    pack val1 val2 val3 val4 = pack other1 other2 other3 other4 ↔
      val1 = other1 ∧ val2 = other2 ∧ val3 = other3 ∧ val4 = other4 := by
  constructor
  · intro same
    have numbers := congrArg UInt32.toNat same
    simp only [pack, UInt32.toNat_ofNat'] at numbers
    simp only [← UInt8.toNat_inj]
    have := val1.toNat_lt
    have := val2.toNat_lt
    have := val3.toNat_lt
    have := val4.toNat_lt
    have := other1.toNat_lt
    have := other2.toNat_lt
    have := other3.toNat_lt
    have := other4.toNat_lt
    omega
  · rintro ⟨rfl, rfl, rfl, rfl⟩
    rfl

theorem fours_inj (groups : 4 ∣ one.length) (length : one.length = two.length)
    (same : fours one = fours two) :
    one = two := by
  induction one using fours.induct generalizing two with
  | case1 char1 char2 char3 char4 rest ih =>
    match two with
    | [] | [_] | [_, _] | [_, _, _] => simp at length
    | other1 :: other2 :: other3 :: other4 :: others =>
      simp only [List.length_cons] at groups length
      simp only [fours, List.cons.injEq, pack_inj] at same
      obtain ⟨⟨rfl, rfl, rfl, rfl⟩, later⟩ := same
      rw [ih (by omega) (by omega) later]
  | case2 one short =>
    match one with
    | [] => exact (List.length_eq_zero_iff.mp length.symm).symm
    | [_] | [_, _] | [_, _, _] => simp at groups
    | _ :: _ :: _ :: _ :: _ => exact absurd rfl (short _ _ _ _ _)

/-- Characters of a string are told from the padding. -/
theorem leading_inj (clean : 0 ∉ one) (also : 0 ∉ two) (short : one.length < 4)
    (shorter : two.length < 4) (same : leading one = leading two) : one = two := by
  match one, two with
  | [], [] => rfl
  | [], [_] | [], [_, _] | [], [_, _, _] | [_], [] | [_, _], [] | [_, _, _], [] =>
    simp [leading] at same
  | [_], [_] | [_], [_, _] | [_], [_, _, _] | [_, _], [_] | [_, _], [_, _] | [_, _], [_, _, _]
  | [_, _, _], [_] | [_, _, _], [_, _] | [_, _, _], [_, _, _] =>
    simp_all [leading, pack_inj, padding]
  | _ :: _ :: _ :: _ :: _, _ | _, _ :: _ :: _ :: _ :: _ =>
    simp only [List.length_cons] at short shorter
    omega

/-- Counts the words that are as expected, up to the first that is not. -/
def follow (expected : List UInt32) (seed : UInt64) (word : UInt32) : UInt64 :=
  if expected[seed.toNat]? = some word then seed + 1 else 0xffffffff

section Follow
variable {expected given : List UInt32} {seed : UInt64}

theorem follow_lost (short : expected.length ≤ 0xffffffff) :
    given.foldl (follow expected) 0xffffffff = 0xffffffff := by
  induction given with
  | nil => rfl
  | cons word given ih =>
    have beyond : expected[(0xffffffff : UInt64).toNat]? = none := List.getElem?_eq_none short
    rw [List.foldl_cons, follow, beyond, if_neg nofun, ih]

theorem follow_foldl (short : expected.length < 0xffffffff)
    (within : seed.toNat ≤ expected.length) :
    (given.foldl (follow expected) seed).toNat = expected.length ↔
    given = expected.drop seed.toNat := by
  induction given generalizing seed with
  | nil =>
    rw [List.foldl_nil, eq_comm, eq_comm (a := []), List.drop_eq_nil_iff]
    omega
  | cons word given ih =>
    rw [List.foldl_cons, follow]
    split
    · rename_i here
      obtain ⟨inside, is_word⟩ := List.getElem?_eq_some_iff.mp here
      have next : (seed + 1).toNat = seed.toNat + 1 := by
        rw [UInt64.toNat_add]
        exact Nat.mod_eq_of_lt (by simp; omega)
      rw [ih (by omega), next, List.drop_eq_getElem_cons inside, is_word]
      simp
    · rename_i other
      rw [follow_lost (Nat.le_of_lt short)]
      constructor
      · intro same
        exact absurd same (Nat.ne_of_gt short)
      · intro shape
        have here : (expected.drop seed.toNat)[0]? = some word := by rw [← shape]; rfl
        exact absurd (by simpa using here) other

/-- Only the same words are combined to the same seed by every function. -/
theorem foldl_inj (short : expected.length < 0xffffffff)
    (same : ∀ combine : UInt64 → UInt32 → UInt64,
      expected.foldl combine 0 = given.foldl combine 0) :
    given = expected := by
  have whole := (@follow_foldl expected expected 0 short (Nat.zero_le _)).mpr rfl
  rw [same] at whole
  exact (@follow_foldl expected given 0 short (Nat.zero_le _)).mp whole

end Follow

/-- The characters a hash looks at. -/
theorem words_parts (long : maxLenToHash ≤ text.length) :
    text.take (maxLenToHash + text.length % 4) =
      text.take (text.length % 4) ++ (text.drop (text.length % 4)).take maxLenToHash ∧
      (text.take (text.length % 4)).length = text.length % 4 ∧
      ((text.drop (text.length % 4)).take maxLenToHash).length = maxLenToHash := by
  refine ⟨?_, ?_, ?_⟩
  · rw [Nat.add_comm, List.take_add]
  · rw [List.length_take]
    exact Nat.min_eq_left (Nat.mod_le ..)
  · rw [List.length_take, List.length_drop]
    simp only [maxLenToHash] at long ⊢
    omega

theorem length_fours (groups : 4 ∣ text.length) : (fours text).length = text.length / 4 := by
  induction text using fours.induct with
  | case1 char1 char2 char3 char4 rest ih =>
    simp only [List.length_cons] at groups
    simp only [fours, List.length_cons, ih (by omega)]
    omega
  | case2 text short =>
    match text with
    | [] => rfl
    | [_] | [_, _] | [_, _, _] => simp at groups
    | _ :: _ :: _ :: _ :: _ => exact absurd rfl (short _ _ _ _ _)

/-- When two strings have the same words: when their first groups are as long as each other,
and so many characters are the same. -/
theorem words_inj (clean : 0 ∉ one) (also : 0 ∉ two) (long : maxLenToHash ≤ one.length)
    (longer : maxLenToHash ≤ two.length) :
    words one = words two ↔ one.length % 4 = two.length % 4 ∧
      one.take (maxLenToHash + one.length % 4) = two.take (maxLenToHash + one.length % 4) := by
  obtain ⟨parts, short, whole⟩ := words_parts long
  obtain ⟨others, shorter, all⟩ := words_parts longer
  constructor
  · intro same
    have groups : 4 ∣ ((one.drop (one.length % 4)).take maxLenToHash).length := by
      rw [whole]
      decide
    have lengths : (fours ((one.drop (one.length % 4)).take maxLenToHash)).length =
        (fours ((two.drop (two.length % 4)).take maxLenToHash)).length := by
      rw [length_fours groups, length_fours (by rw [all]; decide), whole, all]
    obtain ⟨first, later⟩ := List.append_inj' same lengths
    have heads := leading_inj (fun member => clean (List.mem_of_mem_take member))
      (fun member => also (List.mem_of_mem_take member)) (by omega) (by omega) first
    have remainders : one.length % 4 = two.length % 4 := by
      rw [← short, heads, shorter]
    refine ⟨remainders, ?_⟩
    rw [parts, remainders, others, ← remainders, heads,
      fours_inj groups (whole.trans all.symm) later, remainders]
  · rintro ⟨remainders, same⟩
    rw [parts, remainders, others] at same
    obtain ⟨heads, later⟩ := List.append_inj same (by rw [← remainders, short, remainders, shorter])
    rw [words, words, remainders, heads, later]

theorem length_words (long : maxLenToHash ≤ text.length) : (words text).length ≤ 5 := by
  have few : ∀ group : Memory, (leading group).length ≤ 1 := by
    intro group
    match group with
    | [] | [_] | [_, _] | [_, _, _] | _ :: _ :: _ :: _ :: _ => simp [leading]
  have whole := (words_parts long).2.2
  have first := few (text.take (text.length % 4))
  rw [words, List.length_append, length_fours (by rw [whole]; decide), whole]
  simp only [maxLenToHash]
  omega

/-- Two strings of at least `MAX_LEN_TO_HASH` characters that begin alike have the same
hash, however it combines, exactly when what is left over from groups of four is as long
and the characters that follow, as many as that, are the same as well. -/
theorem hash_alike_iff (behind past : Memory) (clean : 0 ∉ one) (also : 0 ∉ two)
    (long : maxLenToHash ≤ one.length) (longer : maxLenToHash ≤ two.length)
    (alike : one.take maxLenToHash = two.take maxLenToHash) :
    (∀ combine, hash combine (one ++ 0 :: behind) = hash combine (two ++ 0 :: past)) ↔
      one.length % 4 = two.length % 4 ∧
        (one.drop maxLenToHash).take (one.length % 4) = (two.drop maxLenToHash).take
        (one.length % 4) := by
  have further : one.take (maxLenToHash + one.length % 4) =
    two.take (maxLenToHash + one.length % 4) ↔
      (one.drop maxLenToHash).take (one.length % 4) = (two.drop maxLenToHash).take
      (one.length % 4) := by
    rw [List.take_add, List.take_add, alike, List.append_cancel_left_eq]
  rw [← further, ← words_inj clean also long longer]
  constructor
  · intro same
    refine (foldl_inj (Nat.lt_of_le_of_lt (length_words long) (by decide)) fun combine => ?_).symm
    have both := same combine
    rw [hash_text clean, hash_text also] at both
    exact Option.some.inj both
  · intro same combine
    rw [hash_text clean, hash_text also, same]

/-- Seventeen characters and twenty-one that differ behind the seventeenth. -/
theorem hash_alike_seventeen :
    (List.replicate 17 (97 : UInt8)).take maxLenToHash =
    (List.replicate 17 97 ++ [98, 98, 98, (98 : UInt8)]).take maxLenToHash ∧
      ∀ combine, hash combine (List.replicate 17 97 ++ [0]) =
        hash combine (List.replicate 17 97 ++ [98, 98, 98, 98] ++ [0]) :=
  ⟨by decide, (@hash_alike_iff (List.replicate 17 97) (List.replicate 17 97 ++ [98, 98, 98, 98]) [] [] (by decide)
    (by decide) (by decide) (by decide) (by decide)).mpr (by decide)⟩

/-- With one character more, the groups are others. The function is the one that mixes a word in by
shifts of the seed. -/
theorem hash_alike_longer :
    0 ∉ List.replicate 16 (97 : UInt8) ∧ 0 ∉ List.replicate 17 (97 : UInt8) ∧
      maxLenToHash ≤ (List.replicate 16 (97 : UInt8)).length ∧
      maxLenToHash ≤ (List.replicate 17 (97 : UInt8)).length ∧
      (List.replicate 16 (97 : UInt8)).take maxLenToHash = (List.replicate 17 97).take
      maxLenToHash ∧
      hash (fun seed word => seed ^^^
      (word.toUInt64 + (0x9e3779b9 : UInt64) + (seed <<< 6) + (seed >>> 2)))
          (List.replicate 16 97 ++ [0]) ≠
        hash (fun seed word => seed ^^^
        (word.toUInt64 + (0x9e3779b9 : UInt64) + (seed <<< 6) + (seed >>> 2)))
          (List.replicate 17 97 ++ [0]) := by
  decide

end EventDisp.HashCharPtr
