import Mathlib.Data.List.Basic
import Mathlib.Data.List.TakeWhile

/-! Strings of C in memory. A piece of memory is the list of its characters from
some address on; what lies behind the end of the list is zero. -/
namespace EventDisp.CString

abbrev Text := List Char

/-- The string that begins where the memory begins. -/
def str (memory : Text) : Text := memory.takeWhile (· ≠ '\x00')

def strlen (memory : Text) : Nat := (str memory).length

/-- `strcmp(a, b) == 0`. -/
def strcmp (one two : Text) : Bool := str one = str two

/-- `strncmp(a, b, n) == 0`. -/
def strncmp (one two : Text) (n : Nat) : Bool := (str one).take n = (str two).take n

/-- How far away the character is. -/
def strchr (memory : Text) (char : Char) : Option Nat := (str memory).findIdx? (· = char)

/-- How far away the pattern is in a string. -/
def search (pattern : Text) : Text → Option Nat
  | [] => if pattern.isPrefixOf [] then some 0 else none
  | char :: rest =>
    if pattern.isPrefixOf (char :: rest) then some 0 else (search pattern rest).map (· + 1)

def strstr (memory pattern : Text) : Option Nat := search pattern (str memory)

/-- `snprintf` of `"%zu"`. -/
def decimal (number : Nat) : Text := Nat.toDigits 10 number

/-- The characters from one address up to another. -/
def slice (memory : Text) (start stop : Nat) : Text := (memory.drop start).take (stop - start)

variable {one two memory : Text} {char : Char} {distance limit : Nat}

theorem str_eq_self (whole : '\x00' ∉ memory) : str memory = memory := by
  apply List.takeWhile_eq_self_iff.mpr
  intro char member
  have other : char ≠ '\x00' := fun same => whole (same ▸ member)
  simpa using other

theorem str_cons {rest : Text} (visible : char ≠ '\x00') : str (char :: rest) = char :: str rest :=
  List.takeWhile_cons_of_pos (by simpa using visible)

theorem str_ended {rest : Text} : str ('\x00' :: rest) = [] := List.takeWhile_cons_of_neg (by simp)

/-- A string that stands in front. -/
theorem str_append (whole : '\x00' ∉ one) : str (one ++ two) = one ++ str two := by
  apply List.takeWhile_append_of_pos
  intro char member
  have other : char ≠ '\x00' := fun same => whole (same ▸ member)
  simpa using other

/-- Zeros behind a piece of memory are not seen. -/
theorem str_zeros (count : Nat) : str (memory ++ List.replicate count '\x00') = str memory := by
  induction memory with
  | nil => cases count <;> rfl
  | cons char rest ih =>
    by_cases ended : char = '\x00'
    · rw [ended, List.cons_append, str_ended, str_ended]
    · rw [List.cons_append, str_cons ended, str_cons ended, ih]

/-- A comparison as long as the pattern asks whether the memory begins with it. -/
theorem strncmp_iff {pattern : Text} (whole : '\x00' ∉ pattern) :
    strncmp memory pattern pattern.length = true ↔ pattern <+: memory := by
  rw [strncmp, decide_eq_true_iff, str_eq_self whole, List.take_length]
  constructor
  · intro same
    have shown : str memory <+: memory := List.takeWhile_prefix _
    rw [← same]
    exact (List.take_prefix ..).trans shown
  · rintro ⟨behind, rfl⟩
    rw [str_append whole, List.take_left]

theorem strchr_eq_none : strchr memory char = none ↔ char ∉ str memory := by
  simp only [strchr, List.findIdx?_eq_none_iff, decide_eq_false_iff_not]
  exact ⟨fun apart member => apart char member rfl, fun absent other member same =>
    absent (same ▸ member)⟩

/-- Where a character is found, it stands. -/
theorem strchr_at (found : strchr memory char = some distance) : memory[distance]? = some char := by
  obtain ⟨within, here, _⟩ := List.findIdx?_eq_some_iff_getElem.mp found
  obtain ⟨behind, shape⟩ : str memory <+: memory := List.takeWhile_prefix _
  rw [← shape, List.getElem?_append_left within, List.getElem?_eq_getElem within]
  simpa using here

/-- A character is found where it stands first. -/
theorem strchr_append (whole : '\x00' ∉ one) (absent : char ∉ one) (visible : char ≠ '\x00') :
    strchr (one ++ char :: two) char = some one.length := by
  have before : one.findIdx? (· = char) = none := by
    apply List.findIdx?_eq_none_iff.mpr
    intro other member
    simpa using fun same : other = char => absent (same ▸ member)
  rw [strchr, str_append whole, str_cons visible, List.findIdx?_append, before]
  simp [List.findIdx?_cons]

/-- What is without a mark stands at the beginning where it stands before the mark. -/
theorem prefix_mark {α : Type u} {mark : α} {pattern one two : List α} (clean : mark ∉ pattern) :
    pattern <+: one ++ mark :: two ↔ pattern <+: one := by
  constructor
  · intro begins
    by_cases long : pattern.length ≤ one.length
    · exact List.prefix_of_prefix_length_le begins (List.prefix_append ..) long
    · have short : one <+: pattern :=
        List.prefix_of_prefix_length_le (List.prefix_append ..) begins (by omega)
      obtain ⟨rest, rfl⟩ := short
      rw [List.prefix_append_right_inj] at begins
      cases rest with
      | nil => simp at long
      | cons first rest =>
        obtain ⟨_, shape⟩ := begins
        have same : first = mark := by
          injection shape
        exact absurd (by simp [same]) clean
  · intro begins
    exact begins.trans (List.prefix_append ..)

/-- A pattern that does not occur is not found. -/
theorem search_eq_none {pattern : Text} (absent : ¬ pattern <:+: memory) :
    search pattern memory = none := by
  induction memory with
  | nil =>
    rw [search, if_neg fun here => absent (List.isPrefixOf_iff_prefix.mp here).isInfix]
  | cons first rest ih =>
    rw [search, if_neg fun here => absent (List.isPrefixOf_iff_prefix.mp here).isInfix,
      ih fun later => absent (later.trans (List.suffix_cons ..).isInfix)]
    rfl

/-- A pattern is found inside. -/
theorem search_within {pattern : Text} (found : search pattern memory = some distance) :
    distance + pattern.length ≤ memory.length := by
  induction memory generalizing distance with
  | nil =>
    rw [search] at found
    split at found
    · rename_i here
      cases found
      rw [Nat.zero_add]
      exact (List.isPrefixOf_iff_prefix.mp here).length_le
    · cases found
  | cons char rest ih =>
    rw [search] at found
    split at found
    · rename_i here
      cases found
      rw [Nat.zero_add]
      exact (List.isPrefixOf_iff_prefix.mp here).length_le
    · obtain ⟨less, later, rfl⟩ := Option.map_eq_some_iff.mp found
      have within := ih later
      rw [List.length_cons]
      omega

theorem strstr_within {pattern : Text} (found : strstr memory pattern = some distance) :
    distance + pattern.length ≤ memory.length :=
  (search_within found).trans (List.takeWhile_prefix _).length_le

/-- Two characters are found where they stand first. -/
theorem search_two {second : Char} (different : char ≠ second)
    (absent : ¬ [char, second] <:+: one) :
    search [char, second] (one ++ char :: second :: two) = some one.length := by
  induction one with
  | nil => simp [search]
  | cons first rest ih =>
    have later : ¬ [char, second] <:+: rest :=
      fun inside => absent (inside.trans (List.suffix_cons ..).isInfix)
    have here : ([char, second].isPrefixOf (first :: (rest ++ char :: second :: two))) = false := by
      rw [Bool.eq_false_iff]
      intro begins
      obtain ⟨behind, shape⟩ := List.isPrefixOf_iff_prefix.mp begins
      cases rest with
      | nil =>
        simp only [List.cons_append, List.nil_append, List.cons.injEq] at shape
        exact different shape.2.1.symm
      | cons next rest =>
        simp only [List.cons_append, List.nil_append, List.cons.injEq] at shape
        exact absent ⟨[], rest, by simp [shape.1, shape.2.1]⟩
    rw [List.cons_append, search, here, ih later]
    rfl

/-- What the beginning of a memory begins with, the memory begins with. -/
theorem strncmp_prefix {pattern : Text} (before : one <+: two)
    (whole : limit ≤ (str pattern).length) (same : strncmp one pattern limit = true) :
    strncmp two pattern limit = true := by
  simp only [strncmp, decide_eq_true_eq] at same ⊢
  have longer : str one <+: str two := by
    obtain ⟨behind, rfl⟩ := before
    simp only [str, List.takeWhile_append]
    split
    · exact (List.takeWhile_prefix _).trans (List.prefix_append ..)
    · exact List.prefix_rfl
  have long : limit ≤ (str one).length := by
    have lengths := congrArg List.length same
    simp only [List.length_take] at lengths
    omega
  rw [← same]
  obtain ⟨rest, shape⟩ := longer
  rw [← shape, List.take_append_of_le_length long]

/-- Up to where a character is found, the memory is a string without it. -/
theorem strchr_before (found : strchr memory char = some distance) :
    '\x00' ∉ memory.take distance ∧ char ∉ memory.take distance := by
  obtain ⟨within, _, before⟩ := List.findIdx?_eq_some_iff_getElem.mp found
  have same : memory.take distance = (str memory).take distance := by
    have prefixed : str memory <+: memory := List.takeWhile_prefix _
    exact (List.prefix_iff_eq_take.mp ((List.take_prefix distance (str memory)).trans
      prefixed)).symm ▸ by
      rw [List.length_take, Nat.min_eq_left (Nat.le_of_lt within)]
  rw [same]
  constructor
  · intro member
    have clean := List.mem_takeWhile_imp (List.mem_of_mem_take member)
    simp at clean
  · intro member
    obtain ⟨index, early, here⟩ := List.mem_iff_getElem.mp member
    rw [List.length_take] at early
    rw [List.getElem_take] at here
    exact before index (by omega) (by simp [here])

theorem decimal_inj {number other : Nat} (same : decimal number = decimal other) :
    number = other := by
  have digits := congrArg (Nat.ofDigitChars 10 · 0) same
  simpa [decimal] using digits

theorem decimal_digits {number : Nat} (member : char ∈ decimal number) : char.isDigit = true :=
  Nat.isDigit_of_mem_toDigits (by decide) (by decide) member

/-- Two strings that have the first characters in common, as many as are kept of a
string that is cut. -/
def Share (limit : Nat) (one two : Text) : Prop := ∃ start, start.length = limit ∧ start <+: one ∧
    start <+: two

/-- Strings that are cut are the same when they were before, or are alike as far as
they are kept. -/
theorem take_eq_take_iff : one.take limit = two.take limit ↔ one = two ∨ Share limit one two := by
  constructor
  · intro same
    by_cases long : limit ≤ one.length
    · exact .inr ⟨one.take limit, List.length_take_of_le long, List.take_prefix ..,
        same ▸ List.take_prefix ..⟩
    · have shorter : (one.take limit).length < limit := by
        rw [List.length_take]
        omega
      have short : two.length < limit := by
        rw [same, List.length_take] at shorter
        omega
      rw [List.take_of_length_le (by omega), List.take_of_length_le (by omega)] at same
      exact .inl same
  · rintro (rfl | ⟨start, length, first, second⟩)
    · rfl
    · rw [← length, ← List.prefix_iff_eq_take.mp first, ← List.prefix_iff_eq_take.mp second]

/-- A string shorter than the limit shares nothing. -/
theorem Share.long (share : Share limit one two) : limit ≤ one.length ∧ limit ≤ two.length := by
  obtain ⟨start, rfl, first, second⟩ := share
  exact ⟨first.length_le, second.length_le⟩

/-- What stands before the last mark, and what behind it. -/
theorem append_mark_inj {mark : Char} {behind next : Text} (clean : mark ∉ behind)
    (also : mark ∉ next) :
    one ++ mark :: behind = two ++ mark :: next ↔ one = two ∧ behind = next := by
  constructor
  · intro same
    rcases List.append_eq_append_iff.mp same with ⟨between, rfl, shape⟩ | ⟨between, rfl, shape⟩
    · cases between with
      | nil => simpa using shape
      | cons first rest =>
        obtain ⟨rfl, rfl⟩ := List.cons.inj shape
        exact absurd (by simp) clean
    · cases between with
      | nil => simpa using shape.symm
      | cons first rest =>
        obtain ⟨rfl, rfl⟩ := List.cons.inj shape
        exact absurd (by simp) also
  · rintro ⟨rfl, rfl⟩
    rfl

end EventDisp.CString
