import EventDisp.General.CString

/-! Strings of C in a buffer that ends. What is in the buffer is the list of its
characters, an address is how far it is from the beginning, and a string is read one
character after the other until it is decided: nothing stands behind the end of the
buffer, so that to read there is misuse, as it is to copy a negative number of characters. -/
namespace EventDisp.CString

inductive Misuse where
  | outside
  | negative
  | endless
  deriving DecidableEq, Repr

/-- `*p`. -/
def load (buffer : Text) (p : Nat) : Except Misuse Char :=
  match buffer[p]? with
  | some char => .ok char
  | none => .error .outside

/-- `memcpy` from `p` of so many characters. -/
def memcpy (buffer : Text) (p : Nat) (n : Int) : Except Misuse Text :=
  if n < 0 then .error .negative
  else if p + n.toNat ≤ buffer.length then .ok ((buffer.drop p).take n.toNat)
  else .error .outside

variable {memory buffer pattern : Text} {wanted char : Char} {p : Nat}

namespace Bounded

/-- Whether the string begins with a pattern, which ends before the string does. -/
def begins : Text → Text → Except Misuse Bool
  | [], _ => .ok true
  | _ :: _, [] => .error .outside
  | wanted :: pattern, char :: rest => if char = wanted then begins pattern rest else .ok false

/-- How far away the character is. -/
def seek (wanted : Char) : Text → Except Misuse (Option Nat)
  | [] => .error .outside
  | char :: rest =>
    if char = wanted then .ok (some 0)
    else if char = '\x00' then .ok none
    else return (← seek wanted rest).map (· + 1)

/-- How far away the pattern is. -/
def search (pattern : Text) : Text → Except Misuse (Option Nat)
  | [] => .error .outside
  | char :: rest => do
    if ← begins pattern (char :: rest) then return some 0
    else if char = '\x00' then return none
    else return (← search pattern rest).map (· + 1)

/-- `strncmp(p, pattern, strlen(pattern)) == 0`. -/
def strncmp (buffer : Text) (p : Nat) (pattern : Text) : Except Misuse Bool :=
  begins pattern (buffer.drop p)

/-- `strchr(p, char)`. -/
def strchr (buffer : Text) (p : Nat) (char : Char) : Except Misuse (Option Nat) :=
  return (← seek char (buffer.drop p)).map (p + ·)

/-- `strstr(p, pattern)`. -/
def strstr (buffer : Text) (p : Nat) (pattern : Text) : Except Misuse (Option Nat) :=
  return (← search pattern (buffer.drop p)).map (p + ·)


/-- A comparison ends at the end of the string. -/
theorem begins_eq (terminated : '\x00' ∈ memory) (whole : '\x00' ∉ pattern) :
    begins pattern memory = .ok (pattern.isPrefixOf (str memory)) := by
  induction pattern generalizing memory with
  | nil => rfl
  | cons wanted pattern ih =>
    cases memory with
    | nil => cases terminated
    | cons char rest =>
      have visible : wanted ≠ '\x00' := fun same => whole (same ▸ List.mem_cons_self)
      rw [begins]
      split
      · rename_i same
        subst same
        have later : '\x00' ∈ rest := (List.mem_cons.mp terminated).resolve_left visible.symm
        rw [ih later fun member => whole (List.mem_cons_of_mem _ member), str_cons visible]
        simp
      · rename_i other
        by_cases ended : char = '\x00'
        · rw [ended, str_ended]
          rfl
        · have apart : (wanted == char) = false := beq_false_of_ne fun same => other same.symm
          rw [str_cons ended, List.isPrefixOf, apart]
          rfl

/-- A character is looked for up to the end of the string. -/
theorem seek_eq (terminated : '\x00' ∈ memory) (visible : wanted ≠ '\x00') :
    seek wanted memory = .ok (CString.strchr memory wanted) := by
  induction memory with
  | nil => cases terminated
  | cons char rest ih =>
    rw [seek, CString.strchr]
    by_cases ended : char = '\x00'
    · have apart : char ≠ wanted := fun same => visible (same.symm.trans ended)
      rw [if_neg apart, if_pos ended, ended, str_ended]
      rfl
    · have later : '\x00' ∈ rest := (List.mem_cons.mp terminated).resolve_left (Ne.symm ended)
      rw [str_cons ended, List.findIdx?_cons, if_neg ended, ih later]
      by_cases found : char = wanted
      · simp [found]
      · simp only [found, decide_false, Bool.false_eq_true, if_false]
        rfl

/-- A pattern is looked for up to the end of the string. -/
theorem search_eq (terminated : '\x00' ∈ memory) (whole : '\x00' ∉ pattern) :
    search pattern memory = .ok (CString.strstr memory pattern) := by
  induction memory with
  | nil => cases terminated
  | cons char rest ih =>
    rw [search, CString.strstr, begins_eq terminated whole]
    by_cases ended : char = '\x00'
    · rw [ended, str_ended, CString.search]
      cases pattern.isPrefixOf [] with
      | true => rfl
      | false => rfl
    · have later : '\x00' ∈ rest := (List.mem_cons.mp terminated).resolve_left (Ne.symm ended)
      rw [str_cons ended, CString.search, ih later]
      cases pattern.isPrefixOf (char :: str rest) with
      | true => rfl
      | false =>
        simp only [bind, Except.bind, pure, Except.pure, Bool.false_eq_true, if_false, if_neg ended]
        rfl

/-- Where the buffer has a zero from `p` on, the functions read no further, and answer
what they do where zeros stand behind it. -/
theorem strncmp_eq (terminated : '\x00' ∈ buffer.drop p) (whole : '\x00' ∉ pattern) :
    strncmp buffer p pattern = .ok (CString.strncmp (buffer.drop p) pattern pattern.length) := by
  rw [strncmp, begins_eq terminated whole, CString.strncmp, str_eq_self whole, List.take_length]
  congr 1
  rw [Bool.eq_iff_iff, List.isPrefixOf_iff_prefix, decide_eq_true_iff, List.prefix_iff_eq_take,
    eq_comm]

theorem strchr_eq (terminated : '\x00' ∈ buffer.drop p) (visible : char ≠ '\x00') :
    strchr buffer p char = .ok ((CString.strchr (buffer.drop p) char).map (p + ·)) := by
  rw [strchr, seek_eq terminated visible]
  rfl

theorem strstr_eq (terminated : '\x00' ∈ buffer.drop p) (whole : '\x00' ∉ pattern) :
    strstr buffer p pattern = .ok ((CString.strstr (buffer.drop p) pattern).map (p + ·)) := by
  rw [strstr, search_eq terminated whole]
  rfl

end Bounded

/-- A copy from one address up to a later one inside the buffer. -/
theorem memcpy_slice {start stop : Nat} (ordered : start ≤ stop) (inside : stop ≤ buffer.length) :
    memcpy buffer start (stop - start) = .ok (slice buffer start stop) := by
  have count : ((stop : Int) - start).toNat = stop - start := by omega
  rw [memcpy, if_neg (by omega), count, if_pos (by omega), slice]

end EventDisp.CString
