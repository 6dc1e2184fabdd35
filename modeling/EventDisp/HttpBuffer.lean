import EventDisp.General.CBuffer
import EventDisp.HttpScanning

/-! `svr_http_parse` on the buffer of a read, which is `MAXRH` bytes long: what it reads
and copies lies inside. The model of the server takes a text that zeros follow without
end; here is the loop on the buffer itself, which comes to the same. -/
namespace EventDisp.Server

open CString

variable {bytes : Text} {pe ph p start stop rounds : Nat}

/-- The buffer that `svr_http_read` has zeroed, with what was read in front. -/
def readBuffer (bytes : Text) : Text := bytes ++ List.replicate (maxRequest - bytes.length) '\x00'

/-- One round of the loop. The numbers of characters are differences of pointers. -/
def parseBufferLine (buffer : Text) (pe ph : Nat) : Except Misuse (Option HPKG × Nat) := do
  let pt := (← Bounded.strstr buffer ph crlf).getD pe
  if ← Bounded.strncmp buffer ph "GET ".toList then
    let gk : HPKG := { met := some "GET".toList }
    let ph := ph + 4
    let ps ← Bounded.strchr buffer ph ' '
    let ph := if (← load buffer ph) = '/' then ph + 1 else ph
    match ps with
    | none => return (some gk, ph)
    | some ps =>
      if ps < pt then
        let gk := { gk with uri := some (← memcpy buffer ph (ps - ph)) }
        let ph := ps + 1
        if ph ≤ pt then return (some { gk with ver := some (← memcpy buffer ph (pt - ph)) }, ph)
        else return (some gk, ph)
      else return (some gk, ph)
  else return (none, pt + crlf.length)

/-- The loop, which is to end within so many rounds. -/
def parseBuffer (buffer : Text) (pe : Nat) : Nat → Nat → Except Misuse (List HPKG)
  | 0, _ => .error .endless
  | rounds + 1, ph =>
    if ph < pe then do
      let (made, ph) ← parseBufferLine buffer pe ph
      return made.toList ++ (← parseBuffer buffer pe rounds ph)
    else .ok []

theorem readBuffer_length (fits : bytes.length < maxRequest) :
    (readBuffer bytes).length = maxRequest := by
  rw [readBuffer, List.length_append, List.length_replicate]
  omega

theorem readBuffer_drop (inside : p ≤ bytes.length) :
    (readBuffer bytes).drop p = bytes.drop p ++ List.replicate (maxRequest - bytes.length) '\x00' :=
  List.drop_append_of_le_length inside

/-- A zero is ahead wherever the loop looks. -/
private theorem zero_ahead (fits : bytes.length < maxRequest) (inside : p ≤ bytes.length) :
    '\x00' ∈ (readBuffer bytes).drop p := by
  rw [readBuffer_drop inside]
  exact List.mem_append_right _ (List.mem_replicate.mpr ⟨by omega, rfl⟩)

private theorem str_readBuffer (inside : p ≤ bytes.length) :
    str ((readBuffer bytes).drop p) = str (bytes.drop p) := by
  rw [readBuffer_drop inside, str_zeros]

private theorem slice_readBuffer (inside : stop ≤ bytes.length) (ordered : start ≤ stop) :
    slice (readBuffer bytes) start stop = slice bytes start stop := by
  rw [slice, slice, readBuffer_drop (ordered.trans inside)]
  apply List.take_append_of_le_length
  rw [List.length_drop]
  omega

private theorem copied (fits : bytes.length < maxRequest) (inside : stop ≤ bytes.length)
    (ordered : start ≤ stop) :
    memcpy (readBuffer bytes) start (stop - start) = .ok (slice bytes start stop) := by
  have room := readBuffer_length fits
  rw [memcpy_slice ordered (by omega), slice_readBuffer inside ordered]

private theorem loaded (fits : bytes.length < maxRequest) (inside : p ≤ bytes.length) :
    load (readBuffer bytes) p = .ok ((bytes.drop p).head?.getD '\x00') := by
  have shown : (readBuffer bytes)[p]? = ((readBuffer bytes).drop p).head? := by
    rw [List.head?_drop]
  rw [load, shown, readBuffer_drop inside]
  cases left : bytes.drop p with
  | cons char rest => rfl
  | nil =>
    obtain ⟨more, count⟩ : ∃ more, maxRequest - bytes.length = more + 1 :=
      ⟨maxRequest - bytes.length - 1, by omega⟩
    rw [count]
    rfl

/-- A round comes to the same on the buffer: no read is outside, and no number is negative. -/
theorem parseBufferLine_eq (fits : bytes.length < maxRequest) (ahead : ph < pe)
    (ends : pe ≤ bytes.length) :
    parseBufferLine (readBuffer bytes) pe ph = .ok (parseLine bytes pe ph) := by
  have inside : ph ≤ bytes.length := by omega
  have zero := zero_ahead fits inside
  have same := str_readBuffer inside
  have lineEnd : Bounded.strstr (readBuffer bytes) ph crlf =
    .ok ((strstr (bytes.drop ph) crlf).map (ph + ·)) := by
    rw [Bounded.strstr_eq zero (by decide), strstr, strstr, same]
  have compared : Bounded.strncmp (readBuffer bytes) ph "GET ".toList =
    .ok (strncmp (bytes.drop ph) "GET ".toList 4) := by
    rw [Bounded.strncmp_eq zero (by decide), strncmp, strncmp, same]
    rfl
  have within : ((strstr (bytes.drop ph) crlf).map (ph + ·)).getD pe ≤ bytes.length := by
    cases found : strstr (bytes.drop ph) crlf with
    | none => exact ends
    | some distance =>
      have short := strstr_within found
      rw [List.length_drop] at short
      simp only [Option.map_some, Option.getD_some]
      omega
  unfold parseBufferLine parseLine
  simp only [lineEnd, compared, bind, Except.bind]
  generalize ((strstr (bytes.drop ph) crlf).map (ph + ·)).getD pe = pt at within
  cases alike : strncmp (bytes.drop ph) "GET ".toList 4 with
  | false => rfl
  | true =>
    obtain ⟨target, there⟩ := (strncmp_iff get_whole).mp alike
    have room : ph + 4 ≤ bytes.length := by
      have lengths := congrArg List.length there
      have four : get.length = 4 := rfl
      rw [List.length_append, List.length_drop, four] at lengths
      omega
    have blank : Bounded.strchr (readBuffer bytes) (ph + 4) ' ' =
      .ok ((strchr (bytes.drop (ph + 4)) ' ').map (ph + 4 + ·)) := by
      rw [Bounded.strchr_eq (zero_ahead fits room) (by decide), strchr, strchr, str_readBuffer room]
    have first : (bytes.drop (ph + 4)).head?.getD '\x00' = '/' ↔
      (bytes.drop (ph + 4)).head? = some '/' := by
      cases (bytes.drop (ph + 4)).head? with
      | none => simp
      | some char => simp
    simp only [blank, loaded fits room, first, pure, Except.pure, if_true]
    cases found : strchr (bytes.drop (ph + 4)) ' ' with
    | none => rfl
    | some distance =>
      have here := strchr_at found
      have close : ph + 4 + distance < bytes.length := by
        have bound := (List.getElem?_eq_some_iff.mp here).1
        rw [List.length_drop] at bound
        omega
      -- A slash is no blank, so that the blank lies behind a slash that is skipped.
      have ordered : (if (bytes.drop (ph + 4)).head? = some '/' then ph + 4 + 1 else ph + 4) ≤
        ph + 4 + distance := by
        split
        · rename_i slashed
          have behind : distance ≠ 0 := by
            rintro rfl
            rw [← List.head?_eq_getElem?, slashed] at here
            cases here
          omega
        · exact Nat.le_add_right ..
      simp only [Option.map_some, copied fits (Nat.le_of_lt close) ordered]
      split
      · rename_i before
        simp only [copied fits within before, if_pos (Nat.succ_le_of_lt before)]
      · rfl

/-- Every round goes on, so that the loop ends. -/
theorem parseBuffer_eq (fits : bytes.length < maxRequest) (ends : pe ≤ bytes.length)
    (enough : pe - ph < rounds) :
    parseBuffer (readBuffer bytes) pe rounds ph = .ok (children bytes pe rounds ph) := by
  induction rounds generalizing ph with
  | zero => omega
  | succ rounds ih =>
    rw [parseBuffer, children]
    by_cases ahead : ph < pe
    · rcases parsed : parseLine bytes pe ph with ⟨made, next⟩
      have onward := parseLine_advances (Nat.le_of_lt ahead) parsed
      rw [if_pos ahead, if_pos ahead, parseBufferLine_eq fits ahead ends, parsed]
      simp only [bind, Except.bind, pure, Except.pure, ih (by omega : pe - next < rounds)]
      cases made with
      | none => rfl
      | some gk => rfl
    · rw [if_neg ahead, if_neg ahead]

/-- **The loop of `svr_http_parse` stays inside the buffer of a read**, whatever was read:
it ends, no byte outside is read or copied, and no number of bytes to copy is negative.
What it makes is what the server makes of the bytes. -/
theorem parse_inside (bytes : Text) (some' : bytes ≠ []) (fits : bytes.length ≤ maxRequest - 1) :
    (readBuffer bytes).length = maxRequest ∧ ∀ rounds, bytes.length ≤ rounds →
      parseBuffer (readBuffer bytes)
      (bytes.length - 1) rounds 0 = .ok (scan bytes (bytes.length - 1)) := by
  have less : bytes.length < maxRequest := Nat.lt_of_le_of_lt fits (by decide)
  refine ⟨readBuffer_length less, ?_⟩
  intro rounds enough
  have positive : 0 < bytes.length := List.length_pos_iff.mpr some'
  rw [parseBuffer_eq less (Nat.sub_le ..) (by omega), scan,
    children_eq rounds (bytes.length - 1) bytes (bytes.length - 1) 0 (by omega) (Nat.le_refl _)]
  rfl

/-- A line feed, a `NUL` and a request that breaks off. -/
theorem parse_inside_broken :
    parseBuffer (readBuffer ['\n', '\x00', '\r', 'G', 'E', 'T', ' ', '/', '\r', '\n']) 9 10 0 =
      .ok (scan ['\n', '\x00', '\r', 'G', 'E', 'T', ' ', '/', '\r', '\n'] 9) :=
  (parse_inside ['\n', '\x00', '\r', 'G', 'E', 'T', ' ', '/', '\r', '\n'] (by decide) (by decide)).2
    10 (by decide)

end EventDisp.Server
