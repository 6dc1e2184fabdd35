import EventDisp.HttpHandlers

/-! What `svr_http_parse` makes of the text of a read. Its loop goes from line to line,
but behind a `GET` it goes on inside the line, where the version begins. -/
namespace EventDisp.Server

open CString

variable {memory rest line more target : Text} {pe ph left next rounds : Nat} {made : Option HPKG}

def get : Text := "GET ".toList

/-- The child that is made for a request with a URI and a version. -/
def request (uri ver : Text) : HPKG :=
  { met := some "GET".toList, uri := some uri, ver := some ver }

/-- The child that is made for a request without. -/
def badRequest : HPKG := { met := some "GET".toList }

/-- Whether a slash is skipped. -/
def slash (target : Text) : Nat := if target.head? = some '/' then 1 else 0

theorem get_whole : '\x00' ∉ get := by decide

/-- The children that the loop makes, in order. -/
def children (memory : Text) (pe : Nat) : Nat → Nat → List HPKG
  | 0, _ => []
  | rounds + 1, ph =>
    if ph < pe then
      match parseLine memory pe ph with
      | (none, ph) => children memory pe rounds ph
      | (some gk, ph) => gk :: children memory pe rounds ph
    else []

/-- The children that are made of a text, up to where the input ends. -/
def scan (memory : Text) (pe : Nat) : List HPKG := children memory pe pe 0

/-- A round for a line of something else skips the line. -/
private theorem parseLine_other (other : ¬ get <+: memory.drop ph) (within : ph ≤ pe) :
    parseLine memory pe ph =
    (none, ph + ((strstr (memory.drop ph) crlf).getD (pe - ph) + 2)) := by
  have unlike : strncmp (memory.drop ph) "GET ".toList 4 = false :=
    Bool.eq_false_iff.mpr fun same => other ((strncmp_iff get_whole).mp same)
  unfold parseLine
  dsimp only
  rw [unlike]
  simp only [Bool.false_eq_true, if_false, Prod.mk.injEq, true_and]
  cases strstr (memory.drop ph) crlf with
  | none => simp [crlf]; omega
  | some distance => simp [crlf]; omega

/-- A round for a request goes on behind the blank, or where no blank is found in the line,
behind the slash. -/
private theorem parseLine_get (there : memory.drop ph = get ++ target) (within : ph ≤ pe) :
    parseLine memory pe ph =
    match strchr target ' ' with
    | none => (some badRequest, ph + (4 + slash target))
    | some ps =>
      if 4 + ps < (strstr (memory.drop ph) crlf).getD (pe - ph) then
        (some (request ((target.take ps).drop (slash target))
          ((target.drop (ps + 1)).take ((strstr (memory.drop ph) crlf).getD (pe - ph) - (5 + ps)))),
          ph + (5 + ps))
      else (some badRequest, ph + (4 + slash target)) := by
  have alike : strncmp (memory.drop ph) "GET ".toList 4 = true :=
    (strncmp_iff get_whole).mpr ⟨target, there.symm⟩
  have behind : memory.drop (ph + 4) = target := by
    rw [← List.drop_drop, there]
    rfl
  have ends : ((strstr (memory.drop ph) crlf).map (ph + ·)).getD pe =
    ph + (strstr (memory.drop ph) crlf).getD (pe - ph) := by
    cases strstr (memory.drop ph) crlf with
    | none => simp only [Option.map_none, Option.getD_none]; omega
    | some distance => rfl
  have start : (if target.head? = some '/' then ph + 4 + 1 else ph + 4) =
    ph + (4 + slash target) := by
    unfold slash
    split <;> omega
  have piece (from' upto : Nat) :
    slice memory (ph + (4 + from')) (ph + 4 + upto) = (target.take upto).drop from' := by
    rw [slice, show ph + (4 + from') =
      ph + 4 + from' by omega, ← List.drop_drop, behind, List.drop_take,
      show ph + 4 + upto - (ph + 4 + from') = upto - from' by omega]
  unfold parseLine
  simp only [alike, if_true, behind, ends, start]
  generalize (strstr (memory.drop ph) crlf).getD (pe - ph) = reach
  cases strchr target ' ' with
  | none => rfl
  | some ps =>
    simp only [Option.map_some]
    by_cases inside : 4 + ps < reach
    · have version : slice memory (ph + 4 + ps + 1) (ph + reach) =
        (target.drop (ps + 1)).take (reach - (5 + ps)) := by
        rw [slice, show ph + 4 + ps + 1 = ph + 4 + (ps + 1) by omega, ← List.drop_drop, behind,
          show ph + reach - (ph + 4 + (ps + 1)) = reach - (5 + ps) by omega]
      rw [if_pos inside, if_pos (by omega), if_pos (by omega), piece, version,
        show ph + 4 + ps + 1 = ph + (5 + ps) by omega]
      rfl
    · rw [if_neg inside, if_neg (by omega)]
      rfl

/-- Only what lies ahead is read. -/
private theorem parseLine_shift (memory : Text) (within : ph ≤ pe) : parseLine memory pe ph =
    ((parseLine (memory.drop ph) (pe - ph) 0).1,
      ph + (parseLine (memory.drop ph) (pe - ph) 0).2) := by
  by_cases begins : get <+: memory.drop ph
  · obtain ⟨target, there⟩ := begins
    have shifted : (memory.drop ph).drop 0 = get ++ target := there.symm
    rw [parseLine_get there.symm within, parseLine_get shifted (Nat.zero_le _)]
    simp only [List.drop_zero, Nat.sub_zero]
    cases strchr target ' ' with
    | none => simp
    | some ps =>
      dsimp only
      split <;> simp
  · rw [parseLine_other begins within, parseLine_other (by simpa using begins) (Nat.zero_le _)]
    simp

/-- Every round goes on. -/
theorem parseLine_advances (within : ph ≤ pe) (parsed : parseLine memory pe ph = (made, next)) :
    ph < next := by
  by_cases begins : get <+: memory.drop ph
  · obtain ⟨target, there⟩ := begins
    rw [parseLine_get there.symm within] at parsed
    split at parsed
    · cases parsed
      omega
    · split at parsed
      all_goals
        cases parsed
        omega
  · rw [parseLine_other begins within] at parsed
    cases parsed
    omega

/-- As many rounds as are left suffice, and what lies behind does not matter. -/
theorem children_eq (rounds further : Nat) (memory : Text) (pe ph : Nat) (enough : pe - ph ≤ rounds)
    (also : pe - ph ≤ further) : children memory pe rounds ph = children (memory.drop ph)
    (pe - ph) further 0 := by
  induction left : pe - ph using Nat.strongRecOn generalizing memory pe ph rounds further with
  | ind left ih =>
    subst left
    by_cases inside : ph < pe
    · obtain ⟨rounds, rfl⟩ : ∃ less, rounds = less + 1 := ⟨rounds - 1, by omega⟩
      obtain ⟨further, rfl⟩ : ∃ less, further = less + 1 := ⟨further - 1, by omega⟩
      have shifted := parseLine_shift memory (Nat.le_of_lt inside)
      rcases parsed : parseLine (memory.drop ph) (pe - ph) 0 with ⟨made, next⟩
      have advances := parseLine_advances (Nat.zero_le _) parsed
      rw [parsed] at shifted
      have one := ih (pe - (ph + next)) (by omega) rounds (pe - (ph + next)) memory pe
        (ph + next) (by omega) (Nat.le_refl _) rfl
      have two := ih (pe - ph - next) (by omega) further (pe - (ph + next)) (memory.drop ph)
        (pe - ph) next (by omega) (by omega) rfl
      rw [List.drop_drop, show pe - ph - next = pe - (ph + next) by omega] at two
      unfold children
      rw [if_pos inside, if_pos (by omega), shifted, parsed]
      cases made with
      | none => exact one.trans two.symm
      | some gk => exact congrArg (gk :: ·) (one.trans two.symm)
    · have none' (rounds : Nat) (memory : Text) : children memory (pe - ph) rounds 0 = [] := by
        cases rounds with
        | zero => rfl
        | succ rounds => rw [children, if_neg (by omega)]
      rw [none']
      cases rounds with
      | zero => rfl
      | succ rounds => rw [children, if_neg inside]

theorem scan_zero (memory : Text) : scan memory 0 = [] := rfl

private theorem scan_round (ahead : 0 < pe) (parsed : parseLine memory pe 0 = (made, next)) :
    scan memory pe = made.toList ++ scan (memory.drop next) (pe - next) := by
  obtain ⟨rounds, rfl⟩ : ∃ less, pe = less + 1 := ⟨pe - 1, by omega⟩
  have advances := parseLine_advances (Nat.zero_le _) parsed
  have behind : children memory (rounds + 1) rounds next = scan (memory.drop next)
    (rounds + 1 - next) :=
    children_eq rounds (rounds + 1 - next) memory (rounds + 1) next (by omega) (Nat.le_refl _)
  rw [scan, children, if_pos ahead, parsed]
  cases made with
  | none => exact behind
  | some gk => exact congrArg (gk :: ·) behind

/-- A line of something else is skipped. -/
theorem scan_other (other : ¬ get <+: memory) (ahead : 0 < pe) : scan memory pe =
    scan (memory.drop ((strstr memory crlf).getD pe + 2))
    (pe - ((strstr memory crlf).getD pe + 2)) := by
  have parsed := parseLine_other (show ¬ get <+: memory.drop 0 from other) (Nat.zero_le pe)
  simpa using scan_round ahead parsed

/-- A request whose line has a blank behind the URI is gone on with behind the blank. -/
theorem scan_request {ps : Nat} (ahead : 0 < pe) (found : strchr target ' ' = some ps)
    (inside : 4 + ps < (strstr (get ++ target) crlf).getD pe) :
    scan (get ++ target) pe = request ((target.take ps).drop (slash target))
        ((target.drop (ps + 1)).take ((strstr (get ++ target) crlf).getD pe - (5 + ps))) ::
      scan (target.drop (ps + 1)) (pe - (5 + ps)) := by
  have parsed := parseLine_get (show (get ++ target).drop 0 = get ++ target from rfl)
    (Nat.zero_le pe)
  simp only [found, List.drop_zero, Nat.sub_zero, if_pos inside, Nat.zero_add] at parsed
  have behind : (get ++ target).drop (5 + ps) = target.drop (ps + 1) := by
    rw [show 5 + ps = get.length + (ps + 1) by simp [get]; omega, ← List.drop_drop, List.drop_left]
  rw [scan_round ahead parsed, behind]
  rfl

/-- One without is gone on with behind the slash. -/
theorem scan_bad (ahead : 0 < pe)
    (outside : ∀ ps, strchr target ' ' = some ps → (strstr (get ++ target) crlf).getD pe ≤ 4 + ps) :
    scan (get ++ target) pe = badRequest :: scan (target.drop (slash target))
    (pe - (4 + slash target)) := by
  have parsed : parseLine (get ++ target) pe 0 = (some badRequest, 4 + slash target) := by
    rw [parseLine_get (show (get ++ target).drop 0 = get ++ target from rfl) (Nat.zero_le _)]
    simp only [List.drop_zero, Nat.sub_zero]
    cases found : strchr target ' ' with
    | none => simp
    | some ps => simp [Nat.not_lt.mpr (outside ps found)]
  have behind : (get ++ target).drop (4 + slash target) = target.drop (slash target) := by
    rw [show 4 + slash target =
      get.length + slash target by simp [get], ← List.drop_drop, List.drop_left]
  rw [scan_round ahead parsed, behind]
  rfl

/-! Lines. -/

/-- The text of a line: a string without a line end in it. -/
structure Lined (line : Text) : Prop where
  whole : '\x00' ∉ line
  unbroken : ¬ crlf <:+: line

theorem Lined.suffix (lined : Lined line) (ends : rest <:+ line) : Lined rest :=
  ⟨fun member => lined.whole (ends.subset member), fun inside =>
    lined.unbroken (inside.trans ends.isInfix)⟩

/-- A line ends where its text does. -/
private theorem Lined.strstr (lined : Lined line) (more : Text) :
    CString.strstr (line ++ crlf ++ more) crlf = some line.length := by
  have shown : str (crlf ++ more) = crlf ++ str more := str_append (by decide)
  rw [CString.strstr, List.append_assoc, str_append lined.whole, shown]
  exact search_two (by decide) lined.unbroken

/-- The URI and the version behind `GET`, when there is a blank between them. -/
def uriOf (target : Text) : Text := target.takeWhile (· ≠ ' ')
def verOf (target : Text) : Text := (target.dropWhile (· ≠ ' ')).tail

/-- The child that is made for a line that begins with `GET`. -/
def requestOf (target : Text) : HPKG :=
  if ' ' ∈ target then request ((uriOf target).drop (slash target)) (verOf target) else badRequest

/-- Where in the line the loop goes on. -/
def behind (target : Text) : Text :=
  if ' ' ∈ target then verOf target else target.drop (slash target)

/-- Up to the first blank stands the URI, and behind it the version. -/
theorem parts_append {uri : Text} (absent : ' ' ∉ uri) (ver : Text) :
    uriOf (uri ++ ' ' :: ver) = uri ∧ verOf (uri ++ ' ' :: ver) = ver := by
  have all : ∀ char ∈ uri, decide (char ≠ ' ') = true := by
    intro char member
    simpa using fun same : char = ' ' => absent (same ▸ member)
  constructor
  · rw [uriOf, List.takeWhile_append_of_pos all, List.takeWhile_cons_of_neg (by simp),
      List.append_nil]
  · rw [verOf, List.dropWhile_append_of_pos all, List.dropWhile_cons_of_neg (by simp),
      List.tail_cons]

theorem target_split (blank : ' ' ∈ target) : target = uriOf target ++ ' ' :: verOf target ∧
    ' ' ∉ uriOf target := by
  obtain ⟨uri, ver, rfl, absent⟩ := List.eq_append_cons_of_mem blank
  rw [(parts_append absent _).1, (parts_append absent _).2]
  exact ⟨rfl, absent⟩

private theorem target_append (blank : ' ' ∈ target) (more : Text) :
    target ++ more = uriOf target ++ ' ' :: (verOf target ++ more) := by
  conv_lhs => rw [(target_split blank).1]
  simp

theorem length_target (blank : ' ' ∈ target) :
    target.length = (uriOf target).length + ((verOf target).length + 1) := by
  conv_lhs => rw [(target_split blank).1]
  simp

theorem take_target (blank : ' ' ∈ target) (more : Text) :
    (target ++ more).take (uriOf target).length = uriOf target := by
  rw [target_append blank, List.take_left]

theorem drop_target (blank : ' ' ∈ target) (more : Text) :
    (target ++ more).drop ((uriOf target).length + 1) = verOf target ++ more := by
  rw [target_append blank, ← List.drop_drop, List.drop_left]
  rfl

/-- The first blank is found behind the URI. -/
theorem strchr_target (blank : ' ' ∈ target) (whole : '\x00' ∉ target) (more : Text) :
    strchr (target ++ more) ' ' = some (uriOf target).length := by
  rw [target_append blank]
  exact strchr_append (fun member => whole ((List.takeWhile_prefix _).subset member))
    (target_split blank).2 (by decide)

theorem slash_append (plain : more.head? ≠ some '/') : slash (target ++ more) = slash target := by
  cases target with
  | nil => simp [slash, plain]
  | cons => rfl

theorem slash_le (target : Text) : slash target ≤ target.length := by
  unfold slash
  cases target <;> split <;> simp_all

/-- A URI is what stands between a `GET` and the next blank, but for a slash in front. -/
private theorem children_uri {gk : HPKG} {uri : Text} (there : gk.uri = some uri)
    (member : gk ∈ children memory pe rounds ph) :
    ∃ before named behind, memory = before ++ get ++ named ++ ' ' :: behind ∧ ' ' ∉ named ∧
    '\x00' ∉ named ∧
      uri = named.drop (slash named) := by
  induction rounds generalizing ph with
  | zero => cases member
  | succ rounds ih =>
    unfold children at member
    split at member
    · rename_i inside
      by_cases begins : get <+: memory.drop ph
      · obtain ⟨target, shape⟩ := begins
        have parsed := parseLine_get shape.symm (Nat.le_of_lt inside)
        rcases result : parseLine memory pe ph with ⟨_ | made, next⟩
        · rw [result] at member
          exact ih member
        · rw [result] at member parsed
          rcases List.mem_cons.mp member with rfl | later
          · cases found : strchr target ' ' with
            | none =>
              rw [found] at parsed
              cases parsed
              cases there
            | some ps =>
              simp only [found] at parsed
              split at parsed
              · cases parsed
                cases there
                obtain ⟨whole, clean⟩ := strchr_before found
                obtain ⟨_, here⟩ := List.getElem?_eq_some_iff.mp (strchr_at found)
                have split : target = target.take ps ++ ' ' :: target.drop (ps + 1) := by
                  rw [← here, List.cons_getElem_drop_succ, List.take_append_drop]
                refine ⟨memory.take ph, target.take ps, target.drop (ps + 1), ?_, clean, whole, ?_⟩
                · rw [List.append_assoc, List.append_assoc, ← split, shape, List.take_append_drop]
                · have plain : slash (target.take ps ++ ' ' :: target.drop (ps + 1)) =
                    slash (target.take ps) :=
                    slash_append (by simp)
                  rw [← plain, ← split]
              · cases parsed
                cases there
          · exact ih later
      · rw [parseLine_other begins (Nat.le_of_lt inside)] at member
        exact ih member
    · cases member

/-- The URI of a child stands in the text. -/
theorem scan_uri {gk : HPKG} {uri : Text} (there : gk.uri = some uri)
    (member : gk ∈ scan memory pe) :
    ∃ before named behind, memory = before ++ get ++ named ++ ' ' :: behind ∧ ' ' ∉ named ∧
    '\x00' ∉ named ∧
      uri = named.drop (slash named) :=
  children_uri there member

/-- Where the loop goes on lies in the line. -/
theorem behind_suffix (target : Text) : behind target <:+ target := by
  unfold behind
  split
  · rename_i blank
    exact ⟨uriOf target ++
      [' '], by rw [List.append_assoc, List.singleton_append, ← (target_split blank).1]⟩
  · exact List.drop_suffix ..

/-- A line that begins with `GET` makes one child, and is gone on with behind it. -/
private theorem scan_get (lined : Lined (get ++ target)) (ahead : (get ++ target).length < pe)
    (more : Text) :
    scan (get ++ target ++ crlf ++ more) pe =
      requestOf target :: scan (behind target ++ crlf ++ more)
      (pe - ((get ++ target).length - (behind target).length)) := by
  have ends := lined.strstr more
  have within : Lined target := lined.suffix (List.suffix_append ..)
  have long : (get ++ target).length = 4 + target.length := by simp [get]; omega
  have skips : slash (target ++ (crlf ++ more)) = slash target := slash_append (by simp [crlf])
  rw [long] at ends ahead ⊢
  simp only [List.append_assoc] at ends ⊢
  by_cases blank : ' ' ∈ target
  · have length := length_target blank
    rw [scan_request (by omega) (strchr_target blank within.whole _)
      (by rw [ends, Option.getD_some]; omega), ends,
      drop_target blank, skips, requestOf, if_pos blank, behind, if_pos blank, Option.getD_some,
      show 4 + target.length - (5 + (uriOf target).length) = (verOf target).length by
        omega, List.take_left, take_target blank,
      show 4 + target.length - (verOf target).length = 5 + (uriOf target).length by omega]
  · have outside : ∀ ps, strchr (target ++ (crlf ++ more)) ' ' = some ps →
        (CString.strstr (get ++ (target ++ (crlf ++ more))) crlf).getD pe ≤ 4 + ps := by
      intro ps found
      rw [ends, Option.getD_some]
      by_contra before
      have here := strchr_at found
      rw [List.getElem?_append_left (by omega)] at here
      exact blank (List.mem_of_getElem? here)
    have short := slash_le target
    rw [scan_bad (by omega) outside, skips, requestOf, if_neg blank, behind, if_neg blank,
      List.drop_append_of_le_length short,
      List.length_drop, show 4 + target.length - (target.length - slash target) =
      4 + slash target by omega]

private theorem scan_other_line (lined : Lined line) (other : ¬ get <+: line)
    (ahead : line.length < pe) (more : Text) :
    scan (line ++ crlf ++ more) pe = scan more (pe - (line.length + 2)) := by
  have unlike : ¬ get <+: line ++ crlf ++ more := by
    rw [List.append_assoc]
    have marked : get <+: line ++ '\r' :: '\n' :: more ↔ get <+: line := prefix_mark (by decide)
    exact marked.not.mpr other
  rw [scan_other unlike (by omega), lined.strstr, Option.getD_some]
  congr 1
  rw [show line.length + 2 = (line ++ crlf).length by simp [crlf], List.drop_left]

/-- The children that are made of one line. -/
def requestsIn (line : Text) : List HPKG := scan (line ++ crlf) (line.length + 1)

/-- A line of something else makes nothing. -/
theorem requestsIn_other (lined : Lined line) (other : ¬ get <+: line) : requestsIn line = [] := by
  have here := scan_other_line lined other (Nat.lt_succ_self _) []
  rwa [List.append_nil, show line.length + 1 - (line.length + 2) = 0 by omega] at here

/-- What stands behind a blank is looked at again. -/
theorem requestsIn_get (lined : Lined (get ++ target)) :
    requestsIn (get ++ target) = requestOf target :: requestsIn (behind target) := by
  have within := (behind_suffix target).length_le
  have long : (get ++ target).length = 4 + target.length := by simp [get]; omega
  have here := scan_get lined (Nat.lt_succ_self _) []
  rw [List.append_nil, List.append_nil] at here
  rw [requestsIn, here, requestsIn,
    show (get ++ target).length + 1 - ((get ++ target).length - (behind target).length) =
    (behind target).length + 1 by omega]

/-- What is made of a line does not depend on what comes behind it. -/
theorem scan_line (lined : Lined line) (ahead : line.length < pe) (more : Text) :
    scan (line ++ crlf ++ more) pe = requestsIn line ++ scan more (pe - (line.length + 2)) := by
  induction long : line.length using Nat.strongRecOn generalizing line pe more with
  | ind length ih =>
    subst long
    by_cases begins : get <+: line
    · obtain ⟨target, rfl⟩ := begins
      have suffix := behind_suffix target
      have within := suffix.length_le
      have long : (get ++ target).length = 4 + target.length := by simp [get]; omega
      have rest : Lined (behind target) := lined.suffix (suffix.trans (List.suffix_append ..))
      rw [scan_get lined ahead, requestsIn_get lined, ih _ (by omega) rest (by omega) more rfl,
        show pe - ((get ++ target).length - (behind target).length) - ((behind target).length + 2) =
          pe - ((get ++ target).length + 2) by omega]
      rfl
    · rw [scan_other_line lined begins ahead, requestsIn_other lined begins]
      rfl

/-- Lines with their ends. -/
def text (lines : List Text) : Text := lines.flatMap (· ++ crlf)

/-- What is made of lines is what is made of each. -/
theorem scan_lines {lines : List Text} (lined : ∀ line ∈ lines, Lined line)
    (enough : (text lines).length ≤ pe + 1) (more : Text) :
    scan (text lines ++ more) pe = lines.flatMap requestsIn ++ scan more
    (pe - (text lines).length) := by
  induction lines generalizing pe with
  | nil => rfl
  | cons line lines ih =>
    have length : (text (line :: lines)).length = line.length + 2 + (text lines).length := by
      simp [text, crlf]
      omega
    have shape : text (line :: lines) ++ more = line ++ crlf ++ (text lines ++ more) := by
      simp [text]
    rw [shape, scan_line (lined line List.mem_cons_self) (by omega),
      ih (fun other member => lined other (List.mem_cons_of_mem _ member)) (by omega), length,
      show pe - (line.length + 2) - (text lines).length =
        pe - (line.length + 2 + (text lines).length) by omega,
      List.flatMap_cons, List.append_assoc]

/-- What the root of a connection makes of a read of lines. -/
theorem scan_text {lines : List Text} (lined : ∀ line ∈ lines, Lined line) :
    scan (text lines) ((text lines).length - 1) = lines.flatMap requestsIn := by
  have enough : (text lines).length ≤ (text lines).length - 1 + 1 := by omega
  have scanned := scan_lines lined enough []
  rwa [List.append_nil, show (text lines).length - 1 - (text lines).length =
    0 by omega, scan_zero, List.append_nil] at scanned

end EventDisp.Server
