import EventDisp.HttpPipelines

/-! The last line of a read, with and without its end: the last character of a read is
not counted, which a line end hides. -/
namespace EventDisp.Server

open Execution CString

variable {pk : PackagePtr} {cn : Conn} {server : Server} {stale memory line rest target : Text}
  {around : Surroundings}
variable {lines : List Text} {pe index : Nat}

/-- A child with its URI and version as strings. -/
def HPKG.shown (gk : HPKG) : HPKG := { gk with uri := gk.uri.map str, ver := gk.ver.map str }

/-- Nothing is made of a text that is no request and has no further line. -/
private theorem scan_nothing (other : ¬ get <+: memory) (unbroken : ¬ crlf <:+: str memory) :
    scan memory pe = [] := by
  cases pe with
  | zero => rfl
  | succ pe =>
    rw [scan_other other (Nat.succ_pos _), strstr, search_eq_none unbroken, Option.getD_none,
      show pe + 1 - (pe + 1 + 2) = 0 by omega, scan_zero]

private theorem str_nul (whole : '\x00' ∉ line) : str (line ++ '\x00' :: rest) = line := by
  rw [str_append whole, str_ended, List.append_nil]

/-- A line that a `NUL` ends makes what it makes with a line end. -/
private theorem scan_nul (lined : Lined line) (ahead : line.length < pe) :
    (scan (line ++ '\x00' :: rest) pe).map HPKG.shown = (requestsIn line).map HPKG.shown := by
  induction long : line.length using Nat.strongRecOn generalizing line pe with
  | ind length ih =>
    subst long
    have unbroken : ¬ crlf <:+: str (line ++ '\x00' :: rest) := by
      rw [str_nul lined.whole]
      exact lined.unbroken
    by_cases begins : get <+: line
    · obtain ⟨target, rfl⟩ := begins
      have within := lined.suffix (List.suffix_append get target)
      have long : (get ++ target).length = 4 + target.length := by simp [get]; omega
      have open' : strstr (get ++ (target ++ '\x00' :: rest)) crlf = none := by
        rw [← List.append_assoc, strstr, search_eq_none unbroken]
      have more := lined.suffix ((behind_suffix target).trans (List.suffix_append ..))
      have skips : slash (target ++ '\x00' :: rest) = slash target := slash_append (by simp)
      rw [requestsIn_get lined, List.append_assoc]
      by_cases blank : ' ' ∈ target
      · have length := length_target blank
        rw [behind, if_pos blank] at more ⊢
        have version : str ((verOf target ++ '\x00' :: rest).take
          (pe - (5 + (uriOf target).length))) = str (verOf target) := by
          rw [List.take_append, List.take_of_length_le (by omega), str_append more.whole,
            str_eq_self more.whole]
          cases pe - (5 + (uriOf target).length) - (verOf target).length <;> simp [str]
        rw [scan_request (by omega) (strchr_target blank within.whole _)
          (by rw [open', Option.getD_none]; omega), open',
          Option.getD_none, drop_target blank, List.map_cons, ih _ (by omega) more (by omega) rfl,
          requestOf, if_pos blank,
          List.map_cons, skips, take_target blank]
        simp only [HPKG.shown, request, Option.map_some, version]
      · have none' : strchr (target ++ '\x00' :: rest) ' ' = none := by
          rwa [strchr_eq_none, str_nul within.whole]
        have short := slash_le target
        rw [behind, if_neg blank] at more ⊢
        rw [scan_bad (by omega) (by simp [none']), requestOf, if_neg blank, List.map_cons,
          List.map_cons, skips,
          List.drop_append_of_le_length short, ih _ (by rw [List.length_drop]; omega) more
          (by rw [List.length_drop]; omega) rfl]
    · rw [requestsIn_other lined begins,
        scan_nothing ((prefix_mark (by decide)).not.mpr begins) unbroken]

/-- The last line makes what it makes with its end, unless it is a request with a blank in it. -/
private theorem scan_last (lined : Lined line) (clean : '\r' ∉ line) :
    (scan line (line.length - 1)).map HPKG.shown = (requestsIn line).map HPKG.shown ↔
    ¬ (get <+: line ∧ ' ' ∈ line.drop 4) := by
  have unbroken : ¬ crlf <:+: str line := by
    rw [str_eq_self lined.whole]
    exact lined.unbroken
  have open' : strstr line crlf = none := search_eq_none unbroken
  by_cases begins : get <+: line
  · obtain ⟨target, rfl⟩ := begins
    have within := lined.suffix (List.suffix_append get target)
    have long : (get ++ target).length = 4 + target.length := by simp [get]; omega
    have behind' : (get ++ target).drop 4 = target := by simp [get]
    rw [requestsIn_get lined, long, behind', List.map_cons]
    by_cases blank : ' ' ∈ target
    · -- The version is short of its last character, or there is none.
      have length := length_target blank
      have found : strchr target ' ' = some (uriOf target).length := by
        simpa using strchr_target blank within.whole []
      refine iff_of_false (fun same => ?_) fun impossible =>
        impossible ⟨List.prefix_append .., blank⟩
      by_cases version : verOf target = []
      · rw [scan_bad (by omega) (by rw [found, open']; simp [version] at length ⊢; omega),
          requestOf, if_pos blank, List.map_cons] at same
        have first := (List.cons.inj same).1
        cases congrArg HPKG.uri first
      · have positive := List.length_pos_iff.mpr version
        rw [scan_request (by omega) found (by rw [open', Option.getD_none]; omega), open',
          requestOf, if_pos blank, List.map_cons] at same
        have vers := congrArg HPKG.ver (List.cons.inj same).1
        have rest : target.drop ((uriOf target).length + 1) = verOf target := by
          simpa using drop_target blank []
        have clean : '\x00' ∉ verOf target :=
          fun member => within.whole ((behind_suffix target).subset (by rwa [behind, if_pos blank]))
        have cut : '\x00' ∉ (verOf target).take
          (4 + target.length - 1 - (5 + (uriOf target).length)) :=
          fun member => clean (List.mem_of_mem_take member)
        simp only [HPKG.shown, request, Option.map_some, Option.getD_none, Option.some.injEq, rest,
          str_eq_self clean,
          str_eq_self cut] at vers
        have lengths := congrArg List.length vers
        rw [List.length_take] at lengths
        omega
    · rw [scan_bad (by omega)
        (by simp [strchr_eq_none.mpr ((str_eq_self within.whole).symm ▸ blank)]), requestOf,
        if_neg blank, behind,
        if_neg blank]
      have other : ¬ get <+: target.drop (slash target) := fun begins =>
        blank (List.mem_of_mem_drop (begins.subset (by simp [get])))
      have rest : Lined (target.drop (slash target)) := within.suffix (List.drop_suffix ..)
      rw [requestsIn_other rest other,
        scan_nothing other (by rw [str_eq_self rest.whole]; exact rest.unbroken)]
      exact iff_of_true rfl fun impossible => blank impossible.2
  · rw [requestsIn_other lined begins, scan_nothing begins unbroken]
    exact iff_of_true rfl fun impossible => begins impossible.1

/-- A string is a row of lines and what is left behind them. -/
private theorem lines_rest (whole : '\x00' ∉ memory) :
    ∃ lines line, memory = text lines ++ line ∧ Lined line ∧ ∀ line ∈ lines, Lined line := by
  induction memory with
  | nil => exact ⟨[], [], rfl, .of_clean (by simp) (by simp), by simp⟩
  | cons char memory ih =>
    obtain ⟨lines, line, rfl, last, all⟩ := ih fun member => whole (List.mem_cons_of_mem _ member)
    -- The character belongs to the first line, and ends the one before when it is `CR`.
    have grow {one : Text} (lined : Lined one) (clean : '\x00' ∉ char :: one) :
        Lined (char :: one) ∨ ∃ after, char :: one = crlf ++ after ∧ Lined after := by
      by_cases ends : crlf <+: char :: one
      · obtain ⟨after, shape⟩ := ends
        exact .inr ⟨after, shape.symm, lined.suffix ⟨['\n'], by cases shape; rfl⟩⟩
      · exact .inl ⟨clean, fun inside => (List.infix_cons_iff.mp inside).elim ends lined.unbroken⟩
    cases lines with
    | nil =>
      rcases grow last (by simpa [text] using whole) with lined | ⟨after, shape, lined⟩
      · exact ⟨[], char :: line, rfl, lined, by simp⟩
      · exact ⟨[[]],
          after, by simpa [text] using shape, lined, by simpa using Lined.of_clean (by simp) (by simp)⟩
    | cons one lines =>
      obtain ⟨own, others⟩ := List.forall_mem_cons.mp all
      rcases grow own (fun member => whole (by simp [text] at member ⊢; tauto)) with lined | ⟨after,
        shape, lined⟩
      · exact ⟨(char :: one) :: lines,
          line, by simp [text], last, List.forall_mem_cons.mpr ⟨lined, others⟩⟩
      · refine ⟨[] :: after :: lines, line, ?_, last, ?_⟩
        · have front : text (one :: lines) = one ++ (crlf ++ text lines) := by simp [text]
          have same : text ([] :: after :: lines) = crlf ++ after ++ (crlf ++ text lines) := by
            simp [text]
          rw [front, same, ← shape]
          simp
        · exact List.forall_mem_cons.mpr ⟨.of_clean (by simp) (by simp),
            List.forall_mem_cons.mpr ⟨lined, others⟩⟩

/-- A text of lines, up to a `NUL` when there is one in it. -/
private theorem lines_of (ended : memory = [] ∨ crlf <:+ memory) : ∃ lines,
    (∀ line ∈ lines, Lined line) ∧
    (memory = text lines ∧ '\x00' ∉ memory ∨ '\x00' ∈ memory ∧ ∃ line rest, Lined line ∧ rest ≠ [] ∧
      memory = text lines ++ (line ++ '\x00' :: rest)) := by
  by_cases whole : '\x00' ∈ memory
  · obtain ⟨front, rest, rfl, clean⟩ := List.eq_append_cons_of_mem whole
    obtain ⟨lines, line, rfl, lined, all⟩ := lines_rest clean
    refine ⟨lines, all, .inr ⟨whole, line, rest, lined, ?_, by simp⟩⟩
    rintro rfl
    obtain empty | ⟨before, shape⟩ := ended
    · simp at empty
    · have last := congrArg List.getLast? shape
      simp [crlf] at last
  · rcases ended with rfl | ⟨front, rfl⟩
    · exact ⟨[], by simp, .inl ⟨rfl, whole⟩⟩
    · obtain ⟨lines, line, rfl, lined, all⟩ :=
        lines_rest fun member => whole (List.mem_append_left _ member)
      exact ⟨lines ++
        [line], by simpa [or_imp, forall_and] using ⟨all, lined⟩, .inl ⟨by simp [text], whole⟩⟩

/-- A read makes the same with the end of its last line as without, exactly when the last line is
no request with a blank behind its URI, or lies behind a `NUL`. -/
private theorem scan_ending {ended last : Text} (ends : ended = [] ∨ crlf <:+ ended)
    (whole : '\x00' ∉ last) (clean : '\r' ∉ last) (some' : ended ++ last ≠ []) :
    (scan (ended ++ last) ((ended ++ last).length - 1)).map HPKG.shown =
        (scan (ended ++ last ++ crlf) ((ended ++ last ++ crlf).length - 1)).map HPKG.shown ↔
      '\x00' ∈ ended ∨ ¬ (get <+: last ∧ ' ' ∈ last.drop 4) := by
  obtain ⟨lines, lined, ⟨rfl, absent⟩ | ⟨present, line, rest, own, some'', rfl⟩⟩ := lines_of ends
  · have own := Lined.of_clean whole clean
    have positive := List.length_pos_iff.mpr some'
    rw [List.length_append] at positive
    rw [List.append_assoc, scan_lines lined (by simp; omega), scan_lines lined (by simp; omega),
      List.map_append, List.map_append,
      List.append_cancel_left_eq, or_iff_right absent, ← scan_last own clean, requestsIn,
      show (text lines ++ last).length - 1 - (text lines).length = last.length - 1 by simp; omega,
      show (text lines ++ (last ++ crlf)).length - 1 - (text lines).length =
        last.length + 1 by simp [crlf]]
  · have more := List.length_pos_iff.mpr some''
    have parsed (behind : Text) :
        (scan (text lines ++ (line ++ '\x00' :: rest) ++ behind)
          ((text lines ++ (line ++ '\x00' :: rest) ++ behind).length - 1)).map
          HPKG.shown = (lines.flatMap requestsIn).map HPKG.shown ++
          (requestsIn line).map HPKG.shown := by
      rw [List.append_assoc, scan_lines lined (by simp; omega), List.map_append, List.append_assoc,
        List.cons_append,
        scan_nul own (by simp; omega)]
    rw [List.append_assoc _ last crlf, parsed, parsed]
    exact iff_of_true rfl (.inl present)

/-- The end of the last line makes no difference exactly when that line is no request with a blank
behind its URI, or lies behind a `NUL`. -/
theorem final_line_iff (ended last : Text) (ends : ended = [] ∨ crlf <:+ ended)
    (whole : '\x00' ∉ last) (clean : '\r' ∉ last) (some' : ended ++ last ≠ [])
    (fits : (ended ++ last ++ crlf).length < maxRequest) (reached : Reachable program server)
    (reading : server.client.aios[index]? = some (.readRequest pk))
    (found : server.client.conns pk.conn = some cn) (writes : cn.closesWrite = false) (stale : Text)
    (around : Surroundings) :
    (∃ short long, exec server (.complete index (.read (ended ++ last) stale) around) = .ok short ∧
      exec server (.complete index (.read (ended ++ last ++ crlf) stale) around) = .ok long ∧
      (made server.client short.client).map HPKG.shown = (made server.client long.client).map
      HPKG.shown) ↔
        '\x00' ∈ ended ∨ ¬ (get <+: last ∧ ' ' ∈ last.drop 4) := by
  have less : (ended ++ last).length < maxRequest := by
    rw [List.length_append] at fits
    omega
  obtain ⟨short, one, _, parsed⟩ := exec_parses reached reading found writes some' less stale around
  obtain ⟨long, two, _, also⟩ :=
    exec_parses reached reading found writes (by simp [crlf]) fits stale around
  rw [← scan_ending ends whole clean some']
  constructor
  · rintro ⟨first, second, ran, again, same⟩
    obtain rfl : short = first := Except.ok.inj (one.symm.trans ran)
    obtain rfl : long = second := Except.ok.inj (two.symm.trans again)
    rwa [parsed.made fun gk member => scan_unlinked member, also.made fun gk member =>
      scan_unlinked member] at same
  · intro same
    refine ⟨short, long, one, two, ?_⟩
    rwa [parsed.made fun gk member => scan_unlinked member, also.made fun gk member =>
      scan_unlinked member]

/-- A request without its end loses the last character of its version. -/
theorem final_line_cut : ∃ server short long, Reachable program server ∧
    exec server (.complete 0 (.read "GET /a HTTP/1.1".toList []) bare) = .ok short ∧
    exec server (.complete 0 (.read ("GET /a HTTP/1.1".toList ++ crlf) []) bare) = .ok long ∧
    made server.client short.client = [request "a".toList "HTTP/1.".toList] ∧
    made server.client long.client = [request "a".toList "HTTP/1.1".toList] := by
  obtain ⟨server, short, long, ran, one, two, first, second⟩ : ∃ server short long,
      program.replay program.start [.accept bare] = .ok server ∧
      exec server (.complete 0 (.read "GET /a HTTP/1.1".toList []) bare) = .ok short ∧
      exec server (.complete 0 (.read ("GET /a HTTP/1.1".toList ++ crlf) []) bare) = .ok long ∧
      made server.client short.client = [request "a".toList "HTTP/1.".toList] ∧
      made server.client long.client = [request "a".toList "HTTP/1.1".toList] :=
        ⟨_, _, _, rfl, rfl, rfl, rfl, rfl⟩
  exact ⟨server, short, long, .replayed (by decide) ran, one, two, first, second⟩

/-- A header line may miss its end. -/
theorem final_line_header : ∃ server short long, Reachable program server ∧
    exec server (.complete 0 (.read ("GET /a HTTP/1.1".toList ++ crlf ++ "Host: x".toList)
    []) bare) = .ok short ∧
    exec server (.complete 0 (.read ("GET /a HTTP/1.1".toList ++ crlf ++ "Host: x".toList ++ crlf)
    []) bare) = .ok long ∧
    (made server.client short.client).map HPKG.shown = (made server.client long.client).map
    HPKG.shown := by
  obtain ⟨server, reached, reading, found, _⟩ := accepted_reads
  obtain ⟨short, long, one, two, same⟩ :=
    (final_line_iff ("GET /a HTTP/1.1".toList ++ crlf) "Host: x".toList (.inr ⟨_, rfl⟩)
    (by decide) (by decide) (by decide) (by decide) reached reading found (by decide) [] bare).mpr
    (.inr (by decide))
  exact ⟨server, short, long, reached, one, two, same⟩

end EventDisp.Server
