import EventDisp.HttpChains

/-! Reads with several requests in them: which children `svr_http_parse` makes of the
lines of a read. -/
namespace EventDisp.Server

open Execution CString

variable {before after : Http} {pk : PackagePtr} {cn : Conn} {first index : Nat} {gks : List HPKG}
variable {server : Server} {stale memory line : Text} {around : Surroundings} {lines : List Text}

def HPKG.unlinked (gk : HPKG) : HPKG := { gk with ppg := none, nsg := none }

/-- The children made in a step, in order, apart from how they are linked. -/
def made (before after : Http) : List HPKG :=
  (after.log.drop before.log.length).filterMap fun event =>
    event.created?.bind fun child => (after.packages child).map HPKG.unlinked

theorem parseLine_unlinked {pe ph next : Nat} {gk : HPKG}
    (parsed : parseLine memory pe ph = (some gk, next)) :
    gk.unlinked = gk := by
  unfold parseLine at parsed
  dsimp only at parsed
  repeat' split at parsed
  all_goals cases parsed
  all_goals rfl

theorem scan_unlinked {pe : Nat} {gk : HPKG} (member : gk ∈ scan memory pe) : gk.unlinked = gk := by
  suffices all : ∀ rounds ph, ∀ gk ∈ children memory pe rounds ph,
    gk.unlinked = gk from all _ _ gk member
  intro rounds
  induction rounds with
  | zero =>
    intro ph gk member
    cases member
  | succ rounds ih =>
    intro ph gk member
    unfold children at member
    split at member
    · rcases parsed : parseLine memory pe ph with ⟨_ | one, next⟩
      · rw [parsed] at member
        exact ih next gk member
      · rw [parsed] at member
        rcases List.mem_cons.mp member with rfl | later
        · exact parseLine_unlinked parsed
        · exact ih next gk later
    · cases member

/-- What is found under numbers in a row. -/
private theorem filterMap_row {α : Type} {shown : Nat → Option α} {found : List α} {first : Nat}
    (each : ∀ index element, found[index]? = some element → shown (first + index) = some element) :
    (List.range' first found.length).filterMap shown = found := by
  induction found generalizing first with
  | nil => rfl
  | cons element rest ih =>
    have here : shown first = some element := each 0 element rfl
    rw [List.length_cons, List.range'_succ, List.filterMap_cons_some here,
      ih fun index other there => by simpa [Nat.add_assoc, Nat.add_comm 1] using each (index + 1) other there]

/-- What was made is what was linked. -/
theorem Parsed.made (parsed : Parsed before after index pk first gks)
    (unlinked : ∀ gk ∈ gks, gk.unlinked = gk) :
    Server.made before after = gks := by
  have last : (((firstChild pk first gks).map Event.activated).getD (.rearmed pk)).created? =
    none := by
    cases firstChild pk first gks <;> rfl
  rw [Server.made, parsed.log, List.append_assoc, List.drop_left, List.filterMap_append,
    List.filterMap_map,
    List.filterMap_cons_none (by rw [last]; rfl), List.filterMap_nil, List.append_nil]
  apply filterMap_row
  intro index gk there
  have child := parsed.child index gk there
  have same := unlinked gk (List.mem_of_getElem? there)
  simp only [Function.comp_apply, Event.created?, Option.bind_some, child, Option.map_some,
    Option.some.injEq]
  exact same

/-- A request as it is sent: the line of a `GET`, and header lines. -/
structure Request where
  uri : Text
  ver : Text
  headers : List Text
  uriClean : ∀ char ∈ [' ', '\r', '\n', '\x00'], char ∉ uri
  verClean : ∀ char ∈ [' ', '\r', '\n', '\x00'], char ∉ ver
  headersClean : ∀ header ∈ headers, ∀ char ∈ ['\r', '\n', '\x00'], char ∉ header
  noGet : ∀ header ∈ headers, ¬ get <+: header

def Request.format (sent : Request) : Text :=
  "GET /".toList ++ sent.uri ++ [' '] ++ sent.ver ++ crlf ++ sent.headers.flatMap (· ++ crlf) ++
    crlf

private def Request.target (sent : Request) : Text := '/' :: sent.uri ++ ' ' :: sent.ver

private theorem Request.format_text (sent : Request) :
    sent.format = text ((get ++ sent.target) :: sent.headers ++ [[]]) := by
  have begins : "GET /".toList = get ++ ['/'] := by simp [get]
  unfold Request.format text Request.target
  rw [begins]
  generalize get = begins
  generalize crlf = ends
  simp

/-- A text without `CR` and `NUL` is one line. -/
theorem Lined.of_clean (whole : '\x00' ∉ line) (clean : '\r' ∉ line) : Lined line :=
  ⟨whole, fun inside => clean (inside.subset (by simp [crlf]))⟩

private theorem Request.target_lined (sent : Request) : Lined (get ++ sent.target) := by
  have uri := sent.uriClean
  have ver := sent.verClean
  refine .of_clean ?_ ?_
  · simp [Request.target, get, uri '\x00' (by simp), ver '\x00' (by simp)]
  · simp [Request.target, get, uri '\r' (by simp), ver '\r' (by simp)]

private theorem Request.lined (sent : Request) :
    ∀ line ∈ (get ++ sent.target) :: sent.headers ++ [[]], Lined line := by
  intro line member
  rcases List.mem_append.mp member with inside | last
  · rcases List.mem_cons.mp inside with rfl | header
    · exact sent.target_lined
    · exact .of_clean (sent.headersClean line header _ (by simp))
        (sent.headersClean line header _ (by simp))
  · rw [List.mem_singleton.mp last]
    exact .of_clean (by simp) (by simp)

/-- The line of a request makes one child, and its header lines none. -/
private theorem Request.makes (sent : Request) :
    ((get ++ sent.target) :: sent.headers ++ [[]]).flatMap requestsIn =
    [request sent.uri sent.ver] := by
  have blank : ' ' ∉ '/' :: sent.uri := by simp [sent.uriClean ' ' (by simp)]
  have plain : (sent.headers ++ [[]]).flatMap requestsIn = [] := by
    refine List.flatMap_eq_nil_iff.mpr fun header member =>
      requestsIn_other (sent.lined header (List.mem_cons_of_mem _ member)) ?_
    rcases List.mem_append.mp member with inside | last
    · exact sent.noGet header inside
    · rw [List.mem_singleton.mp last]
      decide
  obtain ⟨uri, ver⟩ := parts_append blank sent.ver
  have one : requestOf sent.target = request sent.uri sent.ver := by
    rw [requestOf, if_pos (by simp [Request.target]), Request.target, uri, ver]
    rfl
  have rest : behind sent.target = sent.ver := by
    rw [behind, if_pos (by simp [Request.target]), Request.target, ver]
  have none' : requestsIn sent.ver = [] := by
    apply requestsIn_other (.of_clean (sent.verClean _ (by simp)) (sent.verClean _ (by simp)))
    intro begins
    exact sent.verClean ' ' (by simp) (begins.subset (by simp [get]))
  rw [List.cons_append, List.flatMap_cons, requestsIn_get sent.target_lined, one, rest, none',
    plain,
    List.append_nil]

/-- Requests are parsed as they were sent: each makes one child, and the children are linked
in order, with one task for the first of them. -/
theorem pipelined_requests (requests : List Request) (some' : requests ≠ [])
    (fits : (requests.flatMap Request.format).length < maxRequest)
    (reached : Reachable program server)
    (reading : server.client.aios[index]? = some (.readRequest pk))
    (found : server.client.conns pk.conn = some cn) (writes : cn.closesWrite = false) (stale : Text)
    (around : Surroundings) :
    ∃ after, exec server (.complete index (.read (requests.flatMap Request.format) stale) around) =
    .ok after ∧
      made server.client after.client = requests.map (fun sent => request sent.uri sent.ver) ∧
      Chained server.client after.client pk cn.packages (requests.map fun sent =>
        request sent.uri sent.ver) ∧
      after.client.tasks = server.client.tasks ++ [.fetch ⟨pk.conn, cn.packages⟩] := by
  have shape : requests.flatMap Request.format = text (requests.flatMap fun sent =>
    (get ++ sent.target) :: sent.headers ++ [[]]) := by
    rw [text, List.flatMap_assoc]
    exact List.flatMap_congr fun sent _ => sent.format_text
  have lined : ∀ line ∈ requests.flatMap (fun sent => (get ++ sent.target) :: sent.headers ++ [[]]),
    Lined line := by
    intro line member
    obtain ⟨sent, _, inside⟩ := List.mem_flatMap.mp member
    exact sent.lined line inside
  have scanned : scan (requests.flatMap Request.format)
    ((requests.flatMap Request.format).length - 1) =
      requests.map fun sent => request sent.uri sent.ver := by
    rw [shape, scan_text lined, List.flatMap_assoc, List.flatMap_congr fun sent _ => sent.makes,
      List.map_eq_flatMap]
  have bytes : requests.flatMap Request.format ≠ [] := by
    intro empty
    obtain ⟨sent, member⟩ := List.exists_mem_of_ne_nil _ some'
    have nothing := List.flatMap_eq_nil_iff.mp empty sent member
    rw [sent.format_text] at nothing
    simp [text, get] at nothing
  obtain ⟨after, ran, _, parsed⟩ := exec_parses reached reading found writes bytes fits stale around
  rw [scanned] at parsed
  have unlinked : ∀ gk ∈ requests.map (fun sent => request sent.uri sent.ver),
    gk.unlinked = gk := by
    intro gk member
    rw [← scanned] at member
    exact scan_unlinked member
  have fetches : firstChild pk cn.packages (requests.map fun sent => request sent.uri sent.ver) =
    some ⟨pk.conn, cn.packages⟩ := by
    cases requests with
    | nil => exact absurd rfl some'
    | cons => rfl
  have tasks := parsed.tasks
  rw [fetches] at tasks
  exact ⟨after, ran, parsed.made unlinked, parsed.toChained, tasks⟩

/-- Where a read begins: a connection has been accepted. -/
theorem accepted_reads : ∃ server, Reachable program server ∧
    server.client.aios[0]? = some (.readRequest ⟨0, 0⟩) ∧
    server.client.conns 0 = some { cst := .connected, packages := 1 } ∧
    server.client.tasks = [] := by
  obtain ⟨server, ran, reading, found, tasks⟩ : ∃ server,
    program.replay program.start [.accept bare] = .ok server ∧
      server.client.aios[0]? = some (.readRequest ⟨0, 0⟩) ∧
      server.client.conns 0 = some { cst := .connected, packages := 1 } ∧
        server.client.tasks = [] := ⟨_, rfl, rfl, rfl, rfl⟩
  exact ⟨server, .replayed (by decide) ran, reading, found, tasks⟩

/-- Two requests, one of them with a header line. -/
theorem pipelined_requests_two : ∃ server after, Reachable program server ∧
    exec server
    (.complete 0 (.read "GET /a HTTP/1.1\r\nHost: x\r\n\r\nGET /b HTTP/1.0\r\n\r\n".toList [])
      bare) = .ok after ∧
    made server.client after.client = [request "a".toList "HTTP/1.1".toList,
    request "b".toList "HTTP/1.0".toList] ∧
    after.client.tasks = [.fetch ⟨0, 1⟩] := by
  obtain ⟨server, reached, reading, found, tasks⟩ := accepted_reads
  obtain ⟨after, ran, children, _, enqueued⟩ := pipelined_requests
    [⟨"a".toList, "HTTP/1.1".toList, ["Host: x".toList], by simp, by simp, by simp, by simp [get]⟩,
      ⟨"b".toList, "HTTP/1.0".toList, [], by simp, by simp, by simp, by simp⟩]
    (by decide) (by decide) reached reading found (by decide) [] bare
  exact ⟨server, after, reached, ran, children, by rw [enqueued, tasks]; rfl⟩

/-- A line that goes on with another `GET` behind its first blank. -/
def Doubled (line : Text) : Prop := ∃ uri rest, ' ' ∉ uri ∧ line = get ++ uri ++ ' ' :: get ++ rest

private theorem doubled_iff {target : Text} : Doubled (get ++ target) ↔ get <+: behind target := by
  constructor
  · rintro ⟨uri, rest, absent, shape⟩
    rw [List.append_assoc, List.append_assoc, List.append_right_inj, List.cons_append] at shape
    rw [shape, behind, if_pos (by simp), (parts_append absent _).2]
    exact List.prefix_append ..
  · rintro begins
    by_cases blank : ' ' ∈ target
    · obtain ⟨shape, absent⟩ := target_split blank
      rw [behind, if_pos blank] at begins
      obtain ⟨rest, same⟩ := begins
      rw [← same] at shape
      exact ⟨uriOf target, rest, absent, (congrArg (get ++ ·) shape).trans (by simp)⟩
    · rw [behind, if_neg blank] at begins
      exact absurd (List.mem_of_mem_drop (begins.subset (by simp [get]))) blank

private theorem Doubled.begins (doubled : Doubled line) : get <+: line := by
  obtain ⟨uri, rest, _, rfl⟩ := doubled
  simp

/-- A line makes one child when it begins with `GET`. -/
private theorem requestsIn_single (lined : Lined line) (alone : ¬ Doubled line) :
    requestsIn line = if get <+: line then [requestOf (line.drop 4)] else [] := by
  by_cases begins : get <+: line
  · obtain ⟨target, rfl⟩ := begins
    have rest := lined.suffix ((behind_suffix target).trans (List.suffix_append ..))
    rw [if_pos (List.prefix_append ..), requestsIn_get lined, requestsIn_other rest fun more =>
      alone (doubled_iff.mpr more)]
    rfl
  · rw [if_neg begins, requestsIn_other lined begins]

/-- It makes more when it goes on with another. -/
private theorem requestsIn_doubled (lined : Lined line) (doubled : Doubled line) :
    2 ≤ (requestsIn line).length := by
  obtain ⟨target, rfl⟩ := doubled.begins
  obtain ⟨next, more⟩ := doubled_iff.mp doubled
  have rest := lined.suffix ((behind_suffix target).trans (List.suffix_append ..))
  rw [requestsIn_get lined, ← more, requestsIn_get (more ▸ rest)]
  simp

/-- The requests that lines ask for: one for each that begins with `GET`. -/
def requestLines (lines : List Text) : List Text := lines.filter fun line => get <+: line

private theorem requests_single (lined : ∀ line ∈ lines, Lined line)
    (alone : ∀ line ∈ lines, ¬ Doubled line) :
    lines.flatMap requestsIn = (requestLines lines).map fun line => requestOf (line.drop 4) := by
  induction lines with
  | nil => rfl
  | cons line lines ih =>
    rw [List.flatMap_cons, requestsIn_single (lined line List.mem_cons_self)
      (alone line List.mem_cons_self),
      ih (fun other member => lined other (List.mem_cons_of_mem _ member)) fun other member =>
        alone other (List.mem_cons_of_mem _ member)]
    unfold requestLines
    by_cases begins : get <+: line <;> simp [begins]

/-- There are no fewer children than such lines, and more with a line that goes on. -/
private theorem requests_length (lined : ∀ line ∈ lines, Lined line) :
    (requestLines lines).length ≤ (lines.flatMap requestsIn).length ∧
      (∀ line ∈ lines, Doubled line →
        (requestLines lines).length < (lines.flatMap requestsIn).length) := by
  induction lines with
  | nil => exact ⟨Nat.le_refl _, nofun⟩
  | cons line lines ih =>
    obtain ⟨least, more⟩ := ih fun other member => lined other (List.mem_cons_of_mem _ member)
    have own := lined line List.mem_cons_self
    have split : (requestLines (line :: lines)).length = (if get <+: line then 1 else 0) +
      (requestLines lines).length := by
      unfold requestLines
      by_cases begins : get <+: line <;> simp [begins, Nat.add_comm]
    have one : (if get <+: line then 1 else 0) ≤ (requestsIn line).length := by
      by_cases doubled : Doubled line
      · have two := requestsIn_doubled own doubled
        split <;> omega
      · rw [requestsIn_single own doubled]
        split <;> simp
    rw [split, List.flatMap_cons, List.length_append]
    refine ⟨by omega, ?_⟩
    intro other member doubled
    rcases List.mem_cons.mp member with rfl | later
    · have two := requestsIn_doubled own doubled
      rw [if_pos doubled.begins]
      omega
    · have further := more other later doubled
      omega

/-- Each line that begins with `GET` makes exactly one child, exactly when none goes on with
another `GET` behind its first blank. -/
theorem one_request_a_line_iff (lines : List Text) (lined : ∀ line ∈ lines, Lined line)
    (some' : lines ≠ []) (fits : (text lines).length < maxRequest)
    (reached : Reachable program server)
    (reading : server.client.aios[index]? = some (.readRequest pk))
    (found : server.client.conns pk.conn = some cn) (writes : cn.closesWrite = false) (stale : Text)
    (around : Surroundings) :
    (∃ after, exec server (.complete index (.read (text lines) stale) around) = .ok after ∧
      made server.client after.client = (requestLines lines).map fun line =>
        requestOf (line.drop 4)) ↔
        ∀ line ∈ lines, ¬ Doubled line := by
  have bytes : text lines ≠ [] := by
    obtain ⟨line, member⟩ := List.exists_mem_of_ne_nil _ some'
    exact fun empty => by simpa [crlf] using List.flatMap_eq_nil_iff.mp empty line member
  obtain ⟨after, ran, _, parsed⟩ := exec_parses reached reading found writes bytes fits stale around
  have children := parsed.made fun gk member => scan_unlinked member
  rw [scan_text lined] at children
  constructor
  · rintro ⟨other, also, single⟩ line member doubled
    obtain rfl : after = other := Except.ok.inj (ran.symm.trans also)
    have more := (requests_length lined).2 line member doubled
    rw [← children, single, List.length_map] at more
    exact Nat.lt_irrefl _ more
  · intro alone
    exact ⟨after, ran, children.trans (requests_single lined alone)⟩

/-- A request in another's line is answered as well. -/
theorem one_request_a_line_smuggled : ∃ server after, Reachable program server ∧
    exec server (.complete 0 (.read (text ["GET /a GET /b HTTP/1.1".toList]) []) bare) = .ok after ∧
    requestLines ["GET /a GET /b HTTP/1.1".toList] = ["GET /a GET /b HTTP/1.1".toList] ∧
    made server.client after.client = [request "a".toList "GET /b HTTP/1.1".toList,
    request "b".toList "HTTP/1.1".toList] := by
  obtain ⟨server, after, ran, read, children⟩ : ∃ server after,
    program.replay program.start [.accept bare] = .ok server ∧
      exec server (.complete 0 (.read (text ["GET /a GET /b HTTP/1.1".toList]) []) bare) =
      .ok after ∧
      made server.client after.client =
        [request "a".toList "GET /b HTTP/1.1".toList, request "b".toList "HTTP/1.1".toList] :=
          ⟨_, _, rfl, rfl, rfl⟩
  exact ⟨server, after, .replayed (by decide) ran, read, by decide, children⟩

/-- A request and another line. -/
theorem one_request_a_line_plain : ∃ server after, Reachable program server ∧
    exec server (.complete 0 (.read (text ["GET /a HTTP/1.1".toList, "Host: x".toList]) []) bare) =
    .ok after ∧
    made server.client after.client = [request "a".toList "HTTP/1.1".toList] := by
  obtain ⟨server, reached, reading, found, _⟩ := accepted_reads
  have lined : ∀ line ∈ ["GET /a HTTP/1.1".toList, "Host: x".toList], Lined line := by
    intro line member
    simp only [List.mem_cons, List.not_mem_nil, or_false] at member
    rcases member with rfl | rfl <;> exact .of_clean (by decide) (by decide)
  have alone : ∀ line ∈ ["GET /a HTTP/1.1".toList, "Host: x".toList], ¬ Doubled line := by
    intro line member doubled
    simp only [List.mem_cons, List.not_mem_nil, or_false] at member
    rcases member with rfl | rfl
    · have again := doubled_iff.mp (show Doubled (get ++ "/a HTTP/1.1".toList) from doubled)
      exact absurd again (by decide)
    · exact absurd doubled.begins (by decide)
  obtain ⟨after, ran, children⟩ :=
    (one_request_a_line_iff _ lined (by decide) (by decide) reached reading found (by decide)
      [] bare).mpr alone
  exact ⟨server, after, reached, ran, children.trans (by decide)⟩

end EventDisp.Server
