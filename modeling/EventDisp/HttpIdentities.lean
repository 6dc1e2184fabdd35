import EventDisp.HttpRetaining
import EventDisp.HttpWire

/-! Which request an answer is for. What is written for a child answers the request that
stands in its place among all that have been read on its connection: the head and the body
of the file it asks for, or that it is a bad request. -/
namespace EventDisp.Server

open Execution History

variable {server after : Server} {step : Step} {pk : PackagePtr} {conn : Nat}
  {attempts : List (Server × Step)} {wanted : Option (Text × Nat)}
variable {good : KeyUse → Text → Prop} {log : List Event}

/-- The requests that the step reads on the connection. -/
def Step.requests (server : Server) (step : Step) (conn : Nat) : List HPKG :=
  match step.reads server with
  | some (pk, bytes) => if pk.conn = conn then scan bytes (bytes.length - 1) else []
  | none => []

/-- The requests that have been read on the connection. -/
def requestsOn (attempts : List (Server × Step)) (conn : Nat) : List HPKG :=
  attempts.flatMap fun attempt => attempt.2.requests attempt.1 conn

/-- The request in the child's place, counted on its connection from the first one on. -/
def requestOf? (attempts : List (Server × Step)) (pk : PackagePtr) : Option HPKG :=
  if pk.number = 0 then none else (requestsOn attempts pk.conn)[pk.number - 1]?

/-- What is written is what the child's request asks for. -/
def Replies (attempts : List (Server × Step)) (earlier : List Event) : Event → Prop
  | .written pk part data _ => ∃ gk, requestOf? attempts pk = some gk ∧
    match part, gk.wanted with
    | .head, none => data = answer400
    | .head, some (uri, vern) => (story pk earlier).ask = some (headKey uri, .head uri vern) ∧
      (slot (headKey uri) earlier).stored = some data
    | .body, some (uri, _) =>
      (slot (bodyKey uri (story pk earlier).streamed.length) earlier).stored = some data
    | .body, none | .unknown, _ => False
  | .accepted _ | .created _ | .activated _ | .rearmed _ | .finalised _ | .closed _ | .asked ..
  | .reserved .. | .loading .. | .put .. | .cancelled .. | .delivered .. | .aborted _
  | .released .. => True

private theorem requestsOn_concat (attempts : List (Server × Step)) (server : Server) (step : Step)
    (conn : Nat) :
    requestsOn (attempts ++ [(server, step)]) conn =
      requestsOn attempts conn ++ step.requests server conn := by
  simp [requestsOn]

/-- A request that is read stays in its place. -/
theorem requestOf_kept {gk : HPKG} (there : requestOf? attempts pk = some gk)
    (more : List (Server × Step)) : requestOf? (attempts ++ more) pk = some gk := by
  unfold requestOf? requestsOn at there ⊢
  split at there
  · cases there
  · rename_i child
    rw [if_neg child, List.flatMap_append]
    obtain ⟨inside, _⟩ := List.getElem?_eq_some_iff.mp there
    rw [List.getElem?_append_left inside, there]

/-- The child's request asks for this. -/
def Asked (attempts : List (Server × Step)) (pk : PackagePtr) (wanted : Option (Text × Nat)) :
    Prop :=
  ∃ gk, requestOf? attempts pk = some gk ∧ gk.wanted = wanted

theorem Asked.more (asked : Asked attempts pk wanted) (more : List (Server × Step)) :
    Asked (attempts ++ more) pk wanted := by
  obtain ⟨gk, there, same⟩ := asked
  exact ⟨gk, requestOf_kept there more, same⟩

/-- Which requests the packages are for. -/
structure Identified (attempts : List (Server × Step)) (http : Http) : Prop where
  made : ∀ conn, createdOf conn http.log = List.range' 1 (requestsOn attempts conn).length
  lines : ∀ pk hpkg, pk.number ≠ 0 → http.packages pk = some hpkg →
    ∃ gk, requestOf? attempts pk = some gk ∧ hpkg.line = gk.line
  heads : ∀ pk key uri vern found, .asked pk key (.head uri vern) found ∈ http.log →
    Asked attempts pk (some (uri, vern))
  refused : ∀ pk data, .write400 pk data ∈ http.aios → Asked attempts pk none

private theorem wanted_of_line {one two : HPKG} (same : one.line = two.line) :
    one.wanted = two.wanted := by
  simp only [HPKG.line, Prod.mk.injEq] at same
  unfold HPKG.wanted
  rw [same.1, same.2.1, same.2.2]

/-- A package that is fetched has the line of its request. -/
private theorem Identified.fetched {http : Http} (identified : Identified attempts http)
    {hpkg : HPKG} (child : pk.number ≠ 0) (there : http.packages pk = some hpkg) :
    Asked attempts pk hpkg.wanted := by
  obtain ⟨gk, request, same⟩ := identified.lines pk hpkg child there
  exact ⟨gk, request, (wanted_of_line same).symm⟩

private theorem takenUp_aios (server : Server) (step : Step) :
    (takenUp server step).aios ⊆ server.client.aios := by
  cases step with
  | accept | run => exact List.Subset.refl _
  | complete index completion around => exact (List.eraseIdx_sublist ..).subset

/-- A step that parses nothing. -/
private theorem Identified.unread (identified : Identified attempts server.client)
    (sound : Sound good server) (ran : exec server step = .ok after)
    (unread : step.reads server = none) : Identified attempts after.client := by
  obtain ⟨packages, ⟨more, longer, fits⟩, _, refuses⟩ := exec_retains ran unread
  have untaken : (takenUp server step).log = server.client.log ∧
      (takenUp server step).packages = server.client.packages := by
    cases step <;> exact ⟨rfl, rfl⟩
  have grown : after.client.log = server.client.log ++ more := untaken.1 ▸ longer
  have fetched (pk : PackagePtr) (wanted : Option (Text × Nat))
      (fetches : step.Fetches server pk wanted) : Asked attempts pk wanted := by
    obtain ⟨index, around, hpkg, rfl, found, there, rfl⟩ := fetches
    have ready := sound.ready (pending_task (List.mem_of_getElem? found) _)
    exact identified.fetched ready.proper there
  refine ⟨fun conn => ?_, fun pk hpkg child there => ?_, fun pk key uri vern found member => ?_,
    fun pk data member => ?_⟩
  · have none' : createdOf conn more = [] := by
      refine List.eq_nil_iff_forall_not_mem.mpr fun number member => ?_
      exact fits _ (mem_createdOf.mp member)
    have before := identified.made conn
    unfold createdOf at before none' ⊢
    rw [grown, numbers_append, none', List.append_nil, before]
  · obtain ⟨old, held, same⟩ := packages pk hpkg child there
    obtain ⟨gk, request, also⟩ := identified.lines pk old child (untaken.2 ▸ held)
    exact ⟨gk, request, same.trans also⟩
  · rcases List.mem_append.mp (grown ▸ member) with before | new
    · exact identified.heads pk key uri vern found before
    · exact fetched pk _ (fits _ new)
  · rcases refuses pk data member with before | refused
    · exact identified.refused pk data (takenUp_aios server step before)
    · exact fetched pk none refused

/-- What a step leaves that parses what it has read. -/
theorem exec_reads {bytes : Text} (reached : Reachable program server)
    (allowed : program.allowed server step) (ran : exec server step = .ok after)
    (reads : step.reads server = some (pk, bytes)) : ∃ index cn,
    server.client.conns pk.conn = some cn ∧ Ready server.client (.readRequest pk) ∧
    Parsed server.client after.client index pk cn.packages (scan bytes (bytes.length - 1)) := by
  unfold Step.reads at reads
  split at reads
  · rename_i index text stale around
    split at reads
    · rename_i reading
      split at reads
      · rename_i cn found
        split at reads
        · cases reads
        · rename_i open'
          cases reads
          simp only [Bool.or_eq_true, not_or, Bool.not_eq_true, List.isEmpty_eq_false_iff] at open'
          simp only [program, enabled, reading, Aio.completes, Bool.and_eq_true,
            decide_eq_true_eq] at allowed
          obtain ⟨_, parses, _, parsed⟩ :=
            exec_parses reached reading found open'.1 open'.2 allowed.2 stale around
          obtain rfl := Except.ok.inj (parses.symm.trans ran)
          have ready := (reachable_sound reached).ready
            (pending_aio (List.mem_of_getElem? reading) rfl _)
          exact ⟨index, cn, found, ready, parsed⟩
      · cases reads
    all_goals cases reads
  all_goals cases reads

/-- The created children of a connection's row, and then some more. -/
private theorem created_more (pk : PackagePtr) (conn first count : Nat) :
    createdOf conn ((List.range' first count).map fun number => .created ⟨pk.conn, number⟩) =
      if pk.conn = conn then List.range' first count else [] := by
  induction count generalizing first with
  | zero => simp
  | succ count ih =>
    rw [List.range'_succ, List.map_cons, createdOf, numbers_cons]
    unfold createdOf at ih
    rw [ih]
    by_cases own : pk.conn = conn <;> simp [Event.created?, own]

/-- A step that parses what it has read. -/
private theorem Identified.parsed (identified : Identified attempts server.client)
    (reached : Reachable program server) (allowed : program.allowed server step)
    (ran : exec server step = .ok after) {bytes : Text}
    (reads : step.reads server = some (pk, bytes)) :
    Identified (attempts ++ [(server, step)]) after.client := by
  obtain ⟨index, cn, found, ready, ⟨child, last, others⟩, tasks, aios, log⟩ :=
    exec_reads reached allowed ran reads
  have more (conn : Nat) : requestsOn (attempts ++ [(server, step)]) conn =
      requestsOn attempts conn ++ if pk.conn = conn then scan bytes (bytes.length - 1) else [] := by
    rw [requestsOn_concat, Step.requests, reads]
  -- So far as many requests have been read as children were made.
  have root : pk.number = 0 := ready.proper
  obtain ⟨now, done, _, ⟨known, line, _⟩, _⟩ := ready
  cases known.symm.trans found
  have positive := line.remaining
  have count : (requestsOn attempts pk.conn).length = cn.packages - 1 := by
    have lengths := congrArg List.length ((identified.made pk.conn).symm.trans line.created)
    simpa using lengths
  refine ⟨fun conn => ?_, fun other hpkg member there => ?_,
    fun other key uri vern found member => ?_, fun other data member => ?_⟩
  · have quiet : createdOf conn [((firstChild pk cn.packages (scan bytes (bytes.length - 1))).map
        Event.activated).getD (.rearmed pk)] = [] := by
      cases firstChild pk cn.packages (scan bytes (bytes.length - 1)) <;> simp [Event.created?]
    have before := identified.made conn
    have new := created_more pk conn cn.packages (scan bytes (bytes.length - 1)).length
    unfold createdOf at quiet before new ⊢
    rw [log, numbers_append, numbers_append, quiet, before, new, more, List.append_nil]
    split
    · rename_i own
      subst own
      rw [List.length_append, count, ← List.range'_append_1]
      congr 2
      omega
    · simp
  · by_cases new : ∃ index < (scan bytes (bytes.length - 1)).length,
      other = ⟨pk.conn, cn.packages + index⟩
    · obtain ⟨index, inside, rfl⟩ := new
      have made := child index _ (List.getElem?_eq_getElem inside)
      cases made.symm.trans there
      refine ⟨(scan bytes (bytes.length - 1))[index], ?_, rfl⟩
      have place : (requestsOn attempts pk.conn ++ scan bytes (bytes.length - 1))[cn.packages +
          index - 1]? = some (scan bytes (bytes.length - 1))[index] := by
        rw [List.getElem?_append_right (by omega), count,
          show cn.packages + index - 1 - (cn.packages - 1) = index by omega,
          List.getElem?_eq_getElem inside]
      rw [requestOf?, if_neg member, more, if_pos rfl]
      exact place
    · have different : other ≠ pk := by
        rintro rfl
        exact member root
      rw [others other different fun index inside same => new ⟨index, inside, same⟩] at there
      obtain ⟨gk, request, same⟩ := identified.lines other hpkg member there
      exact ⟨gk, requestOf_kept request _, same⟩
  · have before : .asked other key (.head uri vern) found ∈ server.client.log := by
      rw [log] at member
      rcases List.mem_append.mp member with earlier | last
      · refine (List.mem_append.mp earlier).resolve_right fun made => ?_
        obtain ⟨_, _, impossible⟩ := List.mem_map.mp made
        cases impossible
      · cases first : firstChild pk cn.packages (scan bytes (bytes.length - 1)) <;>
          simp [first] at last
    exact (identified.heads other key uri vern found before).more _
  · rw [aios] at member
    exact (identified.refused other data ((List.eraseIdx_sublist ..).subset member)).more _

theorem run_identified (run : Run program attempts (.ok server)) :
    Identified attempts server.client := by
  generalize ended : Except.ok server = outcome at run
  induction run generalizing server with
  | start =>
    cases ended
    refine ⟨fun conn => ?_, fun pk hpkg _ there => ?_, fun pk key uri vern found member => ?_,
      fun pk data member => ?_⟩
    · simp [program, requestsOn]
    all_goals simp [program] at *
  | @step attempts state call before allowed ih =>
    have identified := ih rfl
    have reached : Reachable program state := ⟨attempts, before⟩
    cases reads : call.reads state with
    | none =>
      have kept := identified.unread (reachable_sound reached) ended.symm reads
      have same (conn : Nat) :
          requestsOn (attempts ++ [(state, call)]) conn = requestsOn attempts conn := by
        rw [requestsOn_concat, Step.requests, reads, List.append_nil]
      refine ⟨fun conn => by rw [same, kept.made], fun pk hpkg child there => ?_,
        fun pk key uri vern found member => (kept.heads pk key uri vern found member).more _,
        fun pk data member => (kept.refused pk data member).more _⟩
      obtain ⟨gk, request, line⟩ := kept.lines pk hpkg child there
      exact ⟨gk, requestOf_kept request _, line⟩
    | some read =>
      obtain ⟨pk, bytes⟩ := read
      exact identified.parsed reached allowed ended.symm reads

/-- Who has looked something up has looked up the head of that first. -/
theorem head_asked {key : Key} {use : KeyUse} (lawful : Throughout (Lawful good) log)
    (asked : (story pk log).ask = some (key, use)) :
    ∃ name vern found, .asked pk name (.head use.uri vern) found ∈ log := by
  induction log using List.reverseRecOn generalizing key use with
  | nil => cases asked
  | append_singleton log event ih =>
    obtain ⟨before, last⟩ := throughout_concat.mp lawful
    rcases ask_concat pk log event with same | ⟨name, sought, found, rfl, now⟩
    · obtain ⟨name, vern, found, member⟩ := ih before (same ▸ asked)
      exact ⟨name, vern, found, List.mem_append_left _ member⟩
    · cases now.symm.trans asked
      cases use with
      | head uri vern =>
        exact ⟨key, vern, found, List.mem_append_right _ (List.mem_singleton_self _)⟩
      | body uri offset =>
        obtain ⟨_, _, _, _, known, other, sought, same⟩ := last
        obtain ⟨name, vern, found, member⟩ := ih before sought
        rw [same] at member
        exact ⟨name, vern, found, List.mem_append_left _ member⟩

private theorem Replies.more {earlier : List Event} {event : Event}
    (replies : Replies attempts earlier event) (more : List (Server × Step)) :
    Replies (attempts ++ more) earlier event := by
  cases event with
  | written pk part data count =>
    obtain ⟨gk, request, answers⟩ := replies
    exact ⟨gk, requestOf_kept request more, answers⟩
  | accepted | created | activated | rearmed | finalised | closed | asked | reserved | loading
  | put | cancelled | delivered | aborted | released => trivial

/-- What a write that completes has written is what the request asks for. -/
private theorem Identified.writes (identified : Identified attempts server.client)
    (sound : Sound good server) {part : HttpWST} {data : Text} {count index : Nat}
    {around : Surroundings} (completes : step = .complete index (.wrote count) around)
    (kind : part = .body ∧ server.client.aios[index]? = some (.writeBody pk data) ∨
      part = .head ∧ step.headWrite server = some (pk, data, count)) :
    Replies attempts server.client.log (.written pk part data count) := by
  have lawful := sound.1.lawful
  rcases kind with ⟨rfl, found⟩ | ⟨rfl, writes⟩
  · obtain ⟨key, uri, asked, stored, _⟩ := sound.1.tells.aios _ (List.mem_of_getElem? found)
    obtain ⟨name, vern, lookup, member⟩ := head_asked lawful asked
    obtain ⟨gk, request, wanted⟩ := identified.heads pk name uri vern lookup member
    cases ask_key lawful asked
    exact ⟨gk, request, by rw [wanted]; exact stored⟩
  · subst completes
    simp only [Step.headWrite] at writes
    split at writes
    · rename_i found
      cases writes
      obtain ⟨key, uri, vern, asked, stored, _⟩ :=
        sound.1.tells.aios _ (List.mem_of_getElem? found)
      obtain ⟨lookup, member⟩ := asked_of_story asked
      obtain ⟨gk, request, wanted⟩ := identified.heads pk key uri vern lookup member
      cases ask_key lawful asked
      exact ⟨gk, request, by rw [wanted]; exact ⟨asked, stored⟩⟩
    · rename_i found
      cases writes
      obtain ⟨_, same⟩ := sound.1.tells.aios _ (List.mem_of_getElem? found)
      obtain ⟨gk, request, wanted⟩ := identified.refused pk data (List.mem_of_getElem? found)
      exact ⟨gk, request, by rw [wanted]; exact same⟩
    all_goals cases writes

/-- What is written in a run is what the requests ask for. -/
theorem run_replies (run : Run program attempts (.ok server)) :
    Throughout (Replies attempts) server.client.log := by
  generalize ended : Except.ok server = outcome at run
  induction run generalizing server with
  | start =>
    cases ended
    exact throughout_nil
  | @step attempts state call before allowed ih =>
    have ran : exec state call = .ok server := ended.symm
    obtain ⟨front, more, grown, _⟩ := exec_writes ran
    have earlier : Throughout (Replies (attempts ++ [(state, call)])) state.client.log :=
      fun first event rest shape => (ih rfl first event rest shape).more _
    rw [grown]
    refine throughout_append.mpr ⟨earlier, fun first event rest shape => ?_⟩
    cases event with
    | written pk part data count =>
      obtain ⟨rfl, index, around, completes, kind⟩ :=
        written_first ran (grown.trans (by rw [shape]))
      rw [List.append_nil]
      exact ((run_identified before).writes (reachable_sound ⟨attempts, before⟩) completes
        kind).more _
    | accepted | created | activated | rearmed | finalised | closed | asked | reserved | loading
    | put | cancelled | delivered | aborted | released => trivial

/-- In every run a connection has a child for each request that has been read on it, in their
order, and what is written for a child is what the request in its place asks for. -/
theorem replies_match (run : Run program attempts (.ok server)) :
    (∀ conn, createdOf conn server.client.log =
      List.range' 1 (requestsOn attempts conn).length) ∧
      Throughout (Replies attempts) server.client.log :=
  ⟨(run_identified run).made, run_replies run⟩

/-- A request for a file that is not there and one of an unknown version are read at once. -/
private def missingAndBad : List Step :=
  asking "GET /a HTTP/1.1\r\n\r\nGET /b HTTP/2.0\r\n\r\n".toList bare ++
    [.complete 0 (.wrote 26) bare, .run 0 bare, .complete 0 (.wrote 28) bare]

/-- The first one is answered, and the second one refused. -/
theorem replies_match_two : ∃ attempts server, Run program attempts (.ok server) ∧
    requestsOn attempts 0 = [request "a".toList "HTTP/1.1".toList,
      request "b".toList "HTTP/2.0".toList] ∧
    bytesOn 0 server.client.log = head404 1 ++ answer400 ∧
    createdOf 0 server.client.log = [1, 2] ∧
    Throughout (Replies attempts) server.client.log := by
  have shown : (program.replay program.start missingAndBad).map
      (fun server => bytesOn 0 server.client.log) = .ok (head404 1 ++ answer400) := by
    decide +kernel
  obtain ⟨server, run, bytes⟩ := Run.shown (by decide +kernel) shown
  have requests : requestsOn (program.trace program.start missingAndBad) 0 =
      [request "a".toList "HTTP/1.1".toList, request "b".toList "HTTP/2.0".toList] := by
    decide +kernel
  obtain ⟨made, replies⟩ := replies_match run
  exact ⟨_, server, run, requests, bytes, by rw [made, requests]; rfl, replies⟩

end EventDisp.Server
