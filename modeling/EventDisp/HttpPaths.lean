import EventDisp.HttpGrowth
import EventDisp.HttpRuns

/-! The paths that files are opened under. A path stands in a request as it is, but for
one slash in front: nothing else is taken away from it, and nothing is looked for in it. -/
namespace EventDisp.Server

open CString Execution

variable {server after : Server} {attempts : List (Server × Step)} {pk : PackagePtr} {hpkg : HPKG}
  {path named : Text}
variable {conn : Nat} {attempt : Server × Step} {step : Step}

/-- The path begins at the root of the file system. -/
def Absolute (path : Text) : Prop := path.head? = some '/'

/-- The path has a segment that leads to the parent directory. -/
def Climbs (path : Text) : Prop := "..".toList ∈ path.splitOn '/'

instance (path : Text) : Decidable (Climbs path) := inferInstanceAs (Decidable (_ ∈ _))

/-- The step parses what has been read on a connection, and something is named there
between a `GET` and a blank. -/
def Requests (attempt : Server × Step) (conn : Nat) (named : Text) : Prop :=
  ∃ index bytes stale around reader before behind,
    attempt.2 = .complete index (.read bytes stale) around ∧
    attempt.1.client.aios[index]? = some (.readRequest reader) ∧ reader.conn = conn ∧
    bytes = before ++ get ++ named ++ ' ' :: behind ∧ ' ' ∉ named ∧ '\x00' ∉ named

/-- Taking a slash away takes an empty segment away. -/
theorem climbs_drop_slash (named : Text) : Climbs (named.drop (slash named)) ↔ Climbs named := by
  unfold slash
  split
  · rename_i first
    obtain ⟨rest, rfl⟩ := List.head?_eq_some_iff.mp first
    simp [Climbs, List.splitOn_cons_eq_if_modifyHead]
  · rfl

/-- One slash is taken away. -/
theorem relative_drop_slash (single : ¬ "//".toList <+: named) :
    ¬ Absolute (named.drop (slash named)) := by
  unfold Absolute slash
  split
  · rename_i first
    obtain ⟨rest, rfl⟩ := List.head?_eq_some_iff.mp first
    intro second
    obtain ⟨more, rfl⟩ := List.head?_eq_some_iff.mp second
    exact single ⟨more, rfl⟩
  · assumption

/-- Taking a pending task or completion up leaves the packages as they are. -/
private theorem begun_packages (server : Server) (step : Step) :
    (begun server step).client.packages = server.client.packages := by
  cases step with
  | accept => rfl
  | run index around =>
    simp only [begun]
    split <;> rfl
  | complete index completion around =>
    simp only [begun]
    split
    · rfl
    · rename_i aio _
      cases aio <;> cases completion <;> rfl

/-- A package with a URI had it before the step, or is made for what the step read. -/
private theorem exec_named (ran : exec server step = .ok after)
    (there : after.client.packages pk = some hpkg) (uri : hpkg.uri = some path) :
    (∃ old, server.client.packages pk = some old ∧ old.uri = some path) ∨
      ∃ named, Requests (server, step) pk.conn named ∧ path = named.drop (slash named) := by
  rcases (exec_acts ran).named pk hpkg there with ⟨old, found, same⟩ | names
  · exact .inl ⟨old, (begun_packages server step) ▸ found, same.trans uri⟩
  · rw [uri] at names
    cases step with
    | accept => cases names
    | run => cases names
    | complete index completion around =>
      obtain ⟨_, reading, reader, bytes, stale, rfl, rfl, own, gk, member, made⟩ := names
      obtain ⟨before, named, behind, shape, clean, whole, same⟩ := scan_uri made member
      exact .inr ⟨named, ⟨index, bytes, stale, around, reader, before, behind, rfl, reading, own,
        shape, clean, whole⟩, same⟩

/-- Every package with a URI has been made for what some read named. -/
theorem uri_requested (run : Run program attempts (.ok server))
    (there : server.client.packages pk = some hpkg) (uri : hpkg.uri = some path) :
    ∃ named, (∃ attempt ∈ attempts, Requests attempt pk.conn named) ∧
    path = named.drop (slash named) := by
  generalize ended : Except.ok server = outcome at run
  induction run generalizing server hpkg with
  | start =>
    cases ended
    cases there
  | @step attempts before step earlier allowed ih =>
    rcases exec_named ended.symm there uri with ⟨old, found, same⟩ | ⟨named, requests, same⟩
    · obtain ⟨named, ⟨attempt, member, requests⟩, rest⟩ := ih found same rfl
      exact ⟨named, ⟨attempt, List.mem_append_left _ member, requests⟩, rest⟩
    · exact ⟨named, ⟨(before, step), List.mem_append_right _ (List.mem_singleton_self _), requests⟩,
        same⟩

/-- **A file is opened under the path that a request names.** The path is the URI of the
package, which stands in a read on its connection between a `GET` and a blank, less one
slash in front. So it is relative when what stands there begins with no two slashes, and
leads to a parent directory exactly when that does. -/
theorem opened_as_requested (run : Run program attempts (.ok server))
    (there : server.client.packages pk = some hpkg)
    (opened : hpkg.uri = some path ∨ hpkg.hfd = some path) :
    hpkg.uri = some path ∧ ∃ named, (∃ attempt ∈ attempts, Requests attempt pk.conn named) ∧
      path = named.drop (slash named) ∧ (¬ "//".toList <+: named → ¬ Absolute path) ∧
      (Climbs path ↔ Climbs named) := by
  have uri : hpkg.uri = some path := by
    rcases opened with uri | file
    · exact uri
    · exact ((reachable_sound ⟨_, run⟩).1.tells.packages pk hpkg nofun there).opened path file
  obtain ⟨named, requested, rfl⟩ := uri_requested run there uri
  exact ⟨uri, named, requested, rfl, relative_drop_slash, climbs_drop_slash named⟩

/-- A file is there under every path. -/
private def stocked : Surroundings := ⟨some ⟨0, []⟩, [], true⟩

set_option maxRecDepth 8000 in
/-- The file is opened under the path that stands in the request. -/
theorem opened_as_requested_run : ∃ attempts server hpkg, Run program attempts (.ok server) ∧
    server.client.packages ⟨0, 1⟩ = some hpkg ∧ hpkg.hfd = some "a".toList ∧
    ∃ named, (∃ attempt ∈ attempts, Requests attempt 0 named) ∧
    "a".toList = named.drop (slash named) := by
  have opens : ∃ server hpkg,
    program.replay program.start (asking "GET /a HTTP/1.1\r\n\r\n".toList stocked) = .ok server ∧
      server.client.packages ⟨0, 1⟩ = some hpkg ∧ hpkg.hfd = some "a".toList :=
        ⟨_, _, rfl, rfl, rfl⟩
  obtain ⟨server, hpkg, ran, there, file⟩ := opens
  have run := replayed program (asking "GET /a HTTP/1.1\r\n\r\n".toList stocked) (by decide)
  rw [ran] at run
  obtain ⟨-, named, requested, stripped, -⟩ := opened_as_requested run there (.inr file)
  exact ⟨_, server, hpkg, run, there, file, named, requested, stripped⟩

set_option maxRecDepth 8000 in
/-- A request that climbs out of the directory opens what it names. -/
theorem opened_outside : ∃ attempts server hpkg, Run program attempts (.ok server) ∧
    server.client.packages ⟨0, 1⟩ = some hpkg ∧ hpkg.hfd = some "../x".toList ∧
    Climbs "../x".toList := by
  have opens : ∃ server hpkg,
    program.replay program.start (asking "GET /../x HTTP/1.1\r\n\r\n".toList stocked) = .ok server ∧
      server.client.packages ⟨0, 1⟩ = some hpkg ∧ hpkg.hfd = some "../x".toList :=
        ⟨_, _, rfl, rfl, rfl⟩
  obtain ⟨server, hpkg, ran, there, file⟩ := opens
  have run := replayed program (asking "GET /../x HTTP/1.1\r\n\r\n".toList stocked) (by decide)
  rw [ran] at run
  exact ⟨_, server, hpkg, run, there, file, by decide⟩

end EventDisp.Server
