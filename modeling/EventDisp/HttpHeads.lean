import EventDisp.HttpKeys
import EventDisp.HttpRuns

/-! The heads that answers begin with. A head is made for the request that finds nothing
in the cache, and every later request for the same URI is given the same one, whatever
version it asks for. -/
namespace EventDisp.Server

open Execution History

variable {server : Server} {pk : PackagePtr} {key : Key} {uri data : Text} {vern other : Nat}
  {file : Option Stat}
variable {files : Text → Option Stat} {http : Http} {cache : Cache Key Text Callback} {hpkg : HPKG}
  {around : Surroundings}

/-- The head that `svr_http_header_rio` makes, at some time. -/
def BuiltFor (file : Option Stat) (vern : Nat) (data : Text) : Prop :=
  ∃ date, data = headOf vern ⟨file, date, true⟩

/-- Whatever is in the cache, a package whose head is not there puts the one made for it. -/
theorem headerRio_builds (there : http.packages pk = some hpkg) (unopened : hpkg.hfd = none)
    (empty : hpkg.chead = none) (known : hpkg.uri = some uri) :
    ∃ changed, svrHttpHeaderRio around pk ⟨cache, http⟩ =
      putHead around pk changed (headOf hpkg.vern around)
      (emit (.loading pk (hpkg.headkey.getD [])) ⟨cache, http⟩) := by
  unfold svrHttpHeaderRio
  simp only [Http.package, there, unopened, Option.isNone_none, if_true, bind, Except.bind, known,
    empty]
  cases made : around.file with
  | none =>
    simp only [headOf, made, Option.bind_none]
    exact ⟨_, rfl⟩
  | some stat =>
    simp only [headOf, made, Option.bind_some, Surroundings.fstat, Option.getD_some,
      Option.isSome_none, Bool.false_eq_true,
      if_false]
    exact ⟨_, rfl⟩

/-- The version stands in the first line. -/
private theorem headOf_version (vern : Nat) (around : Surroundings) :
    (headOf vern around)[7]? = some (if vern = 0 then '0' else '1') := by
  unfold headOf
  cases around.file with
  | none =>
    dsimp only [head404, sline404]
    split <;> rfl
  | some stat =>
    dsimp only [head200, sline200]
    split <;> rfl

private theorem headOf_congr (same : vern = 0 ↔ other = 0) (around : Surroundings) :
    headOf vern around = headOf other around := by
  simp only [headOf, head404, head200, sline404, sline200, same]

/-- One head is made for one version only. -/
private theorem BuiltFor.version {also : Option Stat} (built : BuiltFor file vern data)
    (too : BuiltFor also other data) :
    vern = 0 ↔ other = 0 := by
  obtain ⟨date, rfl⟩ := built
  obtain ⟨moment, same⟩ := too
  have versions := congrArg (·[7]?) same
  simp only [headOf_version, Option.some.injEq] at versions
  split at versions <;> split at versions <;> simp_all

private theorem BuiltFor.congr (built : BuiltFor file vern data) (same : vern = 0 ↔ other = 0) :
    BuiltFor file other data := by
  obtain ⟨date, rfl⟩ := built
  exact ⟨date, headOf_congr same _⟩

/-- What is put under the key of a head is a head for it. -/
private def Heads (files : Text → Option Stat) : KeyUse → Text → Prop
  | .head uri vern, data => BuiltFor (files uri) vern data
  | .body .., _ => True

/-- The files do not change: for one URI, there is always the same to be opened. -/
def Steady (files : Text → Option Stat) (server : Server) : Step → Prop
  | .run index around => ∀ pk hpkg uri, server.client.tasks[index]? = some (.fetch pk) →
      server.client.packages pk = some hpkg → hpkg.uri = some uri → around.file = files uri
  | .accept _ | .complete .. => True

private theorem Steady.provides {step : Step} (steady : Steady files server step) :
    Provides (Heads files) server step := by
  cases step with
  | accept => trivial
  | run index around =>
    intro pk hpkg uri vern found there known
    refine ⟨around.date, ?_⟩
    rw [← steady pk hpkg uri found there known]
    rfl
  | complete index completion =>
    cases completion with
    | read => exact fun _ _ _ _ => trivial
    | wrote | failed => trivial

/-- The URIs that have been looked up. -/
def Sought (log : List Event) (uri : Text) : Prop :=
  ∃ pk key use found, .asked pk key use found ∈ log ∧ use.uri = uri

private theorem sought_of_story {log : List Event} {use : KeyUse}
    (asked : (story pk log).ask = some (key, use)) :
    Sought log use.uri := by
  obtain ⟨found, member⟩ := asked_of_story asked
  exact ⟨pk, key, use, found, member, rfl⟩

private theorem Sought.append {log : List Event} (sought : Sought log uri) (more : List Event) :
    Sought (log ++ more) uri := by
  obtain ⟨pk, key, use, found, member, same⟩ := sought
  exact ⟨pk, key, use, found, List.mem_append_left _ member, same⟩

/-- The keys of the heads of two URIs are told apart, and from those of parts of bodies. -/
structure HeadsApart (uri also : Text) : Prop where
  heads : headKey uri = headKey also → uri = also
  kinds : ∀ offset, headKey uri ≠ bodyKey also offset

/-- As long as files do not change and keys are told apart, the head that is written for a
request is the one that would be made for it exactly when the request whose head went into
the cache was of the same version. -/
theorem head_as_built_iff {attempts : List (Server × Step)}
    (run : Run program attempts (.ok server))
    (steady : ∀ attempt ∈ attempts, Steady files attempt.1 attempt.2)
    (apart : ∀ one two, Sought server.client.log one → Sought server.client.log two →
      HeadsApart one two)
    (writes : .writeHead pk data ∈ server.client.aios)
    (asked : (story pk server.client.log).ask = some (key, .head uri vern)) :
    BuiltFor (files uri) vern data ↔ ∀ earlier loader put later version,
      server.client.log = earlier ++ .put loader key put :: later →
      (story loader earlier).ask = some (key, .head uri version) → (version = 0 ↔ vern = 0) := by
  obtain ⟨lives, _⟩ := run_keeps run fun attempt member => (steady attempt member).provides
  have lawful := lives.lawful
  obtain ⟨_, _, _, asked', stored, _⟩ := lives.tells.aios _ writes
  rw [asked] at asked'
  cases asked'
  constructor
  · intro built earlier loader put later version shape sought
    have kept : (slot key server.client.log).stored = some put := by
      rw [shape] at lawful ⊢
      exact put_stored lawful
    rw [stored, Option.some.injEq] at kept
    obtain ⟨_, use, sought', isGood⟩ := lawful earlier _ later shape
    rw [sought] at sought'
    cases sought'
    have made : BuiltFor (files uri) version put := isGood
    rw [← kept] at made
    exact made.version built
  · intro loaded
    obtain ⟨earlier, loader, later, use, shape, sought, isGood⟩ := stored_put lawful stored
    have before : Throughout (Lawful (Heads files)) earlier := by
      intro first event rest inside
      exact lawful first event (rest ++ .put loader key data :: later) (by rw [shape, inside]; simp)
    have own : key = headKey uri := ask_key lawful asked
    have also : key = use.key := ask_key before sought
    have here : Sought server.client.log uri := sought_of_story asked
    have there : Sought server.client.log use.uri := by
      rw [shape]
      exact (sought_of_story sought).append _
    cases use with
    | head found version =>
      obtain rfl : found = uri := (apart found uri there here).heads (also.symm.trans own)
      have made : BuiltFor (files found) version data := isGood
      exact made.congr (loaded earlier loader data later version shape sought)
    | body found offset =>
      exact absurd (own.symm.trans also) ((apart uri found here there).kinds offset)

/-- Two requests for a file that is not there, from two connections. -/
private def sameVersion : List Step :=
  [.accept bare, .accept bare, .complete 0 (.read "GET /a HTTP/1.1\r\n\r\n".toList []) bare,
    .run 0 bare,
    .complete 0 (.read "GET /a HTTP/1.1\r\n\r\n".toList []) bare, .run 0 bare]

/-- Two requests of different versions, from two connections. -/
private def twoVersions : List Step :=
  [.accept bare, .accept bare, .complete 0 (.read "GET /a HTTP/1.0\r\n\r\n".toList []) bare,
    .run 0 bare,
    .complete 0 (.read "GET /a HTTP/1.1\r\n\r\n".toList []) bare, .run 0 bare]

private theorem steady_bare {steps : List Step} (all : ∀ step ∈ steps, step.around = bare) :
    ∀ attempt ∈ program.trace program.start steps, Steady (fun _ => none) attempt.1 attempt.2 := by
  intro attempt member
  have same := all _ (Program.mem_trace member)
  obtain ⟨server, step⟩ := attempt
  cases step with
  | run index around =>
    cases same
    intro _ _ _ _ _ _
    exact rfl
  | accept | complete => trivial

private theorem headsApart_a : HeadsApart "a".toList "a".toList := by
  refine ⟨fun _ => rfl, ?_⟩
  intro offset same
  have longer : bodyKey "a".toList offset = 'a' :: '#' :: (CString.decimal offset).take 253 := rfl
  rw [longer] at same
  have lengths := congrArg List.length same
  simp [headKey, CString.str, maxKeys] at lengths

/-- The second request finds the head of the first one. -/
theorem head_as_built_run : ∃ attempts server, Run program attempts (.ok server) ∧
    .asked ⟨1, 1⟩ "a".toList (.head "a".toList 1) .hit ∈ server.client.log ∧
    .writeHead ⟨1, 1⟩ (head404 1) ∈ server.client.aios ∧ BuiltFor none 1 (head404 1) := by
  have made : ∃ server, program.replay program.start sameVersion = .ok server ∧
      server.client.log = [.accepted 0, .accepted 1, .created ⟨0, 1⟩, .activated ⟨0, 1⟩,
        .asked ⟨0, 1⟩ "a".toList (.head "a".toList 1) .missed, .reserved ⟨0, 1⟩ "a".toList,
        .asked ⟨0, 1⟩ "a".toList (.head "a".toList 1) .queued, .loading ⟨0, 1⟩ "a".toList,
        .put ⟨0, 1⟩ "a".toList (head404 1), .delivered ⟨0, 1⟩ true, .created ⟨1, 1⟩,
          .activated ⟨1, 1⟩,
        .asked ⟨1, 1⟩ "a".toList (.head "a".toList 1) .hit, .delivered ⟨1, 1⟩ true] ∧
      server.client.aios = [.writeHead ⟨0, 1⟩ (head404 1), .writeHead ⟨1, 1⟩ (head404 1)] :=
        ⟨_, rfl, rfl, rfl⟩
  obtain ⟨server, ran, log, writes⟩ := made
  have run := replayed program sameVersion (by decide)
  rw [ran] at run
  have asks (pk : PackagePtr) (key : Key) (use : KeyUse) (found : Lookup)
    (member : .asked pk key use found ∈ server.client.log) :
      use = .head "a".toList 1 := by
    simp only [log, List.mem_cons, Event.asked.injEq, reduceCtorEq, List.not_mem_nil, or_false,
      false_or] at member
    rcases member with ⟨_, _, own, _⟩ | ⟨_, _, own, _⟩ | ⟨_, _, own, _⟩ <;> exact own
  have second : .writeHead ⟨1, 1⟩ (head404 1) ∈ server.client.aios := by
    rw [writes]
    exact List.mem_cons_of_mem _ (List.mem_singleton_self _)
  refine ⟨_, server, run, by rw [log]; simp, second, ?_⟩
  refine (head_as_built_iff run (steady_bare (by decide)) ?_ second (by rw [log]; rfl)).mpr ?_
  · rintro one two ⟨_, _, use, _, member, rfl⟩ ⟨_, _, also, _, further, rfl⟩
    rw [asks _ _ _ _ member, asks _ _ _ _ further]
    exact headsApart_a
  · intro earlier loader put later version shape sought
    obtain ⟨found, member⟩ := asked_of_story sought
    have inside := asks _ _ _ _ (shape ▸ List.mem_append_left _ member)
    cases inside
    exact Iff.rfl

/-- The second request is answered in the version of the first. -/
theorem head_of_other_version : ∃ attempts server, Run program attempts (.ok server) ∧
    (∀ attempt ∈ attempts, Steady (fun _ => none) attempt.1 attempt.2) ∧
    (∀ one two, Sought server.client.log one → Sought server.client.log two → HeadsApart one two) ∧
    .writeHead ⟨1, 1⟩ (head404 0) ∈ server.client.aios ∧
    (story ⟨1, 1⟩ server.client.log).ask = some ("a".toList, .head "a".toList 1) ∧
    ¬ BuiltFor none 1 (head404 0) := by
  have made : ∃ server, program.replay program.start twoVersions = .ok server ∧
      server.client.log = [.accepted 0, .accepted 1, .created ⟨0, 1⟩, .activated ⟨0, 1⟩,
        .asked ⟨0, 1⟩ "a".toList (.head "a".toList 0) .missed, .reserved ⟨0, 1⟩ "a".toList,
        .asked ⟨0, 1⟩ "a".toList (.head "a".toList 0) .queued, .loading ⟨0, 1⟩ "a".toList,
        .put ⟨0, 1⟩ "a".toList (head404 0), .delivered ⟨0, 1⟩ true, .created ⟨1, 1⟩,
          .activated ⟨1, 1⟩,
        .asked ⟨1, 1⟩ "a".toList (.head "a".toList 1) .hit, .delivered ⟨1, 1⟩ true] ∧
      server.client.aios = [.writeHead ⟨0, 1⟩ (head404 0), .writeHead ⟨1, 1⟩ (head404 0)] :=
        ⟨_, rfl, rfl, rfl⟩
  obtain ⟨server, ran, log, writes⟩ := made
  have run := replayed program twoVersions (by decide)
  rw [ran] at run
  have asks (pk : PackagePtr) (key : Key) (use : KeyUse) (found : Lookup)
    (member : .asked pk key use found ∈ server.client.log) :
      use.uri = "a".toList := by
    simp only [log, List.mem_cons, Event.asked.injEq, reduceCtorEq, List.not_mem_nil, or_false,
      false_or] at member
    rcases member with ⟨_, _, rfl, _⟩ | ⟨_, _, rfl, _⟩ | ⟨_, _, rfl, _⟩ <;> rfl
  refine ⟨_, server, run, steady_bare (by decide), ?_, by rw [writes]; simp, by rw [log]; rfl, ?_⟩
  · rintro one two ⟨_, _, use, _, member, rfl⟩ ⟨_, _, also, _, further, rfl⟩
    rw [asks _ _ _ _ member, asks _ _ _ _ further]
    exact headsApart_a
  · intro built
    have cold : BuiltFor none 0 (head404 0) := ⟨[], rfl⟩
    exact Nat.one_ne_zero ((built.version cold).mpr rfl)

end EventDisp.Server
