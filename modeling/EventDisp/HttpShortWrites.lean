import EventDisp.HttpConnections
import EventDisp.HttpGrowth

/-! Heads that are written in part. Whatever the completion of its write reports, the
server goes on behind the head. -/
namespace EventDisp.Server

open Execution

variable {server after : Server} {step : Step} {pk other : PackagePtr} {key : Key} {use : KeyUse}
  {data : Text} {nbytes : Nat}
variable {attempts : List (Server × Step)} {log : List Event}
  {good : KeyUse → Text → Prop} {uri : Text} {offset : Nat}

/-- The head whose writing a step reports: whose it is, what was to be written, and how much was. -/
def Step.headWrite (server : Server) : Step → Option (PackagePtr × Text × Nat)
  | .complete index (.wrote nbytes) _ =>
    match server.client.aios[index]? with
    | some (.writeHead pk data) | some (.write400 pk data) => some (pk, data, nbytes)
    | some (.readRequest _) | some (.readBody ..) | some (.writeBody ..) | none => none
  | .complete _ (.read ..) _ | .complete _ .failed _ | .accept _ | .run .. => none

/-- What the steps report of a package's head: what was to be written, and how much was. -/
def headWrites (pk : PackagePtr) (attempts : List (Server × Step)) : List (Text × Nat) :=
  attempts.filterMap fun attempt => (attempt.2.headWrite attempt.1).bind fun (other, report) =>
    if other = pk then some report else none

/-- What has been sent. -/
def sent (writes : List (Text × Nat)) : Text := writes.flatMap fun (data, nbytes) =>
    data.take nbytes

/-- If the server goes on behind the head whose writing the step reports, what has been sent
of it is what was to be written at first. -/
def WholeHead (earlier : List (Server × Step)) (attempt : Server × Step) : Prop :=
  ∀ pk report after, attempt.2.headWrite attempt.1 = some (pk, report) →
    exec attempt.1 attempt.2 = .ok after →
    (∃ event ∈ after.client.log.drop attempt.1.client.log.length, event.movesOn pk = true) →
    ∀ head, ((headWrites pk (earlier ++ [attempt])).map Prod.fst).head? = some head →
      sent (headWrites pk (earlier ++ [attempt])) = head

/-- The step reports no less of a head than was to be written. -/
def ReportsWhole (server : Server) (step : Step) : Prop :=
  ∀ pk data nbytes, step.headWrite server = some (pk, data, nbytes) → nbytes = data.length

/-- The head is being written, or the answer to a bad request. -/
private theorem headWrite_aio (writes : step.headWrite server = some (pk, data, nbytes)) :
    ∃ index around,
    step = .complete index (.wrote nbytes) around ∧
      (server.client.aios[index]? = some (.writeHead pk data) ∨
        server.client.aios[index]? = some (.write400 pk data)) := by
  unfold Step.headWrite at writes
  split at writes
  · rename_i index count around
    split at writes
    · rename_i found
      cases writes
      exact ⟨index, around, rfl, .inl found⟩
    · rename_i found
      cases writes
      exact ⟨index, around, rfl, .inr found⟩
    all_goals cases writes
  all_goals cases writes

/-- No more is reported than was to be written. -/
private theorem headWrite_within (allowed : program.allowed server step)
    (writes : step.headWrite server = some (pk, data, nbytes)) :
    nbytes ≤ data.length := by
  obtain ⟨index, around, rfl, found | found⟩ := headWrite_aio writes
  all_goals
    simp only [program, enabled, found, Aio.completes, Bool.and_eq_true,
    decide_eq_true_eq] at allowed
    exact allowed.2

/-- Once its body has been looked up, a package looks up nothing else. -/
private theorem asks_body (lawful : History.Throughout (Lawful good) log) {found : Lookup}
    (asked : .asked pk key (.body uri offset) found ∈ log) :
    ∃ name path place, (story pk log).ask = some (name, .body path place) := by
  obtain ⟨earlier, later, rfl⟩ := List.append_of_mem asked
  rw [List.append_cons] at lawful ⊢
  have here : (story pk (earlier ++ [.asked pk key (.body uri offset) found])).ask = some (key,
    .body uri offset) := by
    rw [asked_story]
  obtain ⟨name, also, known, _, first⟩ := ask_kept lawful here
  cases also with
  | head path vern => cases (first path vern rfl).2
  | body path place => exact ⟨name, path, place, known⟩

/-- A package whose head is being written has not gone on behind it. -/
theorem headWrite_unmoved (sound : Sound good server)
    (writes : step.headWrite server = some (pk, data, nbytes)) :
    ∀ event ∈ server.client.log, event.movesOn pk = false := by
  obtain ⟨index, around, _, found⟩ := headWrite_aio writes
  obtain ⟨aio, member, own, unasked⟩ : ∃ aio ∈ server.client.aios, aio.pk = pk ∧
      ∀ name path place, (story pk server.client.log).ask ≠ some (name, .body path place) := by
    rcases found with found | found
    · obtain ⟨_, _, _, asked, _⟩ := sound.1.tells.aios _ (List.mem_of_getElem? found)
      exact ⟨_, List.mem_of_getElem? found, rfl, by simp [asked]⟩
    · have asked := (sound.1.tells.aios _ (List.mem_of_getElem? found)).1
      exact ⟨_, List.mem_of_getElem? found, rfl, by simp [asked]⟩
  obtain ⟨work, same, ready⟩ := sound.aioReady member
  have unfinished : .finalised pk ∉ server.client.log :=
    ((sound.there pk).mp (own ▸ same ▸ ready.there.1)).2
  intro event member
  cases event with
  | finalised other =>
    refine decide_eq_false fun same => unfinished ?_
    rwa [← same]
  | asked other key use found =>
    cases use with
    | head => rfl
    | body uri offset =>
      apply decide_eq_false
      intro same
      subst same
      obtain ⟨name, path, place, asked⟩ := asks_body sound.1.lawful member
      exact unasked name path place asked
  | accepted | created | activated | rearmed | closed | reserved | loading | put | cancelled
  | delivered | aborted | released | written => rfl

/-- Whatever is reported of a head, the package goes on behind it. -/
theorem headWrite_moves (sound : Sound good server)
    (writes : step.headWrite server = some (pk, data, nbytes))
    (ran : exec server step = .ok after) :
    ∃ event ∈ after.client.log.drop server.client.log.length, event.movesOn pk = true := by
  obtain ⟨index, around, rfl, found⟩ := headWrite_aio writes
  have passed : MovesOn pk (server.client.log ++ [.written pk .head data nbytes])
    (exec server (.complete index (.wrote nbytes) around)) := by
    rcases found with found | found
    · simp only [exec, found, handle]
      exact headWritten_movesOn _ around pk
    · simp only [exec, found, handle]
      obtain ⟨cn, done, hpkg, _, _, held, fits⟩ : Ready server.client (.write400 pk) :=
        sound.ready (pending_aio (List.mem_of_getElem? found) rfl _)
      let told := emit (.written pk .head data nbytes)
        { server with client := { server.client with aios := server.client.aios.eraseIdx index } }
      have there : told.client.packages pk = some hpkg := held
      exact badRequestWritten_movesOn there fits.2.2.2.1 around nbytes
  obtain ⟨event, movesOn, grown⟩ := passed.returned ran
  obtain ⟨later, same⟩ := grown
  refine ⟨event, ?_, movesOn⟩
  rw [← same]
  simp

/-- What is reported of a head, with one step more. -/
private theorem headWrites_concat (attempts : List (Server × Step)) (attempt : Server × Step) :
    headWrites pk (attempts ++ [attempt]) = headWrites pk attempts ++ headWrites pk [attempt] :=
  List.filterMap_append ..

private theorem headWrites_own (writes : step.headWrite server = some (pk, data, nbytes)) :
    headWrites pk [(server, step)] = [(data, nbytes)] := by
  simp [headWrites, writes]

/-- A package that has not gone on has had no head written. -/
private theorem headWrites_unmoved {outcome : Except Fault Server}
    (run : Run program attempts outcome) (ended : outcome = .ok server)
    (stays : ∀ event ∈ server.client.log, event.movesOn pk = false) :
    headWrites pk attempts = [] := by
  induction run generalizing server with
  | start => rfl
  | @step attempts state call before allowed ih =>
    have sound := reachable_sound ⟨_, before⟩
    rw [headWrites_concat, ih rfl fun event member =>
      stays event ((exec_extends ended).log.subset member), List.nil_append]
    by_contra some'
    obtain ⟨report, member⟩ := List.exists_mem_of_ne_nil _ some'
    obtain ⟨attempt, rfl, writes⟩ := List.mem_filterMap.mp member |>.imp fun _ =>
      And.imp_left List.mem_singleton.mp
    obtain ⟨⟨other, again⟩, told, own⟩ := Option.bind_eq_some_iff.mp writes
    dsimp only at own
    split at own
    · rename_i same
      subst same
      obtain ⟨event, inside, movesOn⟩ := headWrite_moves sound told ended
      rw [stays event (List.mem_of_mem_drop inside)] at movesOn
      cases movesOn
    · cases own

/-- A step of a run sends the whole head before the server goes on, exactly when it reports the
whole head. -/
private theorem wholeHead_iff (run : Run program attempts (.ok server))
    (allowed : program.allowed server step) (ran : exec server step = .ok after) :
    WholeHead attempts (server, step) ↔
    ReportsWhole server step := by
  have sound := reachable_sound ⟨_, run⟩
  have reports (pk : PackagePtr) (data : Text) (nbytes : Nat)
    (writes : step.headWrite server = some (pk, data, nbytes)) :
      headWrites pk (attempts ++ [(server, step)]) = [(data, nbytes)] := by
    rw [headWrites_concat, headWrites_unmoved run rfl (headWrite_unmoved sound writes),
      List.nil_append, headWrites_own writes]
  constructor
  · intro whole pk data nbytes writes
    have all := whole pk _ after writes ran (headWrite_moves sound writes ran) data
      (by rw [reports pk data nbytes writes]; rfl)
    rw [reports pk data nbytes writes] at all
    have long : data.length ≤ nbytes := by simpa [sent] using all
    exact Nat.le_antisymm (headWrite_within allowed writes) long
  · rintro whole pk ⟨data, nbytes⟩ after writes _ _ head first
    obtain rfl := whole pk data nbytes writes
    rw [reports pk data _ writes] at first ⊢
    obtain rfl : data = head := Option.some.inj first
    simp [sent]

/-- In every run, the server goes on behind a head only when the whole of it has been sent, exactly
when every completion of a head's write reports the whole head. -/
theorem wholeHeads_iff (run : Run program attempts (.ok server)) :
    History.Throughout WholeHead attempts ↔ ∀ attempt ∈ attempts,
    ReportsWhole attempt.1 attempt.2 := by
  generalize ended : Except.ok server = outcome at run
  induction run generalizing server with
  | start => exact iff_of_true History.throughout_nil nofun
  | step before allowed ih =>
    rw [History.throughout_concat, ih rfl, wholeHead_iff before allowed ended.symm,
      List.forall_mem_append, List.forall_mem_singleton]

/-- A request for a file, whose head is going to be written. -/
private def headOf200 : List Step := asking "GET /a HTTP/1.1\r\n\r\n".toList fileOf3

set_option maxRecDepth 8000 in
private theorem headOf200_writes (nbytes : Nat) (within : nbytes ≤ (head200 1 [] [] 3).length) :
    ∃ attempts server after,
    Run program attempts (.ok server) ∧
    program.allowed server (.complete 0 (.wrote nbytes) fileOf3) ∧
    program.exec server (.complete 0 (.wrote nbytes) fileOf3) = .ok after ∧
    (Step.complete 0 (.wrote nbytes) fileOf3).headWrite server = some (⟨0, 1⟩, head200 1 [] [] 3,
    nbytes) ∧
    headWrites ⟨0, 1⟩ attempts = [] ∧ ∀ attempt ∈ attempts, ReportsWhole attempt.1 attempt.2 := by
  obtain ⟨server, after, ran, aios, writes, wrote⟩ : ∃ server after,
    program.replay program.start headOf200 = .ok server ∧
      server.client.aios = [.writeHead ⟨0, 1⟩ (head200 1 [] [] 3)] ∧
      (program.trace program.start headOf200).filterMap
        (fun attempt => attempt.2.headWrite attempt.1) = [] ∧
      exec server (.complete 0 (.wrote nbytes) fileOf3) = .ok after := ⟨_, _, rfl, rfl, rfl, rfl⟩
  have run := replayed program headOf200 (by decide)
  rw [ran] at run
  have none' (attempt : Server × Step) (member : attempt ∈ program.trace program.start headOf200) :
      attempt.2.headWrite attempt.1 = none := by
    cases told : attempt.2.headWrite attempt.1 with
    | none => rfl
    | some report =>
      have inside :=
        List.mem_filterMap (f := fun attempt : Server × Step => attempt.2.headWrite attempt.1)
          |>.mpr ⟨attempt, member, told⟩
      rw [writes] at inside
      cases inside
  refine ⟨_, server, after, run, ?_, wrote, by simp [Step.headWrite, aios], ?_, ?_⟩
  · simpa [program, enabled, aios, Aio.completes, Step.around] using ⟨by decide, within⟩
  · exact List.filterMap_eq_nil_iff.mpr fun attempt member => by rw [none' attempt member]; rfl
  · intro attempt member pk data count told
    rw [none' attempt member] at told
    cases told

/-- Five characters of a head have been written, and the server goes on. -/
theorem wholeHeads_short : ∃ attempts server event, Run program attempts (.ok server) ∧
    headWrites ⟨0, 1⟩ attempts = [(head200 1 [] [] 3, 5)] ∧ event ∈ server.client.log ∧
    event.movesOn ⟨0, 1⟩ = true ∧
    ¬ History.Throughout WholeHead attempts := by
  obtain ⟨attempts, server, after, run, allowed, ran, writes, before, _⟩ :=
    headOf200_writes 5 (by decide)
  obtain ⟨event, member, movesOn⟩ := headWrite_moves (reachable_sound ⟨_, run⟩) writes ran
  have step : Run program (attempts ++ [(server, _)]) (.ok after) := ran ▸ run.step allowed
  refine ⟨_, after, event,
    step, by rw [headWrites_concat, before, headWrites_own writes]; rfl, List.mem_of_mem_drop member,
    movesOn, ?_⟩
  intro whole
  have reports := (wholeHead_iff run allowed ran).mp (History.throughout_concat.mp whole).2
  exact absurd (reports _ _ _ writes) (by decide)

/-- A head is written whole. -/
theorem wholeHeads_whole : ∃ attempts server, Run program attempts (.ok server) ∧
    headWrites ⟨0, 1⟩ attempts = [(head200 1 [] [] 3, (head200 1 [] [] 3).length)] ∧
    History.Throughout WholeHead attempts := by
  obtain ⟨attempts, server, after, run, allowed, ran, writes, before, reports⟩ :=
    headOf200_writes _ (Nat.le_refl _)
  have step : Run program (attempts ++ [(server, _)]) (.ok after) := ran ▸ run.step allowed
  refine ⟨_, after,
    step, by rw [headWrites_concat, before, headWrites_own writes]; rfl, (wholeHeads_iff step).mpr ?_⟩
  refine List.forall_mem_append.mpr ⟨reports,
    List.forall_mem_singleton.mpr fun pk data nbytes told => ?_⟩
  cases told.symm.trans writes
  rfl

end EventDisp.Server
