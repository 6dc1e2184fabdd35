import EventDisp.HttpIdentities
import EventDisp.HttpWholeBodies

/-! No request is passed over. As long as something can be written on its connection, a child
is only finalised when its head has been looked up or its request has been refused. -/
namespace EventDisp.Server

open CString Execution History

variable {server after : Server} {step : Step} {pk : PackagePtr} {conn : Nat}
  {attempts : List (Server × Step)}
variable {good : KeyUse → Text → Prop} {log more rest : List Event}

/-- Who is finalised while something can be written has looked something up, or has been
refused. -/
def EndsAnswered (attempts : List (Server × Step)) (earlier : List Event) : Event → Prop
  | .finalised pk => pk.number ≠ 0 → status pk.conn earlier = .connected →
      (story pk earlier).ask = none →
      Asked attempts pk none ∧ ∃ count, .written pk .head answer400 count ∈ earlier
  | .accepted _ | .created _ | .activated _ | .rearmed _ | .closed _ | .asked .. | .reserved ..
  | .loading .. | .put .. | .cancelled .. | .delivered .. | .aborted _ | .released ..
  | .written .. => True

/-- A child that is finalised has been activated. -/
private theorem Sound.finalised_active (sound : Sound good server) (child : pk.number ≠ 0)
    (finalised : .finalised pk ∈ server.client.log) :
    pk.number ∈ activatedOf pk.conn server.client.log := by
  have member := mem_finalisedOf.mpr finalised
  rcases sound.1.keeps.rests pk.conn nofun with ⟨work, _, own, cn, done, _, ⟨_, line, _⟩, _⟩ | ⟨_,
    shut⟩
  · have remaining := line.remaining
    rw [own] at line
    rw [line.finalised, List.mem_range'_1] at member
    rw [line.activated, List.mem_range'_1]
    unfold activeUpTo
    omega
  · obtain ⟨made, _, activated, ⟨_, _, finals⟩ | ⟨_, _, rfl, finals⟩⟩ := shut.history
    · rw [finals, List.mem_append, List.mem_singleton] at member
      rw [activated]
      exact member.resolve_right child
    · rw [finals] at member
      cases member

/-- For a child that has been activated and not finalised something is pending. -/
private theorem Sound.active_works (sound : Sound good server)
    (active : pk.number ∈ activatedOf pk.conn server.client.log)
    (kept : .finalised pk ∉ server.client.log) :
    ∃ work : Work, work.pk = pk ∧ pending (queues server.cache) server.client work ≠ 0 := by
  have unfinished : pk.number ∉ finalisedOf pk.conn server.client.log :=
    fun member => kept (mem_finalisedOf.mp member)
  rcases sound.1.keeps.rests pk.conn nofun with ⟨work, only, own, cn, done, _, ⟨_, line, _, turns⟩,
    _⟩ | ⟨_, shut⟩
  · rw [own] at line
    rw [line.activated, List.mem_range'_1] at active
    rw [line.finalised, List.mem_range'_1] at unfinished
    have remaining := line.remaining
    unfold activeUpTo at active
    refine ⟨work, PackagePtr.ext own ?_, ?_⟩
    · rw [turns, turn, if_pos (by omega)]
      omega
    · rw [only work own]
      simp
  · obtain ⟨made, _, activated, ⟨_, _, finals⟩ | ⟨_, _, rfl, finals⟩⟩ := shut.history
    · rw [activated] at active
      rw [finals] at unfinished
      exact absurd (List.mem_append_left _ active) unfinished
    · rw [activated] at active
      cases active

/-- A step in which a child is finalised parses nothing, and the child has been activated before. -/
private theorem finalised_before (reached : Reachable program server)
    (allowed : program.allowed server step) (ran : exec server step = .ok after)
    (child : pk.number ≠ 0) (kept : .finalised pk ∉ server.client.log)
    (gone : .finalised pk ∈ after.client.log) :
    step.reads server = none ∧ pk.number ∈ activatedOf pk.conn server.client.log := by
  have later := reachable_sound (reached.step allowed ran)
  have unread : step.reads server = none := by
    cases reads : step.reads server with
    | none => rfl
    | some read =>
      obtain ⟨reader, bytes⟩ := read
      obtain ⟨_, cn, _, _, parsed⟩ := exec_reads reached allowed ran reads
      rw [parsed.log] at gone
      rcases List.mem_append.mp gone with earlier | last
      · rcases List.mem_append.mp earlier with before | made
        · exact absurd before kept
        · obtain ⟨_, _, impossible⟩ := List.mem_map.mp made
          cases impossible
      · cases first : firstChild reader cn.packages (scan bytes (bytes.length - 1)) <;>
          simp [first] at last
  refine ⟨unread, ?_⟩
  have active := later.finalised_active child gone
  obtain ⟨_, ⟨more, longer, fits⟩, _⟩ := exec_retains ran unread
  have untaken : (takenUp server step).log = server.client.log := by
    cases step <;> rfl
  unfold activatedOf at active ⊢
  rw [longer, untaken, numbers_append, List.mem_append] at active
  refine active.resolve_right fun new => ?_
  -- It would have its turn still to come.
  obtain ⟨event, member, activated⟩ := mem_numbers.mp new
  cases event with
  | activated other =>
    cases activated
    have there := (later.ready (pending_task (fits _ member) _)).there.1
    exact ((later.there _).mp there).2 gone
  | accepted | created | rearmed | finalised | closed | asked | reserved | loading | put
  | cancelled | delivered | aborted | released | written => cases activated

/-- A task is still there unless it is run. -/
private theorem exec_tasks {task : Task} (ran : exec server step = .ok after)
    (unread : step.reads server = none) (member : task ∈ server.client.tasks) :
    task ∈ after.client.tasks ∨
      ∃ index around, step = .run index around ∧ server.client.tasks[index]? = some task := by
  have further := (exec_retains ran unread).tasks
  cases step with
  | accept | complete => exact .inl (further.subset member)
  | run index around =>
    by_cases here : server.client.tasks[index]? = some task
    · exact .inr ⟨index, around, rfl, here⟩
    · refine .inl (further.subset ?_)
      obtain ⟨place, found⟩ := List.mem_iff_getElem?.mp member
      refine List.mem_eraseIdx_iff_getElem?.mpr ⟨place, ?_, found⟩
      rintro rfl
      exact here found

/-- What has been told before the one event comes before the other, too. -/
private theorem begins_before {first last : Event} (begins : log ++ [first] <+: log ++ more ++
    last :: rest) (different : first ≠ last) : first ∈ more := by
  rw [List.append_assoc, List.prefix_append_right_inj] at begins
  cases more with
  | nil =>
    obtain ⟨same, _⟩ := List.cons_prefix_cons.mp begins
    exact absurd same different
  | cons event more =>
    obtain ⟨rfl, _⟩ := List.cons_prefix_cons.mp begins
    exact List.mem_cons_self

/-- In a step, no child is finalised that could be answered and has not been. -/
private theorem finalised_answered (identified : Identified attempts server.client)
    (reached : Reachable program server) (allowed : program.allowed server step)
    (ran : exec server step = .ok after)
    (grown : after.client.log = server.client.log ++ more ++ .finalised pk :: rest)
    (child : pk.number ≠ 0) (connected : status pk.conn (server.client.log ++ more) = .connected)
    (unasked : (story pk (server.client.log ++ more)).ask = none) :
    Asked attempts pk none ∧ ∃ count, .written pk .head answer400 count ∈
      server.client.log ++ more := by
  have sound := reachable_sound reached
  have later := reachable_sound (reached.step allowed ran)
  have gone : .finalised pk ∈ after.client.log := by simp [grown]
  have kept : .finalised pk ∉ server.client.log := by
    have once := (later.finals pk.conn).2.2.1
    intro earlier
    rw [grown, List.append_assoc, finalisedOf, numbers_append] at once
    refine (List.nodup_append.mp once).2.2 pk.number (mem_finalisedOf.mpr earlier) pk.number ?_ rfl
    exact mem_finalisedOf.mpr (by simp)
  -- Nothing is left for it to do.
  have idle (work : Work) (own : work.pk = pk) :
      pending (queues after.cache) after.client work = 0 := by
    by_contra left
    have there := (later.ready left).there.1
    exact ((later.there _).mp there).2 (own ▸ gone)
  have lawful : Throughout (Lawful fun _ _ => True) (server.client.log ++ more) := by
    have whole := later.1.lawful
    rw [grown] at whole
    exact whole.before
  have unknown : (story pk server.client.log).ask = none := by
    cases before : (story pk server.client.log).ask with
    | none => rfl
    | some pair =>
      obtain ⟨key, use⟩ := pair
      obtain ⟨_, _, known, _⟩ := ask_kept lawful before
      cases unasked.symm.trans known
  have looked (key : Key) (use : KeyUse) (found : Lookup) :
      .asked pk key use found ∉ more := by
    intro member
    obtain ⟨first, last, rfl⟩ := List.append_of_mem member
    rw [← List.append_assoc, List.append_cons] at lawful unasked
    have here : (story pk (server.client.log ++ first ++ [.asked pk key use found])).ask =
        some (key, use) := by
      rw [asked_story]
    obtain ⟨_, _, known, _⟩ := ask_kept lawful here
    cases unasked.symm.trans known
  obtain ⟨unread, active⟩ := finalised_before reached allowed ran child kept gone
  obtain ⟨work, rfl, present⟩ := sound.active_works active kept
  have writable : status work.pk.conn server.client.log = .connected := by
    by_contra failed
    exact status_failed.mp (failed_append (status_failed.mpr failed) more) connected
  rcases pending_cases present with ⟨task, member, rfl⟩ | ⟨aio, member, shows⟩ | ⟨key, callback,
    rfl, waits⟩
  · -- Its fetch has been run.
    rcases exec_tasks ran unread member with left | ⟨index, around, rfl, found⟩
    · exact absurd (idle task.work rfl) (pending_task left _)
    · cases task with
      | read pk => exact absurd (sound.ready (pending_task member _)).proper child
      | fetch pk =>
        obtain ⟨cn, _, _, ⟨there, _⟩, _⟩ := sound.ready (pending_task member _)
        have writes : cn.closesWrite = false := by
          have same := sound.1.tells.conns _ cn there
          simp [Conn.closesWrite, same.trans writable]
        simp only [exec, found] at ran
        rcases (fetch_begins ⟨server.cache, { server.client with
          tasks := server.client.tasks.eraseIdx index }⟩ there writes around).returned ran with
          ⟨key, use, lookup, begins⟩ | ⟨data, issued⟩
        · rw [grown] at begins
          exact absurd (begins_before begins (by simp)) (looked key use lookup)
        · exact absurd (idle (.write400 pk) rfl) (pending_aio issued rfl _)
  · -- Its request has been refused.
    have tells := sound.1.tells.aios aio member
    cases aio with
    | readRequest pk =>
      cases shows
      exact absurd (sound.ready (pending_aio member rfl _)).proper child
    | readBody => cases shows
    | writeHead pk data =>
      cases shows
      obtain ⟨_, _, _, asked, _⟩ := tells
      cases unknown.symm.trans asked
    | writeBody pk data =>
      cases shows
      obtain ⟨_, _, asked, _⟩ := tells
      cases unknown.symm.trans asked
    | write400 pk data =>
      cases shows
      obtain ⟨_, rfl⟩ := tells
      refine ⟨identified.refused pk answer400 member, ?_⟩
      rcases exec_aios ran member with left | ⟨index, completion, around, rfl, found⟩
      · exact absurd (idle (.write400 pk) rfl) (pending_aio left rfl _)
      · cases completion with
        | read => simp [program, enabled, found, Aio.completes] at allowed
        | failed =>
          -- The server stops on an assertion.
          have ready : Ready server.client (.write400 pk) := sound.ready present
          obtain ⟨cn, _, hpkg, ⟨there, _⟩, _, held, _, _, state, part, keyless⟩ := ready
          simp only [Work.pk] at there held
          simp only [exec, found, handle, svrHttpFinalAio, Http.package, Http.connection, held,
            there, state, part, keyless, bind, Except.bind] at ran
          split at ran <;> cases ran
        | wrote count =>
          have begins : server.client.log ++ [.written pk .head answer400 count] <+:
              after.client.log := headWrite_told ran (by simp [Step.headWrite, found])
          rw [grown] at begins
          exact ⟨count, List.mem_append_right _ (begins_before begins (by simp))⟩
  · -- Who waits has looked something up.
    have tells := sound.1.tells.waits key callback waits
    cases callback with
    | headerWio pk =>
      obtain ⟨_, _, asked⟩ := tells
      cases unknown.symm.trans asked
    | bodyWio pk =>
      obtain ⟨_, asked⟩ := tells
      cases unknown.symm.trans asked

/-- What a request asks for does not change. -/
private theorem EndsAnswered.later {event : Event} (ends : EndsAnswered attempts log event)
    (more : List (Server × Step)) : EndsAnswered (attempts ++ more) log event := by
  cases event with
  | finalised pk =>
    intro child connected unasked
    obtain ⟨asked, written⟩ := ends child connected unasked
    exact ⟨asked.more more, written⟩
  | accepted | created | activated | rearmed | closed | asked | reserved | loading | put
  | cancelled | delivered | aborted | released | written => trivial

/-- In every run, no child is finalised that could be answered and has not been. -/
theorem run_answered (run : Run program attempts (.ok server)) :
    Throughout (EndsAnswered attempts) server.client.log := by
  generalize ended : Except.ok server = outcome at run
  induction run generalizing server with
  | start =>
    cases ended
    exact throughout_nil
  | @step attempts state call before allowed ih =>
    have ran : exec state call = .ok server := ended.symm
    obtain ⟨more, grown⟩ := (exec_extends ran).log
    have earlier : Throughout (EndsAnswered (attempts ++ [(state, call)])) state.client.log :=
      fun first event rest shape => (ih rfl first event rest shape).later _
    rw [← grown]
    refine throughout_append.mpr ⟨earlier, fun first event rest shape => ?_⟩
    cases event with
    | finalised pk =>
      intro child connected unasked
      have longer : server.client.log = state.client.log ++ first ++ .finalised pk :: rest := by
        rw [← grown, shape, List.append_assoc]
      obtain ⟨asked, written⟩ := finalised_answered (run_identified before) ⟨attempts, before⟩
        allowed ran longer child connected unasked
      exact ⟨asked.more _, written⟩
    | accepted | created | activated | rearmed | closed | asked | reserved | loading | put
    | cancelled | delivered | aborted | released | written => trivial

end EventDisp.Server
