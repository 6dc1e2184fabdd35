import EventDisp.HttpRequests

/-! What every step of the server keeps, and so every run. -/
namespace EventDisp.Server

open Outcome

variable {http after : Http} {pk : PackagePtr} {key : Key} {server : Server} {conn : Nat}
  {log : List Event}
variable {cache : Cache Key Text Callback} {cn : Conn} {done : Nat} {hpkg : HPKG}
  {good : KeyUse → Text → Prop}
variable {around : Surroundings} {uri : Text} {waiting : Key → List Callback}

/-- A connection that nothing has happened on has not failed. -/
private theorem status_untouched (untouched : ∀ event ∈ log, event.conn ≠ conn) :
    status conn log = .connected := by
  induction log using List.reverseRecOn with
  | nil => rfl
  | append_singleton log event ih =>
    rw [status_other (untouched event (by simp))]
    exact ih fun inner member => untouched inner (List.mem_append_left _ member)

/-- What is new when a connection has been accepted. -/
private def opening (http : Http) : Http :=
  (({ http with nextConn := http.nextConn + 1 }.setConn http.nextConn
    { cst := .connected, packages := 1 }).setPackage
    ⟨http.nextConn, 0⟩ {}).emit (.accepted http.nextConn)

private theorem opening_log : (opening http).log = http.log ++ [.accepted http.nextConn] := rfl

private theorem opening_conns (other : Nat) : (opening http).conns other =
    if other = http.nextConn then some { cst := .connected, packages := 1 } else http.conns other :=
  setConn_conns other

private theorem opening_packages (other : PackagePtr) : (opening http).packages other =
    if other = ⟨http.nextConn, 0⟩ then some {} else http.packages other :=
  setPackage_packages other

/-- The line of a new connection is its root. -/
private theorem Shut.opens (shut : Shut http http.nextConn)
    (new : .accepted http.nextConn ∉ http.log) :
    Line (opening http) http.nextConn { cst := .connected, packages := 1 } 0 0 := by
  obtain ⟨made, created, activated, ⟨accepted, _⟩ | ⟨_, opened, rfl, finalised⟩⟩ := shut.history
  · exact absurd accepted new
  have gone (number : Nat) (positive : 0 < number) :
    (opening http).packages ⟨http.nextConn, number⟩ = none := by
    rw [opening_packages, if_neg (by simp only [PackagePtr.mk.injEq, true_and]; omega)]
    exact shut.packages number
  refine ⟨Nat.zero_lt_one, ?_, ?_, ?_, ?_, ?_, ?_, ⟨{}, ?_, rfl⟩, ?_, ?_,
    fun number positive _ => gone number positive, fun number beyond => gone number beyond⟩
  · simp [opening_log]
  · simpa [opening_log] using opened
  · simpa [opening_log, Event.created?] using created
  · simpa [opening_log, Event.activated?] using activated
  · simpa [opening_log, Event.finalised?] using finalised
  · exact shut.rearms.append fun event member earlier same => by simp_all
  · rw [opening_packages, if_pos rfl]
  · intro number later within
    dsimp only at within
    omega
  · intro number hpkg later there
    rw [gone number later] at there
    cases there

/-- A connection is accepted: its root is at hand. -/
private theorem Lives.opens (lives : Lives good none none waiting cache http) :
    Hand good none waiting cache (opening http)
    ⟨http.nextConn, 0⟩ { cst := .connected, packages := 1 } 0 {} ∧
      Told (opening http).log ⟨http.nextConn, 0⟩ {} := by
  obtain ⟨keeps, loads, tells, lawful⟩ := lives
  have new : .accepted http.nextConn ∉ http.log :=
    fun member => Nat.lt_irrefl _ (tells.ahead _ member)
  have untouched : ∀ event ∈ http.log, event.conn ≠ http.nextConn := by
    intro event member same
    have accepted := tells.known event member
    rw [same] at accepted
    exact new accepted
  obtain ⟨only, shut⟩ : Only waiting http http.nextConn none ∧ Shut http http.nextConn := by
    rcases keeps.rests http.nextConn nofun with ⟨work, _, own, cn, done, hpkg, ⟨_, line, _⟩,
      _⟩ | shut
    · have accepted := line.accepted
      rw [own] at accepted
      exact absurd accepted new
    · exact shut
  have line := shut.opens new
  have apart : ∀ event ∈ [Event.accepted http.nextConn], event.apart = true := by simp [Event.apart]
  obtain ⟨stories, slots, statuses⟩ := apart_tells apart http.log
  have still (other : Nat) (different : other ≠ http.nextConn) :
    Same other http (opening http) := by
    refine ⟨?_, ?_, [.accepted http.nextConn], rfl, by simp [Silent, Event.conn, different.symm]⟩
    · rw [opening_conns, if_neg different]
    · intro number
      rw [opening_packages, if_neg (by simp [different])]
  have unmade : .created ⟨http.nextConn, 0⟩ ∉ http.log := fun made => untouched _ made rfl
  have told : Told (opening http).log ⟨http.nextConn, 0⟩ {} := by
    refine .blank ⟨rfl, rfl, rfl⟩ ?_
    rw [opening_log, stories]
    exact tells.unmade _ unmade
  refine ⟨⟨⟨⟨?_, ?_⟩, loads.same (fun key _ => slots key) rfl, ?_, ?_⟩, ⟨?_, line, ?_, rfl⟩,
    .inl rfl, ?_⟩, told⟩
  · rintro _ ⟨⟩
    exact only
  · intro other apart
    have different : other ≠ http.nextConn := fun same => apart _ rfl same.symm
    exact (keeps.rests other (by simp)).same (still other different) fun _ _ => rfl
  · refine ⟨?_, ?_, ?_, ?_,
      ?_, ?_, ?_⟩
    · intro other hpkg away there
      rw [opening_packages, if_neg fun same => away (congrArg some same.symm)] at there
      exact (tells.packages other hpkg (Option.some_ne_none other).symm there).same (stories other)
    · intro aio member
      exact (tells.aios aio member).grow (stories _)
        (fun key data => by rw [opening_log, slots]; exact id)
        fun key => by rw [opening_log, slots]; exact id
    · intro key callback member
      exact (tells.waits key callback member).congr (stories _)
    · intro other fresh
      rw [opening_log, stories]
      exact tells.unmade other fun made => fresh (List.mem_append_left _ made)
    · intro other cn found
      rw [opening_log, statuses]
      rw [opening_conns] at found
      split at found
      · rename_i same
        cases found
        rw [same, status_untouched untouched]
      · exact tells.conns other cn found
    · intro event member
      rw [opening_log] at member ⊢
      rcases List.mem_append.mp member with old | here
      · exact List.mem_append_left _ (tells.known event old)
      · rw [List.mem_singleton.mp here]
        exact List.mem_append_right _ (List.mem_singleton_self _)
    · intro other member
      show other < http.nextConn + 1
      rw [opening_log] at member
      rcases List.mem_append.mp member with old | here
      · exact Nat.lt_succ_of_lt (tells.ahead other old)
      · cases List.mem_singleton.mp here
        exact Nat.lt_succ_self _
  · exact History.throughout_concat.mpr ⟨lawful, trivial⟩
  · rw [opening_conns, if_pos rfl]
  · intro root there
    rw [opening_packages, if_pos rfl] at there
    cases there
    rfl
  · rw [opening_packages, if_pos rfl]

/-- What is put in the step is good. -/
def Provides (good : KeyUse → Text → Prop) (server : Server) : Step → Prop
  | .run index around => ∀ pk hpkg uri vern, server.client.tasks[index]? = some (.fetch pk) →
      server.client.packages pk = some hpkg → hpkg.uri = some uri → good (.head uri vern)
      (headOf vern around)
  | .complete index (.read bytes _) _ => ∀ pk path offset,
      server.client.aios[index]? = some (.readBody pk (some path) offset) →
      good (.body path offset) bytes
  | .accept _ | .complete _ (.wrote _) _ | .complete _ .failed _ => True

/-- The answer to a bad request fails to be written. -/
def Aio.Fails400 : Aio → Completion → Prop
  | .write400 .., .failed => True
  | .write400 .., .read .. | .write400 .., .wrote _ | .readRequest _, _ | .writeHead .., _
  | .readBody .., _ | .writeBody .., _ => False

/-- The answer to a bad request fails to be written in the step. -/
def Fails400 (server : Server) : Step → Prop
  | .complete index completion _ =>
    ∃ aio, server.client.aios[index]? = some aio ∧ aio.Fails400 completion
  | .accept _ | .run .. => False

/-- The ways a step of the server can stop the run. -/
def MayStop (fails : Prop) (fault : Fault) : Prop :=
  fault = .nullAccess ∨ fault = .assertion .finalHeadKey ∧ fails

/-- The dispatcher has one task less. -/
theorem without_task (http : Http) (index : Nat) :
    Still http { http with tasks := http.tasks.eraseIdx index } := ⟨rfl, rfl, rfl, rfl⟩

/-- One call has completed. -/
theorem without_aio (http : Http) (index : Nat) :
    Still http { http with aios := http.aios.eraseIdx index } := ⟨rfl, rfl, rfl, rfl⟩

private theorem run_sound {index : Nat} (sound : Sound good server)
    (provides : Provides good server (.run index around)) :
    Ends (· = .nullAccess) (exec server (.run index around)) (Sound good) := by
  simp only [exec]
  cases found : server.client.tasks[index]? with
  | none => exact sound
  | some task =>
    obtain ⟨cn, done, hpkg, hand, told, fits, stocked⟩ :=
      sound.takeTask found (without_task server.client index) rfl rfl
    cases task with
    | read pk => exact read_sound hand stocked told fits around
    | fetch pk =>
      apply fetch_sound hand stocked told fits.1 fits.2 around
      intro uri vern known
      exact provides pk hpkg uri vern found hand.there known

variable {index : Nat} {completion : Completion} {aio : Aio}

/-- A read or write completes for which its connection waited. -/
private theorem complete_aio_sound (sound : Sound good server)
    (found : server.client.aios[index]? = some aio) (waited : ∃ work, aio.work = some work)
    (completes : aio.completes completion = true) :
    Ends (MayStop (aio.Fails400 completion))
    (handle around { server with client.aios := server.client.aios.eraseIdx index } aio completion)
      (Sound good) := by
  obtain ⟨work, shows⟩ := waited
  obtain ⟨cn, done, hpkg, hand, told, fits, stocked, telling, spare⟩ :=
    sound.takeAio found shows (without_aio server.client index) rfl rfl
  have tolerate {outcome : Except Fault Server}
    (ends : Ends (· = .nullAccess) outcome (Sound good)) :
      Ends (MayStop (aio.Fails400 completion)) outcome (Sound good) := ends.weaken fun _ => .inl
  cases aio with
  | readBody => cases shows
  | readRequest pk =>
    cases shows
    cases completion with
    | read bytes stale => exact tolerate (parseAio_sound hand stocked told fits.1 bytes around)
    | wrote => cases completes
    | failed =>
      obtain ⟨after, ran, sound⟩ := finalAio_root hand stocked told fits.1 (.inl fits.2) around
      simp only [handle, Aio.pk] at ran ⊢
      rw [ran]
      exact Ends.ok sound
  | writeHead pk data =>
    cases shows
    cases completion with
    | read => cases completes
    | wrote nbytes =>
      exact tolerate (headerToBody_sound hand stocked told fits telling
        (by simpa [Aio.completes] using completes) around)
    | failed =>
      obtain ⟨key, uri, vern, asked, _, refers⟩ := id telling
      obtain ⟨child, connected, state, part, _⟩ := fits
      obtain ⟨after, ran, sound⟩ := finalAio_write hand stocked told child connected state
        (.inl ⟨part, told.head key uri vern asked⟩) (spare key (by simp [Aio.key, asked])) refers
        around
      simp only [handle, Aio.pk] at ran ⊢
      rw [ran]
      exact Ends.ok sound
  | write400 pk data =>
    cases shows
    cases completion with
    | read => cases completes
    | wrote nbytes =>
      exact tolerate (bodyRio400_sound hand stocked told fits telling
        (by simpa [Aio.completes] using completes) around)
    | failed =>
      obtain ⟨child, connected, state, part, unset⟩ := fits
      have ran := finalAio_400 hand connected state part unset around
      simp only [handle, Aio.pk] at ran ⊢
      rw [ran]
      exact Ends.error (.inr ⟨rfl, trivial⟩)
  | writeBody pk data =>
    cases shows
    cases completion with
    | read => cases completes
    | wrote nbytes =>
      exact tolerate (bodyRio_sound hand stocked told fits telling
        (by simpa [Aio.completes] using completes) spare around)
    | failed =>
      obtain ⟨key, uri, asked, _, refers⟩ := id telling
      obtain ⟨child, connected, state, part, _⟩ := fits
      obtain ⟨after, ran, sound⟩ := finalAio_write hand stocked told child connected state
        (.inr ⟨part, told.body key uri _ asked⟩) (spare key (by simp [Aio.key, asked])) refers
        around
      simp only [handle, Aio.pk] at ran ⊢
      rw [ran]
      exact Ends.ok sound

/-- The reading of a part of a body completes. -/
private theorem complete_read_sound {hfd : Option Text} {offset : Nat} (sound : Sound good server)
    (found : server.client.aios[index]? = some (.readBody pk hfd offset))
    (completes : (Aio.readBody pk hfd offset).completes completion = true)
    (provides : Provides good server (.complete index completion around)) :
    Ends (· = .nullAccess) (handle around
    { server with client.aios := server.client.aios.eraseIdx index }
      (.readBody pk hfd offset) completion) (Sound good) := by
  obtain ⟨key, entry, rest, cn, done, hpkg, loader, telling⟩ :=
    sound.takeRead found (without_aio server.client index) rfl rfl
  cases completion with
  | wrote => cases completes
  | failed => exact finalAio_read loader around
  | read bytes stale =>
    simp only [Aio.completes, Bool.and_eq_true] at completes
    obtain ⟨path, rfl⟩ := Option.isSome_iff_exists.mp completes.1
    refine bodyPio_sound loader (bytes ++ stale) bytes.length (fun uri known => ?_) around
    obtain ⟨uri', asked⟩ := loader.waits
    obtain ⟨key', name, asked', _, opened⟩ := telling
    rw [asked] at asked'
    cases asked'
    have same := loader.told.asked key _ asked
    rw [known] at same
    cases same
    rw [List.take_left', ← opened path rfl]
    · exact provides pk path _ found
    · rfl

/-- Every step keeps the invariant, or stops the run by an access through a null
pointer, or because the answer to a bad request has failed to be written. -/
theorem exec_sound {step : Step} (sound : Sound good server) (allowed : enabled server step = true)
    (provides : Provides good server step) : Ends (MayStop (Fails400 server step))
    (exec server step) (Sound good) := by
  cases step with
  | accept around =>
    obtain ⟨lives, stocked⟩ := sound
    obtain ⟨hand, told⟩ := lives.opens
    have kept : Stocked server.cache (opening server.client) :=
      stocked.same (List.filterMap_congr fun aio _ => Aio.key_congr
      ((apart_tells (by simp [Event.apart]) _).1 _))
    exact (read_sound hand kept told rfl around).weaken fun _ => .inl
  | run index around => exact (run_sound sound provides).weaken fun _ => .inl
  | complete index completion around =>
    simp only [enabled, Bool.and_eq_true] at allowed
    simp only [exec]
    cases found : server.client.aios[index]? with
    | none => exact sound
    | some aio =>
      have completes : aio.completes completion = true := by
        rw [found] at allowed
        exact allowed.2
      cases waited : aio.work with
      | some work =>
        apply (complete_aio_sound sound found ⟨work, waited⟩ completes).weaken
        intro fault stops
        apply stops.imp_right
        intro stops
        obtain ⟨same, fails⟩ := stops
        exact ⟨same, aio, found, fails⟩
      | none =>
        cases aio with
        | readBody pk hfd offset =>
          exact (complete_read_sound sound found completes provides).weaken fun _ => .inl
        | readRequest | writeHead | write400 | writeBody => cases waited

private theorem find_start (key : Key) : program.start.cache.find key = none := rfl

/-- Nothing has been accepted yet. -/
theorem Sound.start (good : KeyUse → Text → Prop) : Sound good program.start := by
  have empty : program.start.client.log = [] := rfl
  have waits (key : Key) : queues program.start.cache key = [] := rfl
  have reads : readers program.start.client = [] := rfl
  have slots (key : Key) : slot key program.start.client.log = {} := rfl
  have idle (work : Work) : pending (queues program.start.cache) program.start.client work = 0 := by
    cases work <;> rfl
  have shut (conn : Nat) : Shut program.start.client conn :=
    ⟨fun _ => rfl, ⟨0, rfl, rfl,
      .inr ⟨by simp [empty], by simp [empty], rfl, rfl⟩⟩, by rw [empty]; exact History.throughout_nil⟩
  refine ⟨⟨⟨nofun, fun conn _ => .inr ⟨fun work _ => idle work, shut conn⟩⟩, ⟨?_, ?_, ?_⟩, ?_, ?_⟩,
    rfl, rfl, rfl, ?_, rfl, ?_⟩
  · intro key _
    refine ⟨?_, rfl, ?_, ?_, ?_, fun _ => rfl⟩
    · rw [find_start, slots]
      simp
    · rw [waits, slots]
      rfl
    · rw [slots]
      nofun
    · rw [find_start]
      nofun
  · rw [reads]
    nofun
  · rw [reads]
    exact List.nodup_nil
  · refine ⟨fun _ _ _ => nofun, ?_, ?_, fun _ _ => ⟨rfl, rfl⟩, fun _ _ => nofun, ?_, ?_⟩
    · intro aio member
      cases member
    · intro key callback member
      rw [waits] at member
      cases member
    · rw [empty]
      nofun
    · rw [empty]
      nofun
  · rw [empty]
    exact History.throughout_nil
  · intro key entry
    rw [find_start]
    nofun
  · intro key entry
    rw [find_start]
    nofun

open Execution

/-- The invariant holds at the end of every run in which what is put is good. -/
theorem run_keeps {attempts : List (Server × Step)} (run : Run program attempts (.ok server))
    (provides : ∀ attempt ∈ attempts, Provides good attempt.1 attempt.2) : Sound good server :=
  run.guarded (Sound good) (Provides good) (.start good)
    (fun _ _ _ sound allowed provides ran => (exec_sound sound allowed provides).returned ran)
    provides

/-- Nothing is asked of what is put. -/
theorem provides_anything (server : Server) (step : Step) :
    Provides (fun _ _ => True) server step := by
  cases step with
  | accept => trivial
  | run => exact fun _ _ _ _ _ _ _ => trivial
  | complete index completion =>
    cases completion with
    | read => exact fun _ _ _ _ => trivial
    | wrote | failed => trivial

theorem reachable_sound (reached : Reachable program server) : Sound (fun _ _ => True) server := by
  obtain ⟨attempts, run⟩ := reached
  exact run_keeps run fun attempt _ => provides_anything attempt.1 attempt.2

/-- The server never has its cache use what was freed: no slot is evicted, and no callback
is called that has been deleted. -/
theorem reachable_unstrayed (reached : Reachable program server) : server.cache.strays = 0 :=
  (reachable_sound reached).2.strays

/-- The ways a step of a run can stop it. -/
theorem reachable_stops (reached : Reachable program server) {step : Step}
    (allowed : program.allowed server step) {fault : Fault}
    (stopped : exec server step = .error fault) :
    MayStop (Fails400 server step) fault :=
  (exec_sound (reachable_sound reached) allowed (provides_anything server step)).stopped stopped

/-- Nothing is there to be opened, and everything can be closed. -/
def bare : Surroundings := ⟨none, [], true⟩

/-- A connection is accepted, something is read from it, and the first request in it is taken up. -/
def asking (text : Text) (around : Surroundings) : List Step :=
  [.accept around, .complete 0 (.read text []) around, .run 0 around]

/-- A file of three characters. -/
def fileOf3 : Surroundings := ⟨some ⟨3, []⟩, [], true⟩

/-- Two connections ask for it, the second one with another request behind. The first one's head
is written, and its body is being read. -/
def sharing : List Step :=
  [.accept fileOf3, .accept fileOf3, .complete 0 (.read "GET /a HTTP/1.1\r\n\r\n".toList []) fileOf3,
    .run 0 fileOf3,
    .complete 0 (.read "GET /a HTTP/1.1\r\n\r\nGET /b HTTP/1.1\r\n\r\n".toList []) fileOf3,
    .run 0 fileOf3, .complete 0 (.wrote 107) fileOf3]

end EventDisp.Server
