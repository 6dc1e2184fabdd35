import EventDisp.HttpReservations
import EventDisp.HttpWrites

/-! Bodies that end too early. Who waits for a part of a body that somebody else fails to
read is handed `NULL`, and so is whoever asks for it later: the server takes the body for
written, and goes on with the next answer. -/
namespace EventDisp.Server

open Execution CString History

variable {server after : Server} {step : Step} {pk other : PackagePtr} {key : Key} {use : KeyUse}
  {data uri : Text}
variable {good : KeyUse → Text → Prop} {files : Text → Text} {log more : List Event}
  {work also : Work} {aio : Aio}
variable {callback : Callback} {offset nbytes index : Nat} {around : Surroundings}
  {completion : Completion}

/-! What a step does, and for whom. -/

/-- One work is pending for a connection. -/
private theorem Sound.single (sound : Sound good server)
    (one : pending (queues server.cache) server.client work ≠ 0)
    (two : pending (queues server.cache) server.client also ≠ 0)
    (same : work.pk.conn = also.pk.conn) : work = also := by
  rcases sound.1.keeps.rests also.pk.conn nofun with ⟨held, only, _⟩ | ⟨only, _⟩
  · exact Option.some.inj ((only.unique same one).symm.trans (only.unique rfl two))
  · cases only.unique rfl two

/-- Who looks something up in a step has had other work than waiting. -/
private theorem Step.Seeks.pending (seeks : step.Seeks server pk use) : ∃ work : Work,
    work.waits = false ∧ work.pk = pk ∧
    Server.pending (queues server.cache) server.client work ≠ 0 := by
  cases step with
  | accept => cases seeks
  | run index around =>
    obtain ⟨found, _⟩ := seeks
    exact ⟨.fetch pk, rfl, rfl, pending_task (List.mem_of_getElem? found) _⟩
  | complete index completion around =>
    obtain ⟨aio, found, nbytes, hpkg, uri, offset, _, own, _, _, next, _⟩ := seeks
    cases aio with
    | readRequest | readBody => cases next
    | writeHead other data =>
      exact ⟨.writeHead other data, rfl, own, pending_aio (List.mem_of_getElem? found) rfl _⟩
    | write400 other data =>
      exact ⟨.write400 other, rfl, own, pending_aio (List.mem_of_getElem? found) rfl _⟩
    | writeBody other data =>
      exact ⟨.writeBody other, rfl, own, pending_aio (List.mem_of_getElem? found) rfl _⟩

/-- Who waits looks nothing up. -/
private theorem Sound.waiterIdle (sound : Sound good server)
    (waits : callback ∈ queues server.cache key) (use : KeyUse) :
    ¬ step.Seeks server callback.pk use := by
  intro seeks
  obtain ⟨work, active, own, pending⟩ := seeks.pending
  have same := sound.single pending (pending_wait waits _) (congrArg PackagePtr.conn own)
  rw [same] at active
  cases active

/-- A call goes on that does not complete in the step. -/
theorem exec_aios (ran : exec server step = .ok after) (member : aio ∈ server.client.aios) :
    aio ∈ after.client.aios ∨ ∃ index completion around, step = .complete index completion around ∧
      server.client.aios[index]? = some aio := by
  have further := (exec_acts ran).aios
  cases step with
  | accept => exact .inl (further.subset member)
  | run index around =>
    refine .inl (further.subset ?_)
    unfold begun
    dsimp only
    split <;> exact member
  | complete index completion around =>
    by_cases here : server.client.aios[index]? = some aio
    · exact .inr ⟨index, completion, around, rfl, here⟩
    · refine .inl (further.subset ?_)
      obtain ⟨place, found⟩ := List.mem_iff_getElem?.mp member
      have stays : aio ∈ server.client.aios.eraseIdx index :=
        List.mem_eraseIdx_iff_getElem?.mpr ⟨place, fun same => here (same ▸ found), found⟩
      unfold begun
      dsimp only
      split
      · exact member
      · unfold told
        split <;> exact stays

/-- Whoever waits goes on waiting while the loader of the key reads. -/
private theorem waits_on {loader : PackagePtr} (sound : Sound good server)
    (later : Sound good after) (ran : exec server step = .ok after)
    (loads : (slot key server.client.log).loader = some loader)
    (reads : loader ∈ readers after.client) (waits : pk ∈ (slot key server.client.log).waiters) :
    pk ∈ (slot key after.client.log).waiters := by
  obtain ⟨front, more, grown, told, by'⟩ := exec_adds ran
  rw [List.append_assoc] at grown
  have queued : .bodyWio loader ∈ queues server.cache key :=
    List.mem_of_mem_head? ((sound.1.loads.agrees key nofun).loads loader loads).2
  -- The loader does nothing but read.
  have idle (event : Event) (member : event ∈ front ++ more) :
    (∀ key, event ≠ .reserved loader key) ∧
      ∀ key use found, event ≠ .asked loader key use found := by
    rcases List.mem_append.mp member with here | acted
    · rcases told with rfl | ⟨_, _, _, _, _, _, _, rfl, _⟩
      · cases here
      · cases List.mem_singleton.mp here
        exact ⟨nofun, nofun⟩
    · constructor
      · rintro name rfl
        obtain ⟨use, seeks⟩ := by' _ acted
        exact sound.waiterIdle queued use seeks
      · rintro name use found rfl
        exact sound.waiterIdle queued use (by' _ acted)
  obtain ⟨name, _, loads'⟩ := later.1.loads.reads loader reads
  have asked : ∃ uri, (story loader after.client.log).ask = some (name, .body uri _) :=
    later.1.tells.waits name _ (List.mem_of_mem_head? ((later.1.loads.agrees name nofun).loads
      loader loads').2)
  obtain ⟨path, before⟩ : ∃ uri, (story loader server.client.log).ask = some (key, .body uri _) :=
    sound.1.tells.waits key _ queued
  obtain ⟨uri, asked⟩ := asked
  rw [grown] at asked
  rcases ask_since asked with same | ⟨found, member⟩
  · obtain ⟨rfl, _⟩ := Prod.mk.inj (Option.some.inj (before.symm.trans same))
    rw [grown] at loads'
    have lawful := later.1.lawful
    rw [grown] at lawful ⊢
    have unresolved := ((loader_iff lawful).mp loads').unended fun event member =>
      (idle event member).1 key
    exact (waiters_iff lawful).mpr (((waiters_iff sound.1.lawful).mp waits).append unresolved)
  · exact absurd rfl ((idle _ member).2 name _ found)

/-- A package stays that looks up the next part of its body, unless it finds a slot with nothing in it. -/
private theorem seeker_stays {hpkg : HPKG} (sound : Sound good server)
    (found : server.client.aios[index]? = some aio)
    (there : server.client.packages aio.pk = some hpkg) (known : hpkg.uri = some uri)
    (next : hpkg.next nbytes aio = some offset)
    (filled : ∀ entry, server.cache.find (bodyKey uri offset) = some entry →
      entry.isReserved = true ∨ entry.data.isSome = true)
    (ran : exec server (.complete index (.wrote nbytes) around) = .ok after) :
    (after.client.packages aio.pk).isSome = true := by
  simp only [exec, found] at ran
  cases work : aio.work with
  | none => cases aio <;> first | cases next | cases work
  | some work' =>
    obtain ⟨cn, done, held, hand, told, fits, stocked, writes, spare⟩ :=
      sound.takeAio found work (without_aio server.client index) rfl rfl
    cases hand.there.symm.trans there
    have full : ∀ entry, server.cache.find (bodyKey uri offset) = some entry →
        entry.freeListRef = none ∧ (entry.isReserved = true ∨ entry.data.isSome = true) :=
      fun entry held => ⟨(stocked.entries _ entry held).1, filled entry held⟩
    have written (event : Event) :
        (Http.emit { server.client with aios := server.client.aios.eraseIdx index } event).packages
        aio.pk = some hpkg := hand.there
    cases aio with
    | readRequest | readBody => cases next
    | write400 pk data =>
      cases work
      simp [HPKG.next, fits.2.2.2.1] at next
    | writeHead pk data =>
      cases work
      simp only [HPKG.next, Option.ite_none_right_eq_some, Option.some.injEq] at next
      obtain ⟨ok, rfl⟩ := next
      have keeps :=
        headerToBody_keeps (written (.written pk .head data nbytes)) ok hand.runs.1 fits.2.1 known
          full around
      exact keeps.returned ran
    | writeBody pk data =>
      cases work
      simp only [HPKG.next, Option.ite_none_right_eq_some, Option.some.injEq] at next
      obtain ⟨⟨part, some'⟩, rfl⟩ := next
      obtain ⟨key, uri', asked, _⟩ := writes
      obtain ⟨entry, held, _, enough⟩ := spare key (by simp [Aio.key, asked])
      have room : server.cache.currentSize ≤ server.cache.sizeQuota := by simp [stocked.currentSize]
      have keeps :=
        bodyRio_keeps (written (.written pk .body data nbytes)) part (told.body key uri' _ asked)
          held (by omega) room some' hand.runs.1 fits.2.1
        known full around
      exact keeps.returned ran

/-- What is read of a body is in the file, from the offset on, and some unless there is none. -/
def Aio.Brings (files : Text → Text) (bytes : Text) : Aio → Prop
  | .readBody _ (some path) offset => Chunk (files (str path)) offset bytes
  | .readBody _ none _ | .readRequest _ | .writeHead .. | .write400 .. | .writeBody .. => True

/-- The files do not change: what is opened has the length of the file, and reads bring what is
in it. -/
def Unchanged (files : Text → Text) (server : Server) : Step → Prop
  | .run index around =>
    ∀ task ∈ server.client.tasks[index]?, ∀ hpkg ∈ server.client.packages task.work.pk,
      ∀ uri ∈ hpkg.uri, ∀ stat ∈ around.file, stat.size = (files (str uri)).length
  | .complete index (.read bytes _) _ => ∀ aio ∈ server.client.aios[index]?, aio.Brings files bytes
  | .accept _ | .complete _ (.wrote _) _ | .complete _ .failed _ => True

/-- A write of something of a body writes at least one character. -/
def Aio.Proceeds (nbytes : Nat) : Aio → Prop
  | .writeBody _ data => data ≠ [] → 0 < nbytes
  | .readRequest _ | .writeHead .. | .write400 .. | .readBody .. => True

/-- From where on a part of a body is being read. -/
def Aio.place : Aio → Option Nat
  | .readBody _ _ offset => some offset
  | .readRequest _ | .writeHead .. | .write400 .. | .writeBody .. => none

/-- A write of something of a body writes at least one character. And nobody is handed `NULL` before
the end of a file: the next part that is looked up is not in a slot left behind by a failed read,
and who fails to read a part is the only one to wait for it. -/
def Undisturbed (files : Text → Text) (server : Server) : Step → Prop
  | .complete index (.wrote nbytes) _ => ∀ aio ∈ server.client.aios[index]?, aio.Proceeds nbytes ∧
      ∀ hpkg ∈ server.client.packages aio.pk, ∀ uri ∈ hpkg.uri, ∀ offset ∈ hpkg.next nbytes aio,
        offset < (files (str uri)).length → ∀ entry ∈ server.cache.find (bodyKey uri offset),
          entry.isReserved = true ∨ entry.data.isSome = true
  | .complete index .failed _ => ∀ aio ∈ server.client.aios[index]?,
      ∀ hpkg ∈ server.client.packages aio.pk, ∀ uri ∈ hpkg.uri, ∀ offset ∈ aio.place,
        offset < (files (str uri)).length → ∀ entry ∈ server.cache.find (bodyKey uri offset),
          ∀ callback ∈ entry.queue, callback.pk = aio.pk
  | .accept _ | .run .. | .complete _ (.read ..) _ => True

instance (files : Text → Text) (bytes : Text) : DecidablePred (Aio.Brings files bytes)
  | .readBody _ (some _) _ => inferInstanceAs (Decidable (Chunk ..))
  | .readBody _ none _ | .readRequest _ | .writeHead .. | .write400 .. | .writeBody .. =>
    inferInstanceAs (Decidable True)

instance (files : Text → Text) (server : Server) : DecidablePred (Unchanged files server)
  | .run .. => inferInstanceAs (Decidable (∀ _ ∈ _, _))
  | .complete _ (.read ..) _ => inferInstanceAs (Decidable (∀ _ ∈ _, _))
  | .accept _ | .complete _ (.wrote _) _ | .complete _ .failed _ => inferInstanceAs (Decidable True)

instance (nbytes : Nat) : DecidablePred (Aio.Proceeds nbytes)
  | .writeBody .. => inferInstanceAs (Decidable (_ → _))
  | .readRequest _ | .writeHead .. | .write400 .. | .readBody .. => inferInstanceAs (Decidable True)

instance (files : Text → Text) (server : Server) : DecidablePred (Undisturbed files server)
  | .complete _ (.wrote _) _ => inferInstanceAs (Decidable (∀ _ ∈ _, _))
  | .complete _ .failed _ => inferInstanceAs (Decidable (∀ _ ∈ _, _))
  | .accept _ | .run .. | .complete _ (.read ..) _ => inferInstanceAs (Decidable True)

/-- A child that has looked up its body writes it, or waits for it. -/
private theorem Sound.answering (sound : Sound good server) (child : pk.number ≠ 0)
    (asked : (story pk server.client.log).ask = some (key, .body uri offset))
    (kept : .finalised pk ∉ server.client.log) :
    (∃ data, .writeBody pk data ∈ server.client.aios) ∨ .bodyWio pk ∈ queues server.cache key := by
  have made : .created pk ∈ server.client.log := by
    by_contra unmade
    rw [(sound.1.tells.unmade pk unmade).1] at asked
    cases asked
  obtain ⟨hpkg, there⟩ := Option.isSome_iff_exists.mp ((sound.there pk).mpr ⟨.inr made, kept⟩)
  have told := sound.1.tells.packages pk hpkg nofun there
  have used : ¬ hpkg.Fresh := by
    intro fresh
    rw [told.unasked fresh.headkey] at asked
    cases asked
  rcases sound.1.keeps.rests pk.conn nofun with ⟨work, only, own, cn, done, held,
    ⟨_, line, _, turns⟩, _, there', fits⟩ | ⟨_, shut⟩
  · rw [own] at line
    have remains : done < pk.number := by
      by_contra gone
      rw [line.gone pk.number (by omega) (by omega)] at there
      cases there
    have within : pk.number < cn.packages := by
      by_contra beyond
      rw [line.beyond pk.number (by omega)] at there
      cases there
    have active : pk.number ≤ activeUpTo cn done := by
      by_contra later
      exact used (line.fresh pk.number hpkg (by omega) there)
    rw [turn, if_pos (by omega)] at turns
    unfold activeUpTo at active
    obtain rfl : work.pk = pk := PackagePtr.ext own (by omega)
    have pending : pending (queues server.cache) server.client work ≠ 0 := by simp [only work rfl]
    cases there.symm.trans there'
    rcases pending_cases pending with ⟨task, _, rfl⟩ | ⟨aio, member, shows⟩ | ⟨name, callback, rfl,
      waits⟩
    · cases task with
      | read => exact absurd fits child
      | fetch => exact absurd fits.2 used
    · have writes := sound.1.tells.aios aio member
      cases aio with
      | readBody => cases shows
      | readRequest =>
        cases shows
        exact absurd fits.1 child
      | writeHead pk data =>
        cases shows
        obtain ⟨_, _, _, head, _⟩ := writes
        cases asked.symm.trans head
      | write400 pk data =>
        cases shows
        cases asked.symm.trans writes.1
      | writeBody pk data =>
        cases shows
        exact .inl ⟨data, member⟩
    · have waited := sound.1.tells.waits name callback waits
      cases callback with
      | headerWio pk =>
        obtain ⟨_, _, head⟩ := waited
        cases asked.symm.trans head
      | bodyWio pk =>
        obtain ⟨_, body⟩ := waited
        obtain ⟨rfl, _⟩ := Prod.mk.inj (Option.some.inj (asked.symm.trans body))
        exact .inr waits
  · rw [shut.packages pk.number] at there
    cases there

/-- When nothing of a body was left to be written, all of the file has been. -/
private theorem written_nothing {count : Nat} (lawful : Throughout (Lawful (Wholes files)) log)
    (carries : Carries (Wholes files) log) (written : .written pk .body [] count ∈ log)
    (asked : (story pk log).ask = some (key, .body uri offset)) :
    (files (str uri)).length ≤ (story pk log).streamed.length := by
  obtain ⟨earlier, later, rfl⟩ := List.append_of_mem written
  obtain ⟨_, _, _, name, path, sought, stored⟩ := lawful earlier _ later rfl
  have chunk : Chunk (files (str path)) _ [] :=
    stored_good lawful.before (carries.earlier (List.prefix_append ..)) sought stored
  have all : (files (str path)).length ≤ (story pk earlier).streamed.length :=
    Nat.le_of_not_lt fun more => chunk.some more rfl
  obtain ⟨_, _, known, same, _⟩ := ask_kept lawful sought
  cases asked.symm.trans known
  cases same
  exact all.trans (streamed_grows ..).length_le

/-- Who looks up a part of the body that is not empty is not finalised. -/
private theorem seeker_kept (sound : Sound good server)
    (undisturbed : Undisturbed files server step) (ran : exec server step = .ok after)
    (seeks : step.Seeks server pk (.body uri offset)) (short : offset < (files (str uri)).length) :
    (after.client.packages pk).isSome = true := by
  cases step with
  | accept => cases seeks
  | run =>
    obtain ⟨_, _, _, head⟩ := seeks
    cases head
  | complete index completion around =>
    obtain ⟨aio, found, nbytes, hpkg, path, place, rfl, rfl, there, known, next, same⟩ := seeks
    cases same
    exact seeker_stays sound found there known next
      ((undisturbed aio found).2 hpkg there uri known offset next short) ran

/-- Who waits for a part of the body that is not empty is not finalised, as long as something
can be written. -/
private theorem waiter_kept (sound : Sound (Wholes files) server)
    (later : Sound (Wholes files) after) (undisturbed : Undisturbed files server step)
    (allowed : program.allowed server step) (ran : exec server step = .ok after)
    (alike : ∀ use also, Looked server.client.log use → Looked server.client.log also →
      use.key = also.key → use.Alike files also)
    (asked : (story pk server.client.log).ask = some (key, .body uri offset))
    (waits : .bodyWio pk ∈ queues server.cache key)
    (short : offset < (files (str uri)).length) {rest : List Event}
    (grown : after.client.log = server.client.log ++ more ++ .finalised pk :: rest) :
    (slot key (server.client.log ++ more)).stored ≠ none ∨
    status pk.conn (server.client.log ++ more) ≠ .connected := by
  have agrees := sound.1.loads.agrees key (Option.some_ne_none key).symm
  obtain ⟨entry, held, reserved⟩ : ∃ entry, server.cache.find key = some entry ∧
    entry.isReserved = true := by
    unfold queues at waits
    split at waits
    · rename_i entry held
      split at waits
      · rename_i reserved
        exact ⟨entry, held, reserved⟩
      · cases waits
    · cases waits
  obtain ⟨loader, loads⟩ := Option.isSome_iff_exists.mp (agrees.reserved.mp ⟨entry, held, reserved⟩)
  obtain ⟨reads, first⟩ := agrees.loads loader loads
  obtain ⟨aio, member, reader⟩ := List.mem_filterMap.mp reads
  cases aio with
  | readRequest | writeHead | write400 | writeBody => cases reader
  | readBody other hfd position =>
    cases reader
    rcases exec_aios ran member with goes | ⟨index, completion, around, rfl, found⟩
    · -- The part is still being read, and everyone still waits.
      have waiter : pk ∈ (slot key server.client.log).waiters := by
        rw [← agrees.waiters]
        exact List.mem_map.mpr ⟨_, waits, rfl⟩
      have still := waits_on sound later ran loads (List.mem_filterMap.mpr ⟨_, goes, rfl⟩) waiter
      rw [← (later.1.loads.agrees key (Option.some_ne_none key).symm).waiters] at still
      obtain ⟨callback, queued, rfl⟩ := List.mem_map.mp still
      have there := (later.ready (pending_wait queued _)).there.1
      have kept := ((later.there _).mp there).2
      exact absurd (by simp [grown, Work.pk]) kept
    · -- The reading completes, and everyone is served.
      obtain ⟨name, entry', queue, cn, done, hpkg, loading, _, path, sought, _⟩ :=
        sound.takeRead found (without_aio server.client index) rfl rfl
      obtain ⟨_, again⟩ := loading.waits
      obtain ⟨_, before⟩ : ∃ path,
        (story loader server.client.log).ask = some (key, .body path _) :=
        sound.1.tells.waits key _ (List.mem_of_mem_head? first)
      obtain ⟨rfl, _⟩ := Prod.mk.inj (Option.some.inj (before.symm.trans again))
      obtain ⟨rfl, _⟩ := Prod.mk.inj (Option.some.inj (before.symm.trans sought))
      obtain ⟨_, _, state, part, own⟩ := loading.fits
      simp only [exec, found] at ran
      have begins := readBody_begins ran loading.hand.there state part own
      cases completion with
      | wrote => simp [program, enabled, found, Aio.completes] at allowed
      | read bytes stale =>
        obtain ⟨data, begins⟩ := begins
        rw [grown, List.append_assoc, List.prefix_append_right_inj, prefix_mark (by simp)] at begins
        obtain ⟨served, rfl⟩ := begins
        have lawful := later.1.lawful
        rw [grown] at lawful
        refine .inl ?_
        rw [show server.client.log ++ ([.put loader key data] ++ served) = server.client.log ++
          .put loader key data :: served by
          simp] at lawful ⊢
        rw [put_stored lawful.before]
        intro absent
        cases absent
      | failed =>
        have named : key = bodyKey path position := ask_key sound.1.lawful sought
        by_cases inside : position < (files (str path)).length
        · -- Nobody else waits, and something has failed.
          have queued : .bodyWio pk ∈ entry.queue := by
            rwa [queues_found held, if_pos reserved] at waits
          have alone : pk = loader :=
            undisturbed _ found hpkg loading.hand.there path (loading.told.asked _ _ sought)
              position rfl
            inside entry (named ▸ held) _ queued
          subst alone
          rw [grown, List.append_assoc, List.prefix_append_right_inj,
            prefix_mark (by simp)] at begins
          exact .inr (aborted_failed (List.mem_append_right _ (begins.subset List.mem_cons_self)))
        · -- Nothing was left to be read.
          obtain ⟨_, one⟩ := asked_of_story sought
          obtain ⟨_, two⟩ := asked_of_story asked
          have same : bodyKey path position = bodyKey uri offset :=
            named.symm.trans (ask_key sound.1.lawful asked)
          have like :=
            alike (.body path position) (.body uri offset) ⟨_, _, _, one⟩ ⟨_, _, _, two⟩ same
          have lengths := congrArg List.length like
          rw [List.length_drop, List.length_drop] at lengths
          omega

/-- In a step in which nobody is handed `NULL` too early, no child is finalised before all of its body
has been written. -/
private theorem final_whole (sound : Sound (Wholes files) server)
    (later : Sound (Wholes files) after) (undisturbed : Undisturbed files server step)
    (allowed : program.allowed server step) (ran : exec server step = .ok after)
    (alike : ∀ use also, Looked after.client.log use → Looked after.client.log also →
      use.key = also.key → use.Alike files also)
    (wrote : ∀ pk data, .written pk .body data 0 ∈ after.client.log → data = []) {rest : List Event}
    (grown : after.client.log = server.client.log ++ more ++ .finalised pk :: rest) :
    EndsWhole files (server.client.log ++ more) (.finalised pk) := by
  intro child connected key uri offset asked
  by_contra short
  have lawful := later.1.lawful
  rw [grown] at lawful
  have begins : server.client.log ++ more <+: after.client.log := by
    rw [grown]
    exact List.prefix_append ..
  have inside : offset < (files (str uri)).length :=
    Nat.lt_of_le_of_lt (ask_offset lawful.before asked) (Nat.lt_of_not_le short)
  rcases lawful _ _ rest rfl child connected key _ asked with null | ⟨data, written⟩
  · rcases ask_since asked with before | ⟨found, member⟩
    · -- The body had been looked up before the step.
      have kept : .finalised pk ∉ server.client.log := by
        have once := (later.finals pk.conn).2.2.1
        intro earlier
        rw [grown, List.append_assoc, finalisedOf, numbers_append] at once
        refine (List.nodup_append.mp once).2.2 pk.number (mem_finalisedOf.mpr earlier) pk.number ?_
          rfl
        exact mem_finalisedOf.mpr (by simp)
      rcases sound.answering child before kept with ⟨data, writes⟩ | waits
      · obtain ⟨_, _, sought, stored, _⟩ := sound.1.tells.aios _ writes
        obtain ⟨rfl, _⟩ := Prod.mk.inj (Option.some.inj (before.symm.trans sought))
        rw [stored_stays lawful.before stored] at null
        cases null
      · have old : server.client.log <+: after.client.log := (List.prefix_append ..).trans begins
        rcases waiter_kept sound later undisturbed allowed ran
          (fun use also one two => alike use also (one.later old) (two.later old)) before waits
          inside grown with filled | failed
        · exact filled null
        · exact failed connected
    · -- It is looked up in the step.
      have seeks : step.Seeks server pk (.body uri offset) :=
        exec_seeks ran (grown.trans (List.append_assoc ..)) (List.mem_append_left _ member)
      have there := seeker_kept sound undisturbed ran seeks inside
      exact ((later.there pk).mp there).2 (by simp [grown])
  · obtain rfl := wrote pk data (begins.subset written)
    exact short (written_nothing lawful.before ((wholes_carry alike).earlier begins) written asked)

theorem Unchanged.provides (unchanged : Unchanged files server step) :
    Provides (Wholes files) server step := by
  cases step with
  | accept => trivial
  | run index around =>
    intro pk hpkg uri vern found there known size announced
    unfold headOf at announced
    split at announced
    · exact absurd announced (head404_announces vern)
    · rename_i stat opened
      rw [(head200_announces_iff ..).mp announced]
      exact unchanged _ found hpkg there uri known stat opened
  | complete index completion =>
    cases completion with
    | read => exact fun pk path offset found => unchanged _ found
    | wrote | failed => trivial

/-- What has been written in a run, and when a child was finalised. -/
structure Tidy (files : Text → Text) (log : List Event) : Prop where
  ends : Throughout (EndsWhole files) log
  once : Throughout HeadOnce log
  moved : ∀ pk data count, .written pk .head data count ∈ log → ∃ event ∈ log,
    event.movesOn pk = true
  wrote : ∀ pk data, .written pk .body data 0 ∈ log → data = []

theorem Tidy.keeps (tidy : Tidy files server.client.log)
    (sound : Sound (Wholes files) server) (later : Sound (Wholes files) after)
    (undisturbed : Undisturbed files server step) (allowed : program.allowed server step)
    (ran : exec server step = .ok after)
    (alike : ∀ use also, Looked after.client.log use → Looked after.client.log also →
      use.key = also.key → use.Alike files also) :
    Tidy files after.client.log := by
  obtain ⟨front, more, grown, by', written⟩ := exec_writes ran
  have wrote : ∀ pk data, .written pk .body data 0 ∈ after.client.log → data = [] := by
    intro pk data member
    rw [grown] at member
    rcases List.mem_append.mp member with old | new
    · exact tidy.wrote pk data old
    · obtain ⟨_, index, around, rfl, ⟨_, found⟩ | ⟨part, _⟩⟩ := written _ _ _ _ new
      · by_contra some'
        exact absurd ((undisturbed _ found).1 some') (Nat.lt_irrefl 0)
      · cases part
  obtain ⟨once, moved⟩ := heads_keep sound ran tidy.once tidy.moved
  refine ⟨?_, once, moved, wrote⟩
  rw [grown]
  refine throughout_append.mpr ⟨tidy.ends, fun earlier event rest shape => ?_⟩
  cases event with
  | finalised pk =>
    exact final_whole sound later undisturbed allowed ran alike wrote
      (by rw [grown, shape, List.append_assoc])
  | accepted | created | activated | rearmed | closed | asked | reserved | loading | put
  | cancelled | delivered | aborted | released | written => trivial

/-- Answers are framed in every run in which files do not change, nobody is handed `NULL` before the
end of a file, and no key stands for two different things that are looked up. -/
theorem framed_undisturbed {attempts : List (Server × Step)}
    (run : Run program attempts (.ok server))
    (unchanged : ∀ attempt ∈ attempts, Unchanged files attempt.1 attempt.2)
    (undisturbed : ∀ attempt ∈ attempts, Undisturbed files attempt.1 attempt.2)
    (alike : ∀ use also, Looked server.client.log use → Looked server.client.log also →
      use.key = also.key →
      use.Alike files also) : Framed server.client.log := by
  have sound := run_keeps run fun attempt member => (unchanged attempt member).provides
  suffices tidy : Tidy files server.client.log from
    framed_of_ends sound.1.lawful (wholes_carry alike) tidy.ends tidy.once
  clear sound
  generalize ended : Except.ok server = outcome at run
  induction run generalizing server with
  | start =>
    cases ended
    exact ⟨throughout_nil, throughout_nil, nofun, nofun⟩
  | @step attempts state call before allowed ih =>
    obtain ⟨unchanged, now⟩ := List.forall_mem_append.mp unchanged
    obtain ⟨undisturbed, here⟩ := List.forall_mem_append.mp undisturbed
    have ran : exec state call = .ok server := ended.symm
    have step : Run program (attempts ++ [(state, call)]) (.ok server) :=
      ended ▸ before.step allowed
    have grown : state.client.log <+: server.client.log := (exec_extends ran).log
    have tidy :=
      ih unchanged undisturbed (fun use also one two => alike use also (one.later grown)
        (two.later grown)) rfl
    exact tidy.keeps (run_keeps before fun attempt member => (unchanged attempt member).provides)
      (run_keeps step fun attempt member =>
        ((List.mem_append.mp member).elim (unchanged attempt) (now attempt)).provides)
      (here _ (List.mem_singleton_self _)) allowed ran alike

/-- Two requests for one file that are read at once, and the whole answer to the first of them. -/
private def wholeAnswer : List Step :=
  asking "GET /a HTTP/1.1\r\n\r\nGET /a HTTP/1.1\r\n\r\n".toList fileOf3 ++
    [.complete 0 (.wrote 107) fileOf3, .complete 0 (.read "abc".toList []) fileOf3,
      .complete 0 (.wrote 3) fileOf3,
      .complete 0 (.read [] []) fileOf3, .complete 0 (.wrote 0) fileOf3, .run 0 fileOf3,
      .complete 0 (.wrote 107) fileOf3]

/-- What is looked up under keys on the way. -/
private def wholeAnswerUses : List KeyUse :=
  [.head "a".toList 1, .head "a".toList 1, .body "a".toList 0, .body "a".toList 0,
    .body "a".toList 3, .body "a".toList 3,
    .head "a".toList 1, .body "a".toList 0]

/-- The second head is written behind the whole of the first body. -/
theorem framed_undisturbed_run : ∃ attempts server, Run program attempts (.ok server) ∧
    bytesOn 0 server.client.log = head200 1 [] [] 3 ++ "abc".toList ++ head200 1 [] [] 3 ∧
    Framed server.client.log := by
  have shown : (program.replay program.start wholeAnswer).map
      (fun server => (bytesOn 0 server.client.log, server.client.log.filterMap Event.use?)) =
      .ok (head200 1 [] [] 3 ++ "abc".toList ++ head200 1 [] [] 3, wholeAnswerUses) := by
    decide +kernel
  obtain ⟨server, run, seen⟩ := Run.shown (by decide +kernel) shown
  obtain ⟨bytes, uses⟩ := Prod.mk.inj seen
  have unchanged : ∀ attempt ∈ program.trace program.start wholeAnswer,
    Unchanged (fun _ => "abc".toList) attempt.1 attempt.2 := by
    decide +kernel
  have undisturbed : ∀ attempt ∈ program.trace program.start wholeAnswer,
      Undisturbed (fun _ => "abc".toList) attempt.1 attempt.2 := by
    decide +kernel
  have alike : ∀ use ∈ wholeAnswerUses, ∀ also ∈ wholeAnswerUses,
      use.key = also.key → use.Alike (fun _ => "abc".toList) also := by
    decide
  refine ⟨_, server, run, bytes, framed_undisturbed run unchanged undisturbed ?_⟩
  intro use also one two
  rw [looked_iff, uses] at one two
  exact alike use one also two

/-- A request for the file on one connection, whose body cannot be read, and two of them on another one. -/
private def failedRead : List Step :=
  [.accept fileOf3, .accept fileOf3,
    .complete 0 (.read "GET /a HTTP/1.1\r\n\r\n".toList []) fileOf3, .run 0 fileOf3,
    .complete 0 (.read "GET /a HTTP/1.1\r\n\r\nGET /a HTTP/1.1\r\n\r\n".toList []) fileOf3,
    .run 0 fileOf3,
    .complete 0 (.wrote 107) fileOf3, .complete 0 (.wrote 107) fileOf3, .complete 0 .failed fileOf3,
      .run 1 fileOf3,
    .complete 0 (.wrote 107) fileOf3]

/-- What happens between the two heads on the other connection. -/
private def nullHanded : List Event :=
  [.asked ⟨1, 1⟩ "a#0".toList (.body "a".toList 0) .queued, .aborted ⟨0, 1⟩,
    .cancelled ⟨0, 1⟩ "a#0".toList,
    .delivered ⟨0, 1⟩ false, .finalised ⟨0, 1⟩, .rearmed ⟨0, 0⟩, .delivered ⟨1, 1⟩ false,
    .finalised ⟨1, 1⟩,
    .activated ⟨1, 2⟩, .asked ⟨1, 2⟩ "a".toList (.head "a".toList 1) .hit, .delivered ⟨1, 2⟩ true]

/-- The second head is written right behind the first one, which announces three bytes. -/
theorem framed_null : ∃ attempts server, Run program attempts (.ok server) ∧
    (∀ attempt ∈ attempts, Unchanged (fun _ => "abc".toList) attempt.1 attempt.2) ∧
    ¬ Framed server.client.log := by
  have shown : (program.replay program.start failedRead).map
    (fun server => (server.client.log.drop 20).take 13) =
      .ok (.written ⟨1, 1⟩ .head (head200 1 [] [] 3) (head200 1 [] [] 3).length ::
        (nullHanded ++ [.written ⟨1, 2⟩ .head (head200 1 [] [] 3) 107])) := by
    decide +kernel
  obtain ⟨server, run, seen⟩ := Run.shown (by decide +kernel) shown
  have shape : server.client.log = server.client.log.take 20 ++ .written ⟨1, 1⟩ .head
    (head200 1 [] [] 3)
      (head200 1 [] [] 3).length :: (nullHanded ++ .written ⟨1, 2⟩ .head (head200 1 [] [] 3) 107 ::
      server.client.log.drop 33) := by
    calc server.client.log
      _ = server.client.log.take 20 ++
        ((server.client.log.drop 20).take 13 ++ (server.client.log.drop 20).drop 13) := by
        rw [List.take_append_drop, List.take_append_drop]
      _ = _ := by
        rw [seen, List.drop_drop, List.cons_append, List.append_assoc, List.singleton_append]
  have unchanged : ∀ attempt ∈ program.trace program.start failedRead,
    Unchanged (fun _ => "abc".toList) attempt.1 attempt.2 := by
    decide +kernel
  refine ⟨_, server, run, unchanged, ?_⟩
  intro framed
  have announces : Announces (head200 1 [] [] 3) 3 := (head200_announces_iff 1 [] [] 3 3).mpr rfl
  have quiet : ∀ event ∈ nullHanded, ¬ event.Begins ⟨1, 1⟩ := by simp [nullHanded, Event.Begins]
  have whole := (framed _ _ _ _ _ _ shape announces quiet).2 _ rfl ⟨rfl, by simp, by decide⟩
  exact absurd whole (by decide)

end EventDisp.Server
