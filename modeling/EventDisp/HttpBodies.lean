import EventDisp.HttpAborting

/-! The handlers of a body: its parts are looked up or read, and written one after
the other. -/
namespace EventDisp.Server

open Outcome

variable {http after : Http} {pk : PackagePtr} {key : Key} {waiting : Key → List Callback}
  {server : Server}
variable {cache next : Cache Key Text Callback} {entry : CacheEntry Text Callback} {cn : Conn}
  {done : Nat}
variable {hpkg : HPKG} {good : KeyUse → Text → Prop} {rest : List Callback} {use : KeyUse}
  {offset : Nat} {uri : Text}

/-- The package at hand is finalised between two steps. -/
theorem Hand.ends (hand : Hand good none (queues cache) cache http pk cn done hpkg)
    (stocked : Stocked cache http) (told : Told http.log pk hpkg) (may : MayEnd pk http.log)
    (around : Surroundings) :
    ∃ after, svrHttpFinal around pk http = .ok after ∧ Sound good ⟨cache, after⟩ := by
  obtain ⟨after, ran, passed⟩ := hand.final told may around
  exact ⟨after, ran, passed.lives, stocked.same (by rw [passed.held, List.append_nil])⟩

/-- Whether the buffers of a package are in the cache. -/
def HPKG.flag (hpkg : HPKG) (head body : Bool) : HPKG :=
  { hpkg with cheadCached := head, cbodyCached := body }

private theorem Fits.flag {work : Work} (fits : Fits cn hpkg work) (head body : Bool) :
    Fits cn (hpkg.flag head body) work := by
  cases work with
  | wait key callback => cases callback <;> exact fits
  | fetch =>
    exact ⟨fits.1, fits.2.chead, fits.2.headkey, fits.2.bodykey, fits.2.hfd, fits.2.trOffset⟩
  | read | readRequest | writeHead | write400 | writeBody => exact fits

/-- Whether the buffers of a package are in the cache is read by nobody. -/
private theorem Ready.flag {work : Work} (ready : Ready http work)
    (there : http.packages pk = some hpkg) (own : work.pk.conn = pk.conn) (head body : Bool) :
    Ready (http.setPackage pk (hpkg.flag head body)) work := by
  obtain ⟨cn, done, old, ⟨found, line, tied, turns⟩, serves, held, fits⟩ := ready
  obtain ⟨conn, number⟩ := pk
  dsimp only at own
  rw [own] at found line tied
  have runs : Runs (http.setPackage ⟨conn, number⟩ (hpkg.flag head body)) work.pk cn done := by
    refine ⟨by rw [own]; exact found, ?_, ?_, turns⟩ <;> rw [own]
    · refine line.setPackage _ there rfl rfl fun later => ?_
      have fresh := line.fresh number hpkg later there
      exact ⟨fresh.chead, fresh.headkey, fresh.bodykey, fresh.hfd, fresh.trOffset⟩
    · exact tied.setPackage there rfl
  by_cases here : work.pk = ⟨conn, number⟩
  · rw [here, there] at held
    cases held
    exact ⟨cn, done, hpkg.flag head body, runs, serves, by rw [here]; simp, fits.flag head body⟩
  · exact ⟨cn, done, old, runs, serves, by rw [setPackage_packages, if_neg here, held], fits⟩

theorem Sound.flag (sound : Sound good ⟨cache, http⟩) (there : http.packages pk = some hpkg)
    (head body : Bool) :
    Sound good ⟨cache, http.setPackage pk (hpkg.flag head body)⟩ := by
  obtain ⟨⟨keeps, loads, tells, lawful⟩, stocked⟩ := sound
  dsimp only at keeps loads tells lawful stocked there
  refine ⟨⟨⟨nofun, ?_⟩, loads.same (fun _ _ => rfl) rfl, { tells with
    packages := ?_ }, lawful⟩, stocked.same rfl⟩
  · intro conn _
    by_cases own : conn = pk.conn
    · rcases keeps.rests conn nofun with ⟨work, only, same, ready⟩ | ⟨only, shut⟩
      · exact .inl ⟨work, only, same, ready.flag there (same.trans own) head body⟩
      · have gone := shut.packages pk.number
        rw [own, there] at gone
        cases gone
    · exact (keeps.rests conn nofun).same (.setPackage own) fun _ _ => rfl
  · intro other found away there'
    rw [setPackage_packages] at there'
    split at there'
    · rename_i same
      cases there'
      rw [same]
      exact (tells.packages pk hpkg nofun there).like ⟨rfl, rfl, rfl, rfl, rfl⟩
    · exact tells.packages other found away there'

/-- The same request goes on with a file that has been opened. -/
theorem Told.reopen {log : List Event} {changed : HPKG} (told : Told log pk hpkg)
    (uri : changed.uri = hpkg.uri) (trOffset : changed.trOffset = hpkg.trOffset)
    (headkey : changed.headkey = hpkg.headkey)
    (bodykey : changed.bodykey = hpkg.bodykey) (opened : ∀ path, changed.hfd = some path →
    changed.uri = some path) :
    Told log pk changed := by
  refine ⟨?_, ?_, ?_, ?_, ?_, opened⟩
  · rw [trOffset]
    exact told.offset
  · rw [uri]
    exact told.asked
  · rw [headkey]
    exact told.head
  · rw [bodykey]
    exact told.body
  · rw [headkey]
    exact told.unasked

/-- A read of a body is nobody's work. -/
private theorem works_reading (path : Option Text) :
    works (http.issue (.readBody pk path offset)) = works http := by
  simp [works, Http.issue, Aio.work]

private theorem readers_reading (path : Option Text) :
    readers (http.issue (.readBody pk path offset)) = readers http ++ [pk] := by
  simp [readers, Http.issue, Aio.reader]

/-- The package at hand reads nothing. -/
private theorem Lives.readsNot {loading : Option Key}
    (lives : Lives good (some pk) loading waiting cache http) :
    pk ∉ readers http := by
  intro member
  obtain ⟨aio, inside, reads⟩ := List.mem_filterMap.mp member
  apply lives.idle inside
  cases aio with
  | readBody reader =>
    cases reads
    rfl
  | readRequest | writeHead | write400 | writeBody => cases reads

/-- The slot of a key that its loader waits for, and nobody else. -/
private theorem agrees_loading {begun : Http} (state : slot key begun.log = ⟨some pk, [pk], none⟩)
    (queue : queues next key = [.bodyWio pk]) (found : next.find key = some entry)
    (reserved : entry.isReserved = true) (empty : contents entry = none)
    (reads : pk ∈ readers begun) :
    Agrees (queues next) next begun key := by
  refine ⟨?_, rfl, ?_, ?_, ?_, ?_⟩ <;> rw [state]
  · exact ⟨fun _ => rfl, fun _ => ⟨entry, found, reserved⟩⟩
  · rw [queue]
    rfl
  · rintro loader ⟨⟩
    exact ⟨reads, by rw [queue]; rfl⟩
  · intro other there
    cases found.symm.trans there
    exact empty
  · intro absent
    cases found.symm.trans absent

/-- Who has reserved a part of a body reads it, and waits for it. -/
private theorem Reserved.reads
    (reserved : Reserved good (.body uri offset) pk cn done hpkg cache next after)
    (fits : Fits cn hpkg (.wait (bodyKey uri offset) (.bodyWio pk))) (opened : Option Text)
    (path : ∀ name, opened = some name → name = uri) (same : hpkg.uri = some uri) :
    Sound good ⟨next, ((after.setPackage pk { hpkg with hfd := opened }).emit
    (.loading pk (bodyKey uri offset))).issue
      (.readBody pk opened offset)⟩ := by
  obtain ⟨hand, stocked, told, waits, state, asked, ⟨ref, sets⟩, queue⟩ := reserved
  simp only [KeyUse.key, KeyUse.callback] at hand waits state asked sets queue
  have loader : (slot (bodyKey uri offset) after.log).loader = some pk := by rw [state]
  have still (key : Key) : slot key (after.log ++ [.loading pk (bodyKey uri offset)]) =
    slot key after.log := by
    rw [slot_concat]
    rfl
  have stories (other : PackagePtr) :
    story other (after.log ++ [.loading pk (bodyKey uri offset)]) = story other after.log := by
    rw [story_concat, storyAfter]
    split <;> rfl
  have changed := hand.setPackage { hpkg with hfd := opened } ⟨rfl, rfl, rfl⟩
  obtain ⟨loading, held'⟩ := changed.emit fits.1 (.loading pk (bodyKey uri offset)) rfl loader
    (fun _ => by rw [status_concat]; rfl) fun key _ => still key
  generalize shape : (after.setPackage pk { hpkg with hfd := opened }).emit
    (.loading pk (bodyKey uri offset)) = begun at *
  have log : begun.log = after.log ++ [.loading pk (bodyKey uri offset)] := by rw [← shape]; rfl
  have told' : Told begun.log pk { hpkg with hfd := opened } := by
    rw [log]
    refine (told.same (stories pk)).reopen rfl rfl rfl rfl fun name here => ?_
    rw [path name here]
    exact same
  have lives := loading.lives
  have tells : Tells (some pk) (queues cache) (begun.issue (.readBody pk opened offset)) := by
    refine { lives.tells with aios := fun aio member => ?_ }
    rcases List.mem_append.mp member with old | new
    · exact lives.tells.aios aio old
    · rw [List.mem_singleton.mp new]
      refine ⟨bodyKey uri offset, uri, ?_, ?_, path⟩
      · show (story pk begun.log).ask = _
        rw [log, stories, asked]
      · show (slot (bodyKey uri offset) begun.log).loader = _
        rw [log, still, loader]
  have fits' : Fits cn { hpkg with hfd := opened } (.wait (bodyKey uri offset) (.bodyWio pk)) :=
    fits
  have waits' : (Callback.bodyWio pk).Told begun.log (bodyKey uri offset) := by
    rw [log]
    exact waits.congr (stories pk)
  obtain ⟨keeps, tells⟩ := lives.waits tells (fun _ => .issue _) (works_reading opened)
    (loading.runs.same (.issue _)) loading.serves
    loading.there rfl told' fits' waits'
  have longer := sets.longer rfl (.bodyWio pk) (by rw [queue]; rfl)
  rw [← longer] at keeps tells
  have slot' : slot (bodyKey uri offset) begun.log = ⟨some pk, [pk], none⟩ := by
    rw [log, still, state]
  have own : queues next (bodyKey uri offset) = [.bodyWio pk] := by
    rw [longer, Function.update_self, queue, List.nil_append]
  have all : ∀ key, Agrees (queues next) next (begun.issue (.readBody pk opened offset)) key := by
    intro key
    by_cases here : key = bodyKey uri offset
    · subst here
      exact agrees_loading slot' own sets.found rfl rfl (by rw [readers_reading]; simp)
    · have agrees : Agrees (queues cache) next (begun.issue (.readBody pk opened offset)) key :=
        (lives.loads.agrees key fun same => here (Option.some.inj same).symm).same rfl
          fun reader member => by
          rw [readers_reading]
          exact List.mem_append_left _ member
      exact { agrees with waiting := rfl }
  refine ⟨⟨keeps, ⟨fun key _ => all key, ?_, ?_⟩, tells, lives.lawful⟩, stocked.same ?_⟩
  · intro reader member
    rw [readers_reading] at member
    rcases List.mem_append.mp member with old | new
    · obtain ⟨key, _, loads⟩ := lives.loads.reads reader old
      exact ⟨key, (Option.some_ne_none key).symm, loads⟩
    · rw [List.mem_singleton.mp new]
      exact ⟨bodyKey uri offset, (Option.some_ne_none _).symm, by rw [issue_log, slot']⟩
  · rw [readers_reading]
    refine List.nodup_append.mpr ⟨lives.loads.distinct, by simp, ?_⟩
    rintro reader member _ here rfl
    exact lives.readsNot (List.mem_singleton.mp here ▸ member)
  · have kept : held begun = held after := held'
    rw [← kept]
    simp [held, Http.issue, Aio.key]

/-- Whether a connection that serves can be written to is decided by whether a write
has failed. -/
theorem Conn.Serves.connected (serves : cn.Serves) (open' : ¬ cn.closesWrite = true) :
    cn.cst = .connected :=
  serves.resolve_right fun closing => open' (by simp [Conn.closesWrite, closing])

/-- The reading of a part of a body begins. -/
private def load (around : Surroundings) (pk : PackagePtr) (key : Key) (server : Server) :
    Except Fault Server := do
  let hpkg ← server.client.package pk
  let opened := if hpkg.hfd.isNone then around.file.bind fun _ => hpkg.uri else hpkg.hfd
  let http := (server.client.setPackage pk { hpkg with hfd := opened }).emit (.loading pk key)
  return { server with client := http.issue (.readBody pk opened hpkg.trOffset) }

/-- Where something can be written, the next part is looked up, and read when it is not there. -/
private theorem body_asks (there : http.packages pk = some hpkg)
    (found : http.conns pk.conn = some cn) (open' : ¬ cn.closesWrite = true)
    (known : hpkg.uri = some uri) (around : Surroundings) :
    svrHttpBody around pk ⟨cache, http⟩ = (do
      let (found, server) ← ask around pk (bodyKey uri hpkg.trOffset) (.body uri hpkg.trOffset) (.bodyWio pk)
        ⟨cache, http.setPackage pk
          { hpkg with hst := .fetching, wst := .body, bodykey := some (bodyKey uri hpkg.trOffset) }⟩
      if found then return server
      else do
        let server ← reserveAndAsk around pk (bodyKey uri hpkg.trOffset) (.body uri hpkg.trOffset) (.bodyWio pk)
          .bodyReserved .bodyQueued server
        load around pk (bodyKey uri hpkg.trOffset) server) := by
  simp only [svrHttpBody, load, Http.package, Http.connection, there, setPackage_conns, found,
    open', if_false, known,
    setPackage_setPackage, bind, Except.bind, Bool.false_eq_true]

/-- The next part of the body is looked up. -/
theorem body_sound (hand : Hand good none (queues cache) cache http pk cn done hpkg)
    (stocked : Stocked cache http) (told : Told http.log pk hpkg) (child : pk.number ≠ 0)
    (asked : (story pk http.log).ask = some (key, use)) (around : Surroundings) :
    Ends (· = .nullAccess) (svrHttpBody around pk ⟨cache, http⟩)
    (Sound good) := by
  have known := told.asked key use asked
  by_cases closes : cn.closesWrite = true
  · let fetching : HPKG := { hpkg with hst := .fetching, wst := .body }
    have hand' := hand.setPackage fetching ⟨rfl, rfl, rfl⟩
    obtain ⟨after, ran, sound⟩ :=
      hand'.ends (stocked.same rfl) (told.like ⟨rfl, rfl, rfl, rfl, rfl⟩) (hand'.mayEnd closes)
        around
    simp only [svrHttpBody, Http.package, Http.connection, hand.there, setPackage_conns,
      hand.runs.1, closes, if_true, bind,
      Except.bind, apart, ran, fetching]
    exact sound
  · let seeking : HPKG :=
      { hpkg with hst := .fetching, wst := .body, bodykey := some (bodyKey use.uri hpkg.trOffset) }
    have hand' := hand.setPackage seeking ⟨rfl, rfl, rfl⟩
    have seeks : Seeks cn seeking (.body use.uri hpkg.trOffset) pk http.log := by
      refine ⟨⟨child, hand.serves.connected closes, rfl, rfl, rfl⟩,
        ⟨told.offset, key, use, asked, rfl⟩, told.offset, known,
        ?_, told.opened⟩
      intro none'
      rw [told.unasked none'] at asked
      cases asked
    rw [body_asks hand.there hand.runs.1 closes known]
    apply hand'.seek (stocked.same rfl) seeks around .bodyReserved .bodyQueued _
    intro next after reserved
    have reads :=
      reserved.reads seeks.fits (if hpkg.hfd.isNone then around.file.bind fun _ =>
        hpkg.uri else hpkg.hfd)
      (fun name here => ?_) known
    · simp only [load, Http.package, reserved.hand.there, bind, Except.bind]
      exact Ends.ok reads
    · split at here
      · obtain ⟨_, _, here⟩ := Option.bind_eq_some_iff.mp here
        rw [known] at here
        exact (Option.some.inj here).symm
      · have same := told.opened name here
        rw [known] at same
        exact (Option.some.inj same).symm

/-- A package stays that looks up a part of its body, unless it finds a slot with nothing in it. -/
theorem body_keeps (there : http.packages pk = some hpkg) (found : http.conns pk.conn = some cn)
    (connected : cn.cst = .connected) (known : hpkg.uri = some uri)
    (filled : ∀ entry, cache.find (bodyKey uri hpkg.trOffset) = some entry →
      entry.freeListRef = none ∧ (entry.isReserved = true ∨ entry.data.isSome = true))
      (around : Surroundings) :
    Ends (fun _ => True) (svrHttpBody around pk ⟨cache, http⟩) fun after =>
      (after.client.packages pk).isSome = true := by
  let seeking : HPKG :=
    { hpkg with hst := .fetching, wst := .body, bodykey := some (bodyKey uri hpkg.trOffset) }
  have changed : (http.setPackage pk seeking).packages (Callback.bodyWio pk).pk = some seeking := by
    simp [Callback.pk]
  rw [body_asks there found (by simp [Conn.closesWrite, connected]) known]
  cases held : cache.find (bodyKey uri hpkg.trOffset) with
  | none =>
    rw [ask_missed held]
    simp only [bind, Except.bind, Bool.false_eq_true, if_false, reserveAndAsk_absent held, load, Http.package, emit_packages,
      setPackage_packages, if_true]
    exact Ends.ok (by simp [Http.issue])
  | some entry =>
    obtain ⟨unlisted, full⟩ := filled entry held
    by_cases reserved : entry.isReserved = true
    · rw [ask_queued held reserved]
      exact Ends.ok (by simp)
    · obtain ⟨data, given⟩ := Option.isSome_iff_exists.mp (full.resolve_left reserved)
      have asked (event : Event) : ((http.setPackage pk seeking).emit event).packages pk =
        some seeking := changed
      rw [ask_hit held (by simpa using reserved) unlisted _ around pk _ changed found connected,
        serve_body (asked _) given]
      exact Ends.ok (by simp [Http.issue])

/-- A package stays whose head has been written and has a body, unless it finds a slot with nothing in it. -/
theorem headerToBody_keeps (there : http.packages pk = some hpkg) (ok : hpkg.hsn = .ok200)
    (found : http.conns pk.conn = some cn) (connected : cn.cst = .connected)
    (known : hpkg.uri = some uri)
    (filled : ∀ entry, cache.find (bodyKey uri hpkg.trOffset) = some entry →
      entry.freeListRef = none ∧ (entry.isReserved = true ∨ entry.data.isSome = true))
      (around : Surroundings) :
    Ends (fun _ => True) (svrHttpHeaderToBodyAio around pk ⟨cache, http⟩) fun after =>
      (after.client.packages pk).isSome = true := by
  let passing : HPKG := { hpkg with hst := .unknown, wst := .head }
  have changed : (http.setPackage pk passing).packages pk = some passing := by simp
  have ran : svrHttpHeaderToBodyAio around pk ⟨cache, http⟩ = svrHttpBody around pk
    ⟨cache, http.setPackage pk passing⟩ := by
    simp only [svrHttpHeaderToBodyAio, Http.package, there, bind, Except.bind]
    split
    · rfl
    all_goals simp_all
  rw [ran]
  exact body_keeps changed found connected known filled around

/-- A package stays for which something has been written, unless it finds a slot with nothing in it. -/
theorem bodyRio_keeps {nbytes : Nat} (there : http.packages pk = some hpkg)
    (part : hpkg.wst = .body) (own : hpkg.bodykey = some key) (held : cache.find key = some entry)
    (several : 2 ≤ entry.refCount) (room : cache.currentSize ≤ cache.sizeQuota) (some' : 0 < nbytes)
    (found : http.conns pk.conn = some cn) (connected : cn.cst = .connected)
    (known : hpkg.uri = some uri)
    (filled : ∀ entry, cache.find (bodyKey uri (hpkg.trOffset + nbytes)) = some entry →
      entry.freeListRef = none ∧ (entry.isReserved = true ∨ entry.data.isSome = true))
      (around : Surroundings) :
    Ends (fun _ => True) (svrHttpBodyRio around pk nbytes ⟨cache, http⟩) fun after =>
      (after.client.packages pk).isSome = true := by
  let further : HPKG := { hpkg with trOffset := hpkg.trOffset + nbytes }
  have changed : ((http.emit (.released pk key)).setPackage pk further).packages pk =
    some further := by simp
  have ran : svrHttpBodyRio around pk nbytes ⟨cache, http⟩ = svrHttpBody around pk
      ⟨cache.store key { entry with refCount := entry.refCount - 1 },
        (http.emit (.released pk key)).setPackage pk further⟩ := by
    simp only [svrHttpBodyRio, Http.package, there, part, own, doneWith_releases held several room,
      gt_iff_lt, some', if_true, bind,
      Except.bind, further]
  rw [ran]
  refine body_keeps changed found connected known (fun other there => ?_) around
  rw [Cache.find_store] at there
  split at there
  · rename_i same
    cases there
    exact filled entry (same ▸ held)
  · exact filled other there

/-- A head has been written, and the body begins. -/
theorem headerToBody_sound {data : Text} {nbytes : Nat}
    (hand : Hand good none (queues cache) cache http pk cn done hpkg) (stocked : Stocked cache http)
    (told : Told http.log pk hpkg) (fits : Fits cn hpkg (.writeHead pk data))
    (writes : (Aio.writeHead pk data).Told http.log) (within : nbytes ≤ data.length)
    (around : Surroundings) :
    Ends (· = .nullAccess) (svrHttpHeaderToBodyAio around pk
    ⟨cache, http.emit (.written pk .head data nbytes)⟩)
      (Sound good) := by
  obtain ⟨child, connected, _, _, status, _⟩ := fits
  obtain ⟨key, uri, vern, asked, stored, _⟩ := writes
  obtain ⟨hand', same⟩ := hand.emit child (.written pk .head data nbytes) rfl
    ⟨(hand.child
      child).2, by rw [← hand.status]; exact connected, within, .inr ⟨key, uri, vern, asked, stored⟩⟩
    (fun _ => by rw [status_concat]; rfl) fun _ _ => by rw [slot_concat]; rfl
  have still : story pk (http.emit (.written pk .head data nbytes)).log = story pk http.log := by
    rw [emit_log, story_concat, storyAfter]
    split <;> rfl
  have told' := told.same still
  let passing : HPKG := { hpkg with hst := .unknown, wst := .head }
  have passed := hand'.setPackage passing ⟨rfl, rfl, rfl⟩
  have other (head : hpkg.hsn ≠ .ok200) : Ends (· = .nullAccess)
      (apart (svrHttpFinal around pk)
        ⟨cache, (http.emit (.written pk .head data nbytes)).setPackage pk passing⟩)
        (Sound good) := by
    have may : MayEnd pk (http.emit (.written pk .head data nbytes)).log := by
      intro _ _ name use found
      rw [still, asked] at found
      cases found
      refine ⟨data, nbytes, by simp, ?_, fun ok => head (status ok)⟩
      rw [emit_log, slot_concat]
      exact stored
    obtain ⟨after, ran, sound⟩ :=
      passed.ends (stocked.same same) (told'.like ⟨rfl, rfl, rfl, rfl, rfl⟩) may around
    simp only [apart, ran, bind, Except.bind]
    exact Ends.ok sound
  simp only [svrHttpHeaderToBodyAio, Http.package, emit_packages, hand.there, bind, Except.bind]
  split
  · exact body_sound passed (stocked.same same) (told'.like ⟨rfl, rfl, rfl, rfl, rfl⟩) child
      (by rw [setPackage_log, still]; exact asked) around
  all_goals
    rename_i head
    exact other (by simp [head])

/-- A part of a body has been written: the next one follows, unless nothing was left. -/
theorem bodyRio_sound {data : Text} {nbytes : Nat}
    (hand : Hand good none (queues cache) cache http pk cn done hpkg) (stocked : Stocked cache http)
    (told : Told http.log pk hpkg) (fits : Fits cn hpkg (.writeBody pk))
    (writes : (Aio.writeBody pk data).Told http.log) (within : nbytes ≤ data.length)
    (spare : ∀ key, Aio.key http.log (.writeBody pk data) = some key → Spare cache http key)
    (around : Surroundings) :
    Ends (· = .nullAccess) (svrHttpBodyRio around pk nbytes
    ⟨cache, http.emit (.written pk .body data nbytes)⟩)
      (Sound good) := by
  obtain ⟨child, connected, _, part, _⟩ := fits
  obtain ⟨key, uri, asked, stored, refers⟩ := writes
  obtain ⟨hand', same⟩ := hand.emit child (.written pk .body data nbytes) rfl
    ⟨(hand.child child).2, by rw [← hand.status]; exact connected, within, key, uri, asked, stored⟩
    (fun _ => by rw [status_concat]; rfl) fun _ _ => by rw [slot_concat]; rfl
  have told' : Told (http.emit (.written pk .body data nbytes)).log pk
    { hpkg with trOffset := hpkg.trOffset + nbytes } := by
    have grown : story pk (http.emit (.written pk .body data nbytes)).log =
        { story pk http.log with streamed := (story pk http.log).streamed ++ data.take nbytes } := by
      rw [emit_log, story_concat]
      simp [storyAfter, Event.teller, Story.tell]
    refine ⟨?_, ?_, ?_, ?_, ?_, told.opened⟩ <;> rw [grown]
    · rw [List.length_append, List.length_take, Nat.min_eq_left within, ← told.offset]
    · exact told.asked
    · exact told.head
    · exact told.body
    · exact told.unasked
  have asked' : (story pk (http.emit (.written pk .body data nbytes)).log).ask =
      some (key, .body uri (story pk http.log).streamed.length) := by
    rw [emit_log, story_concat]
    simpa [storyAfter, Event.teller, Story.tell] using asked
  have spare' : Spare cache (http.emit (.written pk .body data nbytes)) key := by
    rw [Spare, same]
    exact spare key (by simp [Aio.key, asked])
  obtain ⟨next, released, hand'', stocked', keeps⟩ :=
    hand'.releases (stocked.same same) child spare' (by
    rw [emit_log, story_concat]
    simpa [storyAfter, Event.teller, Story.tell] using refers)
  have told'' := keeps _ told'
  have asked'' : (story pk ((http.emit (.written pk .body data nbytes)).emit
    (.released pk key)).log).ask =
      some (key, .body uri (story pk http.log).streamed.length) := by
    rw [emit_log, story_concat]
    simpa [storyAfter, Event.teller, Story.tell, Story.refer] using asked'
  have ends : .written pk .body data nbytes ∈ ((http.emit (.written pk .body data nbytes)).emit
    (.released pk key)).log := by simp
  generalize (http.emit (.written pk .body data nbytes)).emit (.released pk key) = between at *
  have bodykey := told.body key uri _ asked
  by_cases more : nbytes > 0
  · have next' := hand''.setPackage { hpkg with trOffset := hpkg.trOffset + nbytes } ⟨rfl, rfl, rfl⟩
    simp only [svrHttpBodyRio, Http.package, emit_packages, hand.there, bind, Except.bind]
    generalize { hpkg with trOffset := hpkg.trOffset + nbytes } = changed at *
    simp only [part, bodykey, more, if_true, released]
    exact body_sound next' (stocked'.same rfl) told'' child asked'' around
  · obtain rfl : nbytes = 0 := by omega
    have last := hand''.setPackage { hpkg with wst := .unknown } ⟨rfl, rfl, rfl⟩
    have may : MayEnd pk between.log := by
      intro _ _ name use found
      rw [asked''] at found
      cases found
      exact .inr ⟨data, ends⟩
    obtain ⟨after, ran, sound⟩ :=
      last.ends (stocked'.same rfl) (told''.like ⟨rfl, rfl, rfl, rfl, rfl⟩) may around
    simp only [svrHttpBodyRio, Http.package, emit_packages, hand.there, bind, Except.bind]
    generalize { hpkg with wst := .unknown } = changed at *
    simp only [part, bodykey, more, if_false, released, apart, ran, bind, Except.bind]
    exact Ends.ok sound

/-- The answer to a bad request has been written. -/
theorem bodyRio400_sound {data : Text} {nbytes : Nat}
    (hand : Hand good none (queues cache) cache http pk cn done hpkg) (stocked : Stocked cache http)
    (told : Told http.log pk hpkg) (fits : Fits cn hpkg (.write400 pk))
    (writes : (Aio.write400 pk data).Told http.log) (within : nbytes ≤ data.length)
    (around : Surroundings) :
    Ends (· = .nullAccess) (svrHttpBodyRio around pk nbytes
    ⟨cache, http.emit (.written pk .head data nbytes)⟩)
      (Sound good) := by
  obtain ⟨child, connected, _, part, _⟩ := fits
  obtain ⟨unasked, text⟩ := writes
  obtain ⟨hand', same⟩ := hand.emit child (.written pk .head data nbytes) rfl
    ⟨(hand.child child).2, by rw [← hand.status]; exact connected, within, .inl ⟨unasked, text⟩⟩
    (fun _ => by rw [status_concat]; rfl) fun _ _ => by rw [slot_concat]; rfl
  have still : story pk (http.emit (.written pk .head data nbytes)).log = story pk http.log := by
    rw [emit_log, story_concat, storyAfter]
    split <;> rfl
  have may : MayEnd pk (http.emit (.written pk .head data nbytes)).log := by
    intro _ _ name use found
    rw [still, unasked] at found
    cases found
  obtain ⟨after, ran, sound⟩ := hand'.ends (stocked.same same) (told.same still) may around
  simp only [svrHttpBodyRio, Http.package, emit_packages, hand.there, part, bind, Except.bind,
    apart, ran]
  exact Ends.ok sound

/-- A part of a body has been read, and is handed to all who wait for it. -/
theorem bodyPio_sound (loader : Loader good key cache http pk entry rest cn done hpkg) (buf : Text)
    (nbytes : Nat)
    (isGood : ∀ uri, hpkg.uri = some uri → good (.body uri (story pk http.log).streamed.length)
      (buf.take nbytes))
    (around : Surroundings) :
    Ends (· = .nullAccess) (svrHttpBodyPio around pk buf nbytes ⟨cache, http⟩) (Sound good) := by
  obtain ⟨uri, asked⟩ := loader.waits
  have bodykey := loader.told.body key uri _ asked
  have hand : Hand good (some key) _ cache http (Callback.bodyWio pk).pk cn done hpkg := loader.hand
  have puts :=
    hand.puts loader.stocked loader.told loader.fits loader.waits loader.found loader.reserved
      loader.shape
    (Function.update_self ..) loader.loader asked (isGood uri (loader.told.asked key _ asked))
    around
  simp only [svrHttpBodyPio, Http.package, loader.hand.there, bodykey, bind, Except.bind]
  apply puts.bind
  intro result _ passed
  obtain ⟨result, after⟩ := result
  obtain ⟨put, sound, remain⟩ := passed
  obtain ⟨hpkg, there⟩ := Option.isSome_iff_exists.mp (remain pk (by rw [loader.hand.there]; rfl))
  dsimp only at put sound there
  rw [put]
  simp only [Bool.true_eq_false, if_false, there]
  exact Ends.ok (sound.flag there hpkg.cheadCached true)

end EventDisp.Server
