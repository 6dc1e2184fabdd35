import EventDisp.HttpFrames

/-! The package at hand: how its work is taken up, what it may do, and how it is
finalised. -/
namespace EventDisp.Server

variable {http after : Http} {conn : Nat} {pk other : PackagePtr} {key name : Key}
  {log : List Event}
variable {event : Event} {waiting rest : Key → List Callback} {work : Work}
  {cache : Cache Key Text Callback}
variable {loading : Option Key} {hpkg : HPKG} {good : KeyUse → Text → Prop} {reason : Prop}
  {issues : Aio → Prop}
variable {callback : Callback} {cn : Conn} {done : Nat} {around : Surroundings}

/-- A package is at hand: it is its turn, and everything else is as it should be. -/
structure Hand (good : KeyUse → Text → Prop) (loading : Option Key) (waiting : Key → List Callback)
    (cache : Cache Key Text Callback) (http : Http) (pk : PackagePtr) (cn : Conn) (done : Nat)
    (hpkg : HPKG) : Prop where
  lives : Lives good (some pk) loading waiting cache http
  runs : Runs http pk cn done
  serves : cn.Serves
  there : http.packages pk = some hpkg

/-- The package at hand has passed its work on, with references to the given keys, and
nothing has been done about any key. -/
structure Passed (good : KeyUse → Text → Prop) (loading : Option Key)
    (waiting : Key → List Callback) (cache : Cache Key Text Callback) (http after : Http)
    (keys : List Key) : Prop where
  lives : Lives good none loading waiting cache after
  held : held after = held http ++ keys
  slots : ∀ key, slot key after.log = slot key http.log
  readers : readers after = readers http

/-- The packages, connections and history stay as they are. -/
structure Still (http after : Http) : Prop where
  conns : after.conns = http.conns
  packages : after.packages = http.packages
  log : after.log = http.log
  nextConn : after.nextConn = http.nextConn

theorem Still.refl (http : Http) : Still http http := ⟨rfl, rfl, rfl, rfl⟩

theorem Still.same (still : Still http after) (conn : Nat) : Same conn http after :=
  ⟨by rw [still.conns], fun number => by rw [still.packages], [], by simp [still.log], by simp [Silent]⟩

theorem Still.tells {hand : Option PackagePtr} (still : Still http after)
    (tells : Tells hand waiting http)
    (aios : ∀ aio ∈ after.aios, aio ∈ http.aios) (waits : ∀ key, ∀ callback ∈ rest key,
    callback ∈ waiting key) :
    Tells hand rest after := by
  refine ⟨?_, ?_, ?_, ?_, ?_, ?_, ?_⟩ <;> rw [still.log]
  · rw [still.packages]
    exact tells.packages
  · intro aio member
    exact tells.aios aio (aios aio member)
  · intro key callback member
    exact tells.waits key callback (waits key callback member)
  · exact tells.unmade
  · rw [still.conns]
    exact tells.conns
  · exact tells.known
  · rw [still.nextConn]
    exact tells.ahead

/-- A work is taken up. -/
theorem Lives.take (lives : Lives good none loading waiting cache http) (still : Still http after)
    (fewer : ∀ aio ∈ after.aios, aio ∈ http.aios) (reading : readers after = readers http)
    (more : Token.More (pending rest after) (pending waiting http) work)
    (same : ∀ key, loading ≠ some key → rest key = waiting key)
    (waits : ∀ key, ∀ callback ∈ rest key, callback ∈ waiting key) :
    ∃ cn done hpkg, Hand good loading rest cache after work.pk cn done hpkg ∧
    Told after.log work.pk hpkg ∧
      Fits cn hpkg work := by
  obtain ⟨⟨cn, done, hpkg, runs, serves, there, fits⟩, keeps⟩ := lives.keeps.take still.same more
  have tells := still.tells lives.tells fewer waits
  refine ⟨cn, done, hpkg, ⟨⟨keeps, ?_, { tells with
    packages := fun other found _ there => tells.packages other found nofun there }, ?_⟩, runs,
      serves, there⟩,
    tells.packages work.pk hpkg nofun there, fits⟩
  · have loads : Loads loading waiting cache after :=
      lives.loads.same (fun key _ => by rw [still.log]) reading
    refine ⟨?_, loads.reads, loads.distinct⟩
    intro key apart
    have agrees := loads.agrees key apart
    exact { agrees with waiting := (same key apart).trans agrees.waiting }
  · rw [still.log]
    exact lives.lawful

/-- The first callback of the queue that is being served is taken up. -/
theorem Lives.dequeue {rest : List Callback} (lives : Lives good none (some key) waiting cache http)
    (queued : waiting key = callback :: rest) :
    ∃ cn done hpkg, Hand good (some key)
    (Function.update waiting key rest) cache http callback.pk cn done hpkg ∧
      Told http.log callback.pk hpkg ∧ Fits cn hpkg (.wait key callback) ∧
      callback.Told http.log key := by
  have more : Token.More (pending (Function.update waiting key rest) http) (pending waiting http)
    (.wait key callback) := by
    intro work
    cases work with
    | wait name other =>
      simp only [pending, Work.queued, Work.wait.injEq]
      by_cases same : name = key
      · subst same
        rw [Function.update_self, queued, List.count_cons]
        simp only [true_and, beq_iff_eq]
        omega
      · rw [Function.update_of_ne same, if_neg fun both => same both.1.symm]
        rfl
    | read | fetch | readRequest | writeHead | write400 | writeBody => simp [pending, Work.queued]
  have same : ∀ name, some key ≠ some name → Function.update waiting key rest name = waiting name :=
    fun name apart => Function.update_of_ne (fun same => apart (congrArg some same.symm)) ..
  have waits : ∀ name, ∀ other ∈ Function.update waiting key rest name, other ∈ waiting name := by
    intro name other member
    by_cases same : name = key
    · subst same
      rw [Function.update_self] at member
      rw [queued]
      exact List.mem_cons_of_mem _ member
    · rwa [Function.update_of_ne same] at member
  obtain ⟨cn, done, hpkg, hand, told, fits⟩ :=
    lives.take (.refl http) (fun _ => id) rfl more same waits
  exact ⟨cn, done, hpkg, hand, told, fits,
    lives.tells.waits key callback (by rw [queued]; exact List.mem_cons_self)⟩

theorem Hand.known (hand : Hand good loading waiting cache http pk cn done hpkg) :
    .accepted pk.conn ∈ http.log :=
  hand.runs.2.1.accepted

theorem Hand.status (hand : Hand good loading waiting cache http pk cn done hpkg) :
    cn.cst = Server.status pk.conn http.log :=
  hand.lives.tells.conns _ cn hand.runs.1

/-- The child at hand is the one whose turn it is. -/
theorem Hand.child (hand : Hand good loading waiting cache http pk cn done hpkg)
    (child : pk.number ≠ 0) :
    .created pk ∈ http.log ∧ Current pk http.log := by
  obtain ⟨_, line, _, turns⟩ := hand.runs
  have remaining := line.remaining
  have first : done + 1 < cn.packages := by
    unfold turn at turns
    split at turns <;> omega
  have number : pk.number = done + 1 := by
    unfold turn at turns
    rwa [if_pos first] at turns
  have active : activeUpTo cn done = pk.number := by
    unfold activeUpTo
    omega
  refine ⟨?_, child, ?_, ?_⟩
  · have listed : pk.number ∈ createdOf pk.conn http.log := by
      rw [line.created, List.mem_range'_1]
      omega
    exact mem_createdOf.mp listed
  · exact line.activated.trans (by rw [active])
  · rw [line.finalised]
    congr 1
    omega

theorem Hand.setPackage (hand : Hand good loading waiting cache http pk cn done hpkg)
    (changed : HPKG)
    (links : changed.ppg = hpkg.ppg ∧ changed.nsg = hpkg.nsg ∧ changed.lcg = hpkg.lcg) :
    Hand good loading waiting cache (http.setPackage pk changed) pk cn done changed :=
  ⟨hand.lives.setPackage changed,
    hand.runs.setPackage changed hand.there links.1 links.2.1 links.2.2, hand.serves,
    by simp⟩

/-- The child at hand does something that concerns no key but the one being loaded. -/
theorem Hand.emit (hand : Hand good loading waiting cache http pk cn done hpkg)
    (child : pk.number ≠ 0) (event : Event) (teller : event.teller = some pk)
    (last : Lawful good http.log event)
    (statuses : ∀ conn, Server.status conn (http.log ++ [event]) = Server.status conn http.log)
    (slots : ∀ key, loading ≠ some key → slot key (http.log ++ [event]) = slot key http.log) :
    Hand good loading waiting cache (http.emit event) pk cn done hpkg ∧
    held (http.emit event) = held http := by
  have about := (Event.told teller).2
  refine ⟨⟨hand.lives.emit teller (hand.child child).1 last statuses slots,
    hand.runs.same (.emit http _ about),
    hand.serves, hand.there⟩, hand.lives.emit_held teller⟩

/-- The package at hand passes its work on. -/
theorem Hand.passes (hand : Hand good loading waiting cache http pk cn done hpkg)
    (told : Told http.log pk hpkg) (passes : Passes reason issues pk http after)
    (because : reason → MayEnd pk http.log)
    (issued : ∀ aio, issues aio → aio.Told http.log ∧ aio.key http.log = none) :
    Passed good loading waiting cache http after [] := by
  have lives : Lives good none loading waiting cache after :=
    hand.lives.passes passes hand.known (fun other there => by
    rw [hand.there] at there
    cases there
    exact told) because fun aio fits => (issued aio fits).1
  refine ⟨lives, ?_, passes.keyless.1, passes.keyless.2⟩
  rcases passes.held with same | ⟨aio, fits, grown⟩
  · simpa using same
  · rw [grown, (issued aio fits).2]
    rfl

/-- The package at hand is finalised. -/
theorem Hand.final (hand : Hand good loading waiting cache http pk cn done hpkg)
    (told : Told http.log pk hpkg) (may : MayEnd pk http.log) (around : Surroundings) :
    ∃ after, svrHttpFinal around pk http = .ok after ∧
    Passed good loading waiting cache http after [] := by
  obtain ⟨after, ran, passes⟩ :=
    final_passes hand.runs (fun _ => hand.serves) around (fun _ => False) may
  exact ⟨after, ran, hand.passes told passes id nofun⟩

/-- Where nothing can be written any more, the package at hand may be finalised. -/
theorem Hand.mayEnd (hand : Hand good loading waiting cache http pk cn done hpkg)
    (closes : cn.closesWrite = true) :
    MayEnd pk http.log := by
  intro _ connected
  rw [← hand.status] at connected
  simp [Conn.closesWrite, connected] at closes

/-- An answer is written, or a request read. -/
theorem Hand.starts (hand : Hand good loading waiting cache http pk cn done hpkg)
    (told : Told http.log pk hpkg)
    (changed : HPKG) (links : changed.ppg = hpkg.ppg ∧ changed.nsg = hpkg.nsg ∧
    changed.lcg = hpkg.lcg)
    (like : hpkg.Like changed) (aio : Aio) (work : Work)
    (own : aio.pk = pk) (shows : aio.work = some work)
    (fits : Fits cn changed work) (issued : aio.Told http.log) :
    Passed good loading waiting cache http ((http.setPackage pk changed).issue aio)
    (aio.key http.log).toList := by
  have passes : Passes False (· = aio) pk http ((http.setPackage pk changed).issue aio) :=
    hand.runs.starts hand.serves hand.there changed links like aio work own shows fits
  have lives : Lives good none loading waiting cache ((http.setPackage pk changed).issue aio) :=
    hand.lives.passes passes hand.known (fun other there => by
      rw [hand.there] at there
      cases there
      exact told) nofun fun _ same => same ▸ issued
  refine ⟨lives, ?_, passes.keyless.1, passes.keyless.2⟩
  simp only [held, Http.issue, setPackage_aios, setPackage_log, List.filterMap_append]
  cases key : aio.key http.log <;> simp [key]

end EventDisp.Server
