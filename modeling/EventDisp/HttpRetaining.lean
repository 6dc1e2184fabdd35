import EventDisp.CacheClients
import EventDisp.HttpChains

/-! What the handlers retain. A package keeps the line it was made for, and only a fetch
looks at it: what is looked up for a head, or refused, is what the line asks for. -/
namespace EventDisp.Server

open CString Execution History Outcome

variable {origin http : Http} {server after : Server} {around : Surroundings} {pk : PackagePtr}
  {fetches : PackagePtr → Option (Text × Nat) → Prop} {event : Event}

/-- What has been parsed of the package's line. -/
def HPKG.line (hpkg : HPKG) : Option Text × Option Text × Option Text :=
  (hpkg.met, hpkg.uri, hpkg.ver)

/-- The version of an answer, for those of a request that are known. -/
def versionOf (ver : Text) : Option Nat :=
  if strcmp ver "HTTP/1.0".toList then some 0
  else if strcmp ver "HTTP/1.1".toList then some 1 else none

/-- The file a request asks for and the version of its answer, unless it is a bad one. -/
def HPKG.wanted (hpkg : HPKG) : Option (Text × Nat) :=
  match hpkg.met, hpkg.ver, hpkg.uri with
  | some _, some ver, some uri => (versionOf ver).map (uri, ·)
  | _, _, _ => none

/-- What the handlers may tell when only the given fetches look at lines. -/
def Event.Fits (fetches : PackagePtr → Option (Text × Nat) → Prop) (tasks : List Task) :
    Event → Prop
  | .created _ => False
  | .activated pk => .fetch pk ∈ tasks
  | .asked pk _ (.head uri vern) _ => fetches pk (some (uri, vern))
  | .asked _ _ (.body ..) _ | .accepted _ | .rearmed _ | .finalised _ | .closed _ | .reserved ..
  | .loading .. | .put .. | .cancelled .. | .delivered .. | .aborted _ | .released ..
  | .written .. => True

/-- No child is made, children keep their lines, tasks stay, and only the given fetches look up
heads or refuse a request. -/
structure Retains (fetches : PackagePtr → Option (Text × Nat) → Prop) (http after : Http) :
    Prop where
  packages : ∀ pk hpkg, pk.number ≠ 0 → after.packages pk = some hpkg →
    ∃ old, http.packages pk = some old ∧ hpkg.line = old.line
  told : ∃ more, after.log = http.log ++ more ∧ ∀ event ∈ more, event.Fits fetches after.tasks
  tasks : http.tasks <+: after.tasks
  refuses : ∀ pk data, .write400 pk data ∈ after.aios → .write400 pk data ∈ http.aios ∨
    fetches pk none

private theorem Event.Fits.more {tasks further : List Task} (fits : event.Fits fetches tasks)
    (grown : tasks <+: further) : event.Fits fetches further := by
  cases event with
  | activated pk => exact grown.subset fits
  | asked _ _ use => cases use <;> exact fits
  | accepted | created | rearmed | finalised | closed | reserved | loading | put | cancelled
  | delivered | aborted | released | written => exact fits

theorem Retains.refl (http : Http) : Retains fetches http http :=
  ⟨fun _ hpkg _ there => ⟨hpkg, there, rfl⟩, ⟨[], by simp, nofun⟩, List.prefix_rfl,
    fun _ _ => .inl⟩

theorem Retains.trans {one two three : Http} (first : Retains fetches one two)
    (second : Retains fetches two three) : Retains fetches one three := by
  refine ⟨?_, ?_, first.tasks.trans second.tasks, ?_⟩
  · intro pk hpkg child there
    obtain ⟨middle, found, same⟩ := second.packages pk hpkg child there
    obtain ⟨old, held, also⟩ := first.packages pk middle child found
    exact ⟨old, held, same.trans also⟩
  · obtain ⟨more, grown, fits⟩ := first.told
    obtain ⟨further, longer, still⟩ := second.told
    refine ⟨more ++ further, by rw [longer, grown, List.append_assoc], fun event member => ?_⟩
    rcases List.mem_append.mp member with before | new
    · exact (fits event before).more second.tasks
    · exact still event new
  · intro pk data member
    rcases second.refuses pk data member with before | refused
    · exact first.refuses pk data before
    · exact .inr refused

theorem Retains.emit (kept : Retains fetches origin http) (event : Event)
    (fits : event.Fits fetches http.tasks) : Retains fetches origin (http.emit event) := by
  obtain ⟨packages, ⟨more, grown, still⟩, tasks, refuses⟩ := kept
  refine ⟨packages, ⟨more ++ [event], ?_, ?_⟩, tasks, refuses⟩
  · simp [Http.emit, grown]
  · exact List.forall_mem_append.mpr ⟨still, List.forall_mem_singleton.mpr fits⟩

theorem Retains.enqueue (kept : Retains fetches origin http) (task : Task) :
    Retains fetches origin (http.enqueue task) := by
  have grown : http.tasks <+: (http.enqueue task).tasks := List.prefix_append ..
  obtain ⟨more, longer, still⟩ := kept.told
  exact ⟨kept.packages, ⟨more, longer, fun event member => (still event member).more grown⟩,
    kept.tasks.trans grown, kept.refuses⟩

theorem Retains.issue {aio : Aio} (kept : Retains fetches origin http)
    (refused : ∀ pk data, aio = .write400 pk data → fetches pk none) :
    Retains fetches origin (http.issue aio) := by
  refine ⟨kept.packages, kept.told, kept.tasks, fun pk data member => ?_⟩
  rcases List.mem_append.mp member with before | new
  · exact kept.refuses pk data before
  · exact .inr (refused pk data (List.mem_singleton.mp new).symm)

theorem Retains.setConn (kept : Retains fetches origin http) (conn : Nat) (cn : Conn) :
    Retains fetches origin (http.setConn conn cn) :=
  ⟨kept.packages, kept.told, kept.tasks, kept.refuses⟩

theorem Retains.deleteConn (kept : Retains fetches origin http) (conn : Nat) :
    Retains fetches origin (http.deleteConn conn) :=
  ⟨kept.packages, kept.told, kept.tasks, kept.refuses⟩

/-- A package is changed, but for its line. -/
theorem Retains.setPackage {old : HPKG} (kept : Retains fetches origin http) (hpkg : HPKG)
    (there : http.packages pk = some old) (line : hpkg.line = old.line) :
    Retains fetches origin (http.setPackage pk hpkg) := by
  refine ⟨?_, kept.told, kept.tasks, kept.refuses⟩
  intro other changed child found
  simp only [Http.setPackage, Function.update_apply] at found
  split at found
  · rename_i here
    cases found
    rw [line]
    exact kept.packages other old child (here ▸ there)
  · exact kept.packages other changed child found

/-- The root of a connection is set. -/
theorem Retains.setRoot (kept : Retains fetches origin http) (root : pk.number = 0) (hpkg : HPKG) :
    Retains fetches origin (http.setPackage pk hpkg) := by
  refine ⟨?_, kept.told, kept.tasks, kept.refuses⟩
  intro other changed child found
  have different : other ≠ pk := by
    rintro rfl
    exact child root
  simp only [Http.setPackage, Function.update_apply, if_neg different] at found
  exact kept.packages other changed child found

theorem Retains.deletePackage (kept : Retains fetches origin http) (pk : PackagePtr) :
    Retains fetches origin (http.deletePackage pk) := by
  refine ⟨?_, kept.told, kept.tasks, kept.refuses⟩
  intro other changed child found
  simp only [Http.deletePackage, Function.update_apply] at found
  split at found
  · cases found
  · exact kept.packages other changed child found

/-! The handlers that leave the cache alone. -/

/-- Whatever becomes of the computation, lines are kept. -/
abbrev Retaining (fetches : PackagePtr → Option (Text × Nat) → Prop) (origin : Http)
    (outcome : Except Fault Http) : Prop :=
  Ends (fun _ => True) outcome (Retains fetches origin)

/-- The package that a handler looks up is there. -/
private theorem package_ends (http : Http) (pk : PackagePtr) :
    Ends (fun _ => True) (http.package pk) fun hpkg => http.packages pk = some hpkg := by
  unfold Http.package
  cases http.packages pk <;> trivial

private theorem connection_ends (http : Http) (conn : Nat) :
    Ends (fun _ => True) (http.connection conn) fun cn => http.conns conn = some cn := by
  unfold Http.connection
  cases http.conns conn <;> trivial

private theorem final_retains (kept : Retains fetches origin http) (around : Surroundings)
    (pk : PackagePtr) : Retaining fetches origin (svrHttpFinal around pk http) := by
  unfold svrHttpFinal
  refine (package_ends http pk).bind fun hpkg _ _ => ?_
  have finalised := (kept.deletePackage pk).emit (.finalised pk) trivial
  dsimp only
  split
  · unfold svrConnClose
    refine (connection_ends _ _).bind fun _ _ _ => ?_
    have closed := finalised.emit (.closed pk.conn) trivial
    dsimp only
    split
    · exact closed.deleteConn pk.conn
    · exact closed
  · refine (package_ends _ _).bind fun parent _ there => ?_
    exact ((finalised.setPackage _ there (by rfl)).enqueue _).emit _ trivial
  · exact (finalised.enqueue _).emit _ (List.mem_append_right _ (List.mem_singleton_self _))

private theorem read_retains (kept : Retains fetches origin http) (around : Surroundings)
    (pk : PackagePtr) : Retaining fetches origin (svrHttpRead around pk http) := by
  unfold svrHttpRead
  refine (package_ends http pk).bind fun hpkg _ there => ?_
  refine (connection_ends _ _).bind fun _ _ _ => ?_
  split
  · exact final_retains kept around pk
  · exact (kept.setPackage _ there (by rfl)).issue nofun

private theorem headerWio_retains (kept : Retains fetches origin http) (around : Surroundings)
    (pk : PackagePtr) (cd : CacheData Text) :
    Retaining fetches origin (svrHttpHeaderWio around pk cd http) := by
  unfold svrHttpHeaderWio
  refine (package_ends http pk).bind fun hpkg _ there => ?_
  have begins := kept.setPackage { hpkg with hst := .writing, wst := .head } there rfl
  refine (connection_ends _ _).bind fun _ _ _ => ?_
  split
  · exact final_retains begins around pk
  · split
    · trivial
    · exact (begins.setPackage _ (Function.update_self ..) (by rfl)).issue nofun

/-- Only a request that has been fetched and found to be bad is refused. -/
private theorem write400_retains (kept : Retains fetches origin http) (around : Surroundings)
    (refused : fetches pk none) :
    Retaining fetches origin (svrHttpWrite400 around pk http) := by
  unfold svrHttpWrite400
  refine (package_ends http pk).bind fun hpkg _ there => ?_
  have begins := kept.setPackage
    { hpkg with hst := .writing, wst := .head, hsn := .badRequest400 } there rfl
  refine (connection_ends _ _).bind fun _ _ _ => ?_
  split
  · exact final_retains begins around pk
  · refine (begins.setPackage _ (Function.update_self ..) (by rfl)).issue fun other data same => ?_
    cases same
    exact refused

/-! The handlers that call the cache. -/

/-- Whatever becomes of the computation, lines are kept from the given server on. -/
abbrev Goings (fetches : PackagePtr → Option (Text × Nat) → Prop) (origin : Http)
    (outcome : Except Fault Server) : Prop :=
  Ends (fun _ => True) outcome fun after => Retains fetches origin after.client

private theorem apart_retains {handler : Http → Except Fault Http}
    (retaining : Retaining fetches origin (handler server.client)) :
    Goings fetches origin (apart handler server) :=
  retaining.bind fun _ _ kept => kept

private theorem doneWith_retains (kept : Retains fetches origin server.client) (pk : PackagePtr)
    (key : Key) :
    Ends (fun _ => True) (doneWith pk key server) fun after =>
      Retains fetches origin after.client ∧ after.client.packages = server.client.packages := by
  unfold doneWith
  cases server.cache.doneWith key with
  | error => trivial
  | ok => exact ⟨kept.emit _ trivial, rfl⟩

private theorem cancelled_minds (around : Surroundings) :
    Cache.Minds (Retains fetches) (cancelled around) := by
  intro callback data server
  have delivered (pk : PackagePtr) : Retains fetches server.client
      (emit (.delivered pk false) server).client := (Retains.refl _).emit _ trivial
  cases callback with
  | headerWio pk => exact apart_retains (headerWio_retains (delivered pk) around pk _)
  | bodyWio pk => exact apart_retains (final_retains (delivered pk) around pk)

private theorem finalAio_retains (kept : Retains fetches origin server.client)
    (around : Surroundings) (pk : PackagePtr) :
    Goings fetches origin (svrHttpFinalAio around pk server) := by
  unfold svrHttpFinalAio
  refine (package_ends _ pk).bind fun hpkg _ there => ?_
  refine (connection_ends _ _).bind fun cn _ _ => ?_
  have aborted (cst : ConnST) : Retains fetches origin (emit (.aborted pk)
      { server with client := server.client.setConn pk.conn { cn with cst } }).client :=
    (kept.setConn _ _).emit _ trivial
  have released (cst : ConnST) (key : Key) :
      Goings fetches origin (do
        let server ← doneWith pk key (emit (.aborted pk)
          { server with client := server.client.setConn pk.conn { cn with cst } })
        apart (svrHttpFinal around pk) server) :=
    (doneWith_retains (aborted cst) pk key).bind fun _ _ freed =>
      apart_retains (final_retains freed.1 around pk)
  have cancels (cst : ConnST) (key : Key) :
      Ends (fun _ => True) (Cache.cancelReservation (cancelled around) key (emit (.cancelled pk key)
        (emit (.aborted pk) { server with client := server.client.setConn pk.conn { cn with cst } })))
        fun result => Retains fetches origin result.2.client :=
    (Cache.cancelReservation_client Retains.refl Retains.trans (cancelled_minds around) key _).mono
      fun _ served => ((aborted cst).emit (.cancelled pk key) trivial).trans served
  split
  · trivial
  · split
    · exact apart_retains (final_retains (aborted _) around pk)
    · exact apart_retains (final_retains (aborted _) around pk)
    · dsimp only
      split
      · split
        · trivial
        · exact (cancels _ _).bind fun _ _ kept => kept
      · split
        · trivial
        · exact released _ _
      · split
        · trivial
        · exact released _ _
      · exact apart_retains (final_retains (aborted _) around pk)
    · dsimp only
      split
      · split
        · trivial
        · exact (cancels _ _).bind fun _ _ kept => kept
      · split
        · trivial
        · exact released _ _
      · split
        · trivial
        · exact released _ _
      · exact apart_retains (final_retains (aborted _) around pk)
    · exact apart_retains (final_retains kept around pk)

private theorem bodyWio_retains (kept : Retains fetches origin server.client)
    (around : Surroundings) (pk : PackagePtr) (cd : CacheData Text) :
    Goings fetches origin (svrHttpBodyWio around pk cd server) := by
  unfold svrHttpBodyWio
  refine (package_ends _ pk).bind fun hpkg _ there => ?_
  split
  · exact apart_retains (final_retains kept around pk)
  · refine (connection_ends _ _).bind fun cn _ _ => ?_
    split
    · exact finalAio_retains kept around pk
    · exact (kept.setPackage { hpkg with hst := .writing, wst := .body } there rfl).issue
        nofun

private theorem invoke_minds (around : Surroundings) :
    Cache.Minds (Retains fetches) (invoke around) := by
  intro callback data server
  have delivered (pk : PackagePtr) : Retains fetches server.client
      (emit (.delivered pk data.isCached) server).client := (Retains.refl _).emit _ trivial
  cases callback with
  | headerWio pk => exact apart_retains (headerWio_retains (delivered pk) around pk _)
  | bodyWio pk => exact bodyWio_retains (delivered pk) around pk _

private theorem ask_retains {use : KeyUse} (server : Server)
    (kept : Retains fetches origin server.client)
    (allowed : ∀ uri vern, use = .head uri vern → fetches pk (some (uri, vern)))
    (around : Surroundings) (key : Key) (callback : Callback) :
    Ends (fun _ => True) (ask around pk key use callback server) fun result =>
      Retains fetches origin result.2.client := by
  have told : Retains fetches origin
      (emit (.asked pk key use (lookup server.cache key)) server).client := by
    refine kept.emit _ ?_
    cases use with
    | head uri vern => exact allowed uri vern rfl
    | body => trivial
  exact (Cache.get_client Retains.refl (invoke_minds around) key _ _).mono fun _ => told.trans

private theorem reserveAndAsk_retains {use : KeyUse} (kept : Retains fetches origin server.client)
    (allowed : ∀ uri vern, use = .head uri vern → fetches pk (some (uri, vern)))
    (around : Surroundings) (key : Key) (callback : Callback) (notReserved notQueued : Assertion) :
    Goings fetches origin
      (reserveAndAsk around pk key use callback notReserved notQueued server) := by
  unfold reserveAndAsk
  generalize server.cache.reserve key = result
  obtain ⟨rsvp, cache⟩ := result
  dsimp only
  split
  · trivial
  · have reserved : Retains fetches origin (emit (.reserved pk key) { server with cache }).client :=
      kept.emit _ trivial
    refine (ask_retains _ reserved allowed around key callback).bind fun result _ asked => ?_
    split
    · trivial
    · exact asked

private theorem put_retains (server : Server) (kept : Retains fetches origin server.client)
    (around : Surroundings)
    (pk : PackagePtr) (key : Key) (data : Text) (buf : Option Text) (size : Nat) :
    Ends (fun _ => True) (Cache.put (invoke around) key buf size (emit (.put pk key data) server))
      fun result => Retains fetches origin result.2.client := by
  have told : Retains fetches origin (emit (.put pk key data) server).client := kept.emit _ trivial
  exact (Cache.put_client Retains.refl Retains.trans (invoke_minds around) key buf size _).mono
    fun _ => told.trans

private theorem putHead_retains {old hpkg : HPKG} (kept : Retains fetches origin server.client)
    (there : server.client.packages pk = some old) (line : hpkg.line = old.line)
    (around : Surroundings) (chead : Text) :
    Goings fetches origin (putHead around pk hpkg chead server) := by
  unfold putHead
  split
  · trivial
  · have changed := kept.setPackage
      { hpkg with chead := some chead, cheadSize := chead.length } there line
    refine (put_retains { server with client := _ } changed around pk _ _ _ _).bind
      fun result _ put => ?_
    dsimp only
    split
    · trivial
    · refine (package_ends _ pk).bind fun again _ found => ?_
      exact put.setPackage _ found (by rfl)

private theorem headerRio_retains (kept : Retains fetches origin server.client)
    (around : Surroundings) (pk : PackagePtr) :
    Goings fetches origin (svrHttpHeaderRio around pk server) := by
  unfold svrHttpHeaderRio
  refine (package_ends _ pk).bind fun hpkg _ there => ?_
  have loading (key : Key) : Retains fetches origin (emit (.loading pk key) server).client :=
    kept.emit _ trivial
  dsimp only
  split
  · exact putHead_retains (loading _) there (by rfl) around _
  · split
    · trivial
    · exact putHead_retains (loading _) there (by rfl) around _

private theorem header_retains (server : Server) (pk : PackagePtr)
    (kept : Retains fetches origin server.client)
    (allowed : ∀ hpkg uri, server.client.packages pk = some hpkg → hpkg.uri = some uri →
      fetches pk (some (uri, hpkg.vern))) (around : Surroundings) :
    Goings fetches origin (svrHttpHeader around pk server) := by
  unfold svrHttpHeader
  refine (package_ends _ pk).bind fun hpkg _ there => ?_
  have begins := kept.setPackage { hpkg with hst := .fetching, wst := .head } there rfl
  refine (connection_ends _ _).bind fun _ _ _ => ?_
  split
  · exact apart_retains (final_retains begins around pk)
  · split
    · trivial
    · rename_i uri known
      have seeks (other : Text) (vern : Nat) (same : KeyUse.head uri hpkg.vern = .head other vern) :
          fetches pk (some (other, vern)) := by
        cases same
        exact allowed hpkg uri there known
      have sought := begins.setPackage
        { hpkg with hst := .fetching, wst := .head, headkey := some (headKey uri) }
        (Function.update_self ..) (by rfl)
      refine (ask_retains { server with client := _ } sought seeks around _ _).bind
        fun result _ asked => ?_
      dsimp only
      split
      · exact asked
      · exact (reserveAndAsk_retains asked seeks around _ _ _ _).bind fun _ _ reserved =>
          headerRio_retains reserved around pk

/-- A fetch looks up a head, or refuses the request, as the line asks for. -/
private theorem fetch_retains (kept : Retains fetches origin server.client)
    (allowed : ∀ hpkg, server.client.packages pk = some hpkg → fetches pk hpkg.wanted)
    (around : Surroundings) : Goings fetches origin (svrHttpFetch around pk server) := by
  unfold svrHttpFetch
  refine (package_ends _ pk).bind fun hpkg _ there => ?_
  have begins := kept.setPackage
    { hpkg with hst := .fetching, wst := .head, hsn := .unknown } there rfl
  refine (connection_ends _ _).bind fun _ _ _ => ?_
  have wants := allowed hpkg there
  split
  · exact apart_retains (final_retains kept around pk)
  · have refuses (bad : hpkg.wanted = none) := write400_retains begins around (bad ▸ wants)
    have seeks (vern : Nat) (uri : Text) (good : hpkg.wanted = some (uri, vern))
        (known : hpkg.uri = some uri) :=
      header_retains { server with client := _ } pk
      (begins.setPackage { hpkg with
        hst := .fetching, wst := .head, hsn := .unknown, vern } (Function.update_self ..) (by rfl))
      (fun changed other found named => by
        simp only [Http.setPackage, Function.update_self, Option.some.injEq] at found
        subst found
        cases known.symm.trans named
        exact good ▸ wants) around
    dsimp only
    split
    · rename_i ver uri met version known
      have line : hpkg.wanted = (versionOf ver).map (uri, ·) := by
        simp only [HPKG.wanted, met, version, known]
      unfold versionOf at line
      split
      · rename_i zero
        exact seeks 0 uri (by rw [line, if_pos zero]; rfl) known
      · rename_i later
        split
        · rename_i one
          exact seeks 1 uri (by rw [line, if_neg later, if_pos one]; rfl) known
        · rename_i neither
          exact apart_retains (refuses (by rw [line, if_neg later, if_neg neither]; rfl))
    · rename_i missing
      refine apart_retains (refuses ?_)
      unfold HPKG.wanted
      split
      · rename_i ver uri met version known
        exact (missing _ _ _ met version known).elim
      · rfl

/-- A head is looked up first of all. -/
private theorem header_begins (server : Server) {cn : Conn}
    (found : server.client.conns pk.conn = some cn)
    (writes : cn.closesWrite = false) (around : Surroundings) :
    Ends (fun _ => True) (svrHttpHeader around pk server) fun after => ∃ key use lookup,
      server.client.log ++ [.asked pk key use lookup] <+: after.client.log := by
  unfold svrHttpHeader
  refine (package_ends _ pk).bind fun hpkg _ there => ?_
  refine (connection_ends _ _).bind fun again _ same => ?_
  cases found.symm.trans same
  rw [if_neg (by simp [writes])]
  split
  · trivial
  · rename_i uri known
    let begins := server.client.setPackage pk { hpkg with hst := .fetching, wst := .head }
    let http := begins.setPackage pk
      { hpkg with hst := .fetching, wst := .head, headkey := some (headKey uri) }
    let told := emit (.asked pk (headKey uri) (.head uri hpkg.vern)
      (lookup server.cache (headKey uri))) { server with client := http }
    have minds : Cache.Minds (Retains fun _ _ => True) (invoke around) := invoke_minds around
    refine (Cache.get_client Retains.refl minds (headKey uri) (some (.headerWio pk)) told).bind
      fun result _ asked => ?_
    have follows {after : Server} (kept : Retains (fun _ _ => True) told.client after.client) :
        ∃ key use lookup,
          server.client.log ++ [.asked pk key use lookup] <+: after.client.log := by
      obtain ⟨more, grown, _⟩ := kept.told
      exact ⟨_, _, _, more, grown.symm⟩
    dsimp only
    split
    · exact follows asked
    · refine (reserveAndAsk_retains asked (fun _ _ _ => trivial) around _ _ _ _).bind
        fun _ _ reserved => ?_
      exact (headerRio_retains reserved around pk).mono fun _ => follows

/-- A request is refused by what is going to be written. -/
private theorem write400_begins (http : Http) {cn : Conn}
    (found : http.conns pk.conn = some cn)
    (writes : cn.closesWrite = false) (around : Surroundings) :
    Ends (fun _ => True) (svrHttpWrite400 around pk http) fun after =>
      ∃ data, .write400 pk data ∈ after.aios := by
  unfold svrHttpWrite400
  refine (package_ends http pk).bind fun hpkg _ there => ?_
  refine (connection_ends _ _).bind fun again _ same => ?_
  cases found.symm.trans same
  rw [if_neg (by simp [writes])]
  exact ⟨_, List.mem_append_right _ (List.mem_singleton_self _)⟩

/-- A fetch on a connection that can be written to looks up a head or refuses the request. -/
theorem fetch_begins (server : Server) {cn : Conn}
    (found : server.client.conns pk.conn = some cn)
    (writes : cn.closesWrite = false) (around : Surroundings) :
    Ends (fun _ => True) (svrHttpFetch around pk server) fun after =>
      (∃ key use lookup,
        server.client.log ++ [.asked pk key use lookup] <+: after.client.log) ∨
      ∃ data, .write400 pk data ∈ after.client.aios := by
  unfold svrHttpFetch
  refine (package_ends _ pk).bind fun hpkg _ there => ?_
  refine (connection_ends _ _).bind fun again _ same => ?_
  cases found.symm.trans same
  rw [if_neg (by simp [writes])]
  have refuses (changed : HPKG) : Ends (fun _ => True)
      (apart (svrHttpWrite400 around pk)
        { server with client := server.client.setPackage pk changed }) fun after =>
      ∃ data, .write400 pk data ∈ after.client.aios :=
    (write400_begins (server.client.setPackage pk changed) found writes around).bind
      fun _ _ issued => issued
  have looks (changed further : HPKG) : Ends (fun _ => True)
      (svrHttpHeader around pk { server with
        client := (server.client.setPackage pk changed).setPackage pk further }) fun after =>
      ∃ key use lookup,
        server.client.log ++ [.asked pk key use lookup] <+: after.client.log :=
    header_begins ⟨server.cache, (server.client.setPackage pk changed).setPackage pk further⟩ found writes around
  dsimp only
  split
  · split
    · exact (looks _ _).mono fun _ => .inl
    · split
      · exact (looks _ _).mono fun _ => .inl
      · exact (refuses _).mono fun _ => .inr
  · exact (refuses _).mono fun _ => .inr

private theorem body_retains (kept : Retains fetches origin server.client) (around : Surroundings)
    (pk : PackagePtr) : Goings fetches origin (svrHttpBody around pk server) := by
  unfold svrHttpBody
  refine (package_ends _ pk).bind fun hpkg _ there => ?_
  have begins := kept.setPackage { hpkg with hst := .fetching, wst := .body } there rfl
  refine (connection_ends _ _).bind fun _ _ _ => ?_
  split
  · exact apart_retains (final_retains begins around pk)
  · split
    · trivial
    · rename_i uri _
      have unlike (path : Text) (vern : Nat)
          (same : KeyUse.body uri hpkg.trOffset = .head path vern) :
          fetches pk (some (path, vern)) := by
        cases same
      have sought := begins.setPackage { hpkg with
        hst := .fetching, wst := .body, bodykey := some (bodyKey uri hpkg.trOffset) }
        (Function.update_self ..) (by rfl)
      refine (ask_retains { server with client := _ } sought unlike around _ _).bind
        fun result _ asked => ?_
      dsimp only
      split
      · exact asked
      · refine (reserveAndAsk_retains asked unlike around _ _ _ _).bind fun _ _ reserved => ?_
        refine (package_ends _ pk).bind fun again _ found => ?_
        exact ((reserved.setPackage _ found (by rfl)).emit (.loading pk _) trivial).issue nofun

private theorem headerToBody_retains (kept : Retains fetches origin server.client)
    (around : Surroundings) (pk : PackagePtr) :
    Goings fetches origin (svrHttpHeaderToBodyAio around pk server) := by
  unfold svrHttpHeaderToBodyAio
  refine (package_ends _ pk).bind fun hpkg _ there => ?_
  have begins := kept.setPackage { hpkg with hst := .unknown, wst := .head } there rfl
  dsimp only
  split
  · exact body_retains begins around pk
  all_goals exact apart_retains (final_retains begins around pk)

private theorem bodyRio_retains (kept : Retains fetches origin server.client)
    (around : Surroundings) (pk : PackagePtr) (nbytes : Nat) :
    Goings fetches origin (svrHttpBodyRio around pk nbytes server) := by
  unfold svrHttpBodyRio
  refine (package_ends _ pk).bind fun hpkg _ there => ?_
  split
  · have written (freed : Server) (still : Retains fetches origin freed.client)
        (same : freed.client.packages pk = some hpkg) : Goings fetches origin
        (if nbytes > 0 then
          svrHttpBody around pk { freed with
            client := freed.client.setPackage pk { hpkg with trOffset := hpkg.trOffset + nbytes } }
        else apart (svrHttpFinal around pk)
          { freed with client := freed.client.setPackage pk { hpkg with wst := .unknown } }) := by
      split
      · exact body_retains (still.setPackage _ same (by rfl)) around pk
      · exact apart_retains (final_retains (still.setPackage _ same (by rfl)) around pk)
    dsimp only
    split
    · exact written server kept there
    · exact (doneWith_retains kept pk _).bind fun freed _ did =>
        written freed did.1 (did.2 ▸ there)
  all_goals exact apart_retains (final_retains kept around pk)

private theorem bodyPio_retains (kept : Retains fetches origin server.client)
    (around : Surroundings) (pk : PackagePtr) (buf : Text) (nbytes : Nat) :
    Goings fetches origin (svrHttpBodyPio around pk buf nbytes server) := by
  unfold svrHttpBodyPio
  refine (package_ends _ pk).bind fun hpkg _ there => ?_
  split
  · trivial
  · refine (put_retains server kept around pk _ (buf.take nbytes) _ _).bind fun result _ put => ?_
    dsimp only
    split
    · trivial
    · refine (package_ends _ pk).bind fun again _ found => ?_
      exact put.setPackage _ found (by rfl)

/-! Steps. -/

/-- What a step reads of requests, and on which connection, if it goes on to parse it. -/
def Step.reads (server : Server) : Step → Option (PackagePtr × Text)
  | .complete index (.read bytes _) _ =>
    match server.client.aios[index]? with
    | some (.readRequest pk) =>
      match server.client.conns pk.conn with
      | some cn => if cn.closesWrite || bytes.isEmpty then none else some (pk, bytes)
      | none => none
    | some (.writeHead ..) | some (.write400 ..) | some (.readBody ..) | some (.writeBody ..)
    | none => none
  | .complete _ (.wrote _) _ | .complete _ .failed _ | .accept _ | .run .. => none

/-- The step fetches for the package, whose line asks for this. -/
def Step.Fetches (server : Server) (step : Step) (pk : PackagePtr) (wanted : Option (Text × Nat)) :
    Prop :=
  ∃ index around hpkg, step = .run index around ∧
    server.client.tasks[index]? = some (.fetch pk) ∧ server.client.packages pk = some hpkg ∧
    hpkg.wanted = wanted

private theorem parseAio_retains {bytes : Text} (kept : Retains fetches origin server.client)
    (unparsed : ∀ cn, server.client.conns pk.conn = some cn → cn.closesWrite = true ∨ bytes = [])
    (around : Surroundings) : Goings fetches origin (svrHttpParseAio around pk bytes server) := by
  unfold svrHttpParseAio
  refine (package_ends _ pk).bind fun hpkg _ there => ?_
  refine (connection_ends _ _).bind fun cn _ found => ?_
  split
  · exact apart_retains (final_retains kept around pk)
  · rename_i writes
    obtain rfl := (unparsed cn found).resolve_left writes
    exact finalAio_retains (kept.setPackage _ there (by rfl)) around pk

/-- The handler of a completion keeps lines, unless it parses what was read. -/
private theorem handle_retains (kept : Retains fetches origin server.client)
    (around : Surroundings) {aio : Aio} {completion : Completion}
    (unparsed : ∀ pk bytes stale, aio = .readRequest pk → completion = .read bytes stale →
      ∀ cn, server.client.conns pk.conn = some cn → cn.closesWrite = true ∨ bytes = []) :
    Goings fetches origin (handle around server aio completion) := by
  have written (pk : PackagePtr) (part : HttpWST) (data : Text) (count : Nat) :
      Retains fetches origin (emit (.written pk part data count) server).client :=
    kept.emit _ trivial
  cases aio with
  | readRequest pk =>
    cases completion with
    | read bytes stale => exact parseAio_retains kept (unparsed pk bytes stale rfl rfl) around
    | wrote | failed => exact finalAio_retains kept around pk
  | readBody pk =>
    cases completion with
    | read => exact bodyPio_retains kept around pk _ _
    | wrote | failed => exact finalAio_retains kept around pk
  | writeHead pk data =>
    cases completion with
    | wrote nbytes => exact headerToBody_retains (written ..) around pk
    | read | failed => exact finalAio_retains kept around pk
  | write400 pk data | writeBody pk data =>
    cases completion with
    | wrote nbytes => exact bodyRio_retains (written ..) around pk nbytes
    | read | failed => exact finalAio_retains kept around pk

/-- Everything but the cache, when a step has taken up its task or call. -/
def takenUp (server : Server) : Step → Http
  | .accept _ => server.client
  | .run index _ => { server.client with tasks := server.client.tasks.eraseIdx index }
  | .complete index _ _ => { server.client with aios := server.client.aios.eraseIdx index }

/-- What a step retains that parses nothing. -/
theorem exec_retains {step : Step} (ran : exec server step = .ok after)
    (unread : step.reads server = none) :
    Retains (step.Fetches server) (takenUp server step) after.client := by
  suffices goings : Goings (step.Fetches server) (takenUp server step) (exec server step) from
    goings.returned ran
  cases step with
  | accept around =>
    refine apart_retains (read_retains ?_ around ⟨server.client.nextConn, 0⟩)
    have opened : Retains (Step.Fetches server (.accept around)) server.client
        (Http.setConn { server.client with nextConn := server.client.nextConn + 1 }
          server.client.nextConn { cst := .connected, packages := 1 }) :=
      ⟨fun _ hpkg _ there => ⟨hpkg, there, rfl⟩, ⟨[], (List.append_nil _).symm, nofun⟩,
        List.prefix_rfl, fun _ _ => .inl⟩
    exact (opened.setRoot rfl _).emit _ trivial
  | run index around =>
    simp only [exec]
    cases found : server.client.tasks[index]? with
    | none =>
      rw [takenUp, List.eraseIdx_of_length_le (List.getElem?_eq_none_iff.mp found)]
      exact Retains.refl _
    | some task =>
      cases task with
      | read pk => exact apart_retains (read_retains (.refl _) around pk)
      | fetch pk =>
        refine fetch_retains (.refl _) (fun hpkg there => ?_) around
        exact ⟨index, around, hpkg, rfl, found, there, rfl⟩
  | complete index completion around =>
    simp only [exec]
    cases found : server.client.aios[index]? with
    | none =>
      rw [takenUp, List.eraseIdx_of_length_le (List.getElem?_eq_none_iff.mp found)]
      exact Retains.refl _
    | some aio =>
      refine handle_retains (.refl _) around fun pk bytes stale same read cn known => ?_
      subst same read
      have there : server.client.conns pk.conn = some cn := known
      simp only [Step.reads, found, there] at unread
      split at unread
      · rename_i closed
        simpa using closed
      · cases unread

end EventDisp.Server
