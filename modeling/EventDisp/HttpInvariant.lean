import EventDisp.General.Token
import EventDisp.HttpHistory
import EventDisp.HttpParsing

/-! What holds of the whole server between two steps, and inside one. Every
connection passes one token from work to work; a key is loaded by one package at a
time; the history tells what every package and every slot of the cache is at. -/
namespace EventDisp.Server

/-- The callbacks that wait for a key in a reserved slot. -/
def queues (cache : Cache Key Text Callback) (key : Key) : List Callback :=
  match cache.find key with
  | some entry => if entry.isReserved then entry.queue else []
  | none => []

/-- How often the work waits in the queues. -/
def Work.queued (waiting : Key → List Callback) : Work → Nat
  | .wait key callback => (waiting key).count callback
  | .read _ | .fetch _ | .readRequest _ | .writeHead .. | .write400 _ | .writeBody _ => 0

/-- How often the work is pending. -/
def pending (waiting : Key → List Callback) (http : Http) (work : Work) : Nat :=
  (works http).count work + work.queued waiting

/-- Of the connection nothing is pending but the given work. -/
abbrev Only (waiting : Key → List Callback) (http : Http) (conn : Nat) (work : Option Work) :
    Prop :=
  Token.Sole (fun work : Work => work.pk.conn) (pending waiting http) conn work

/-- Nobody is working on the connection. -/
def Rests (waiting : Key → List Callback) (http : Http) (conn : Nat) : Prop :=
  (∃ work, Only waiting http conn (some work) ∧ work.pk.conn = conn ∧ Ready http work) ∨
    Only waiting http conn none ∧ Shut http conn

/-- All connections but that of the package at hand are at rest. -/
structure Keeps (hand : Option PackagePtr) (waiting : Key → List Callback) (http : Http) :
    Prop where
  held : ∀ pk, hand = some pk → Only waiting http pk.conn none
  rests : ∀ conn, (∀ pk, hand = some pk → pk.conn ≠ conn) → Rests waiting http conn

def Aio.reader : Aio → Option PackagePtr
  | .readBody pk _ _ => some pk
  | .readRequest _ | .writeHead .. | .write400 .. | .writeBody .. => none

/-- The packages for which a part of a body is being read. -/
def readers (http : Http) : List PackagePtr := http.aios.filterMap Aio.reader

/-- What a slot holds. -/
def contents (entry : CacheEntry Text Callback) : Option Text := entry.data.map (·.take entry.size)

/-- The cache and the history agree about a key. -/
structure Agrees (waiting : Key → List Callback) (cache : Cache Key Text Callback) (http : Http)
    (key : Key) : Prop where
  reserved : (∃ entry, cache.find key = some entry ∧ entry.isReserved = true) ↔
    (slot key http.log).loader.isSome = true
  waiting : waiting key = queues cache key
  waiters : (queues cache key).map Callback.pk = (slot key http.log).waiters
  loads : ∀ pk, (slot key http.log).loader = some pk →
    pk ∈ readers http ∧ (queues cache key).head? = some (.bodyWio pk)
  stored : ∀ entry, cache.find key = some entry → contents entry = (slot key http.log).stored
  absent : cache.find key = none → (slot key http.log).stored = none

/-- The cache and the history agree about every key but the one being loaded now. -/
structure Loads (loading : Option Key) (waiting : Key → List Callback)
    (cache : Cache Key Text Callback) (http : Http) :
    Prop where
  agrees : ∀ key, loading ≠ some key → Agrees waiting cache http key
  reads : ∀ pk ∈ readers http, ∃ key, loading ≠ some key ∧ (slot key http.log).loader = some pk
  distinct : (readers http).Nodup

/-- The package is as the history tells. -/
structure Told (log : List Event) (pk : PackagePtr) (hpkg : HPKG) : Prop where
  offset : hpkg.trOffset = (story pk log).streamed.length
  asked : ∀ key use, (story pk log).ask = some (key, use) → hpkg.uri = some use.uri
  head : ∀ key uri vern, (story pk log).ask = some (key, .head uri vern) → hpkg.headkey = some key
  body : ∀ key uri offset, (story pk log).ask = some (key, .body uri offset) →
    hpkg.bodykey = some key
  unasked : hpkg.headkey = none → (story pk log).ask = none
  opened : ∀ path, hpkg.hfd = some path → hpkg.uri = some path

/-- What the history tells of a read or write that is going on. -/
def Aio.Told (log : List Event) : Aio → Prop
  | .readRequest _ => True
  | .writeHead pk data => ∃ key uri vern, (story pk log).ask = some (key, .head uri vern) ∧
      (slot key log).stored = some data ∧ 0 < (story pk log).references key
  | .write400 pk data => (story pk log).ask = none ∧ data = answer400
  | .readBody pk hfd offset => ∃ key uri, (story pk log).ask = some (key, .body uri offset) ∧
      (slot key log).loader = some pk ∧ ∀ path, hfd = some path → path = uri
  | .writeBody pk data =>
    ∃ key uri, (story pk log).ask = some (key, .body uri (story pk log).streamed.length) ∧
      (slot key log).stored = some data ∧ 0 < (story pk log).references key

/-- What the history tells of a callback that waits. -/
def Callback.Told (log : List Event) (key : Key) : Callback → Prop
  | .headerWio pk => ∃ uri vern, (story pk log).ask = some (key, .head uri vern)
  | .bodyWio pk => ∃ uri, (story pk log).ask = some (key, .body uri (story pk log).streamed.length)

/-- The history tells what everything but the package at hand is at. -/
structure Tells (hand : Option PackagePtr) (waiting : Key → List Callback) (http : Http) :
    Prop where
  packages : ∀ pk hpkg, hand ≠ some pk → http.packages pk = some hpkg → Told http.log pk hpkg
  aios : ∀ aio ∈ http.aios, aio.Told http.log
  waits : ∀ key, ∀ callback ∈ waiting key, callback.Told http.log key
  unmade : ∀ pk, .created pk ∉ http.log → (story pk http.log).ask = none ∧
    (story pk http.log).streamed = []
  conns : ∀ conn cn, http.conns conn = some cn → cn.cst = status conn http.log
  known : ∀ event ∈ http.log, .accepted event.conn ∈ http.log
  ahead : ∀ conn, .accepted conn ∈ http.log → conn < http.nextConn

/-- The invariant inside a step, but for the references: which package is at hand,
which key is being loaded, and which callbacks are yet to be served. -/
structure Lives (good : KeyUse → Text → Prop) (hand : Option PackagePtr) (loading : Option Key)
    (waiting : Key → List Callback) (cache : Cache Key Text Callback) (http : Http) : Prop where
  keeps : Keeps hand waiting http
  loads : Loads loading waiting cache http
  tells : Tells hand waiting http
  lawful : History.Throughout (Lawful good) http.log

/-- The key of the slot a write holds a reference to. -/
def Aio.key (log : List Event) : Aio → Option Key
  | .writeHead pk _ | .writeBody pk _ => (story pk log).ask.map Prod.fst
  | .readRequest _ | .write400 .. | .readBody .. => none

/-- The keys to whose slots references are held. -/
def held (http : Http) : List Key := http.aios.filterMap (Aio.key http.log)

/-- The references suffice for the writes, no slot can be evicted, and nothing that was
freed is used: who waits for a key has not been deleted. -/
structure Stocked (cache : Cache Key Text Callback) (http : Http) : Prop where
  quota : cache.sizeQuota = maxCacheSize
  currentSize : cache.currentSize = 0
  freeList : cache.freeList.nodes = []
  entries : ∀ key entry, cache.find key = some entry →
    entry.freeListRef = none ∧ 1 + (held http).count key ≤ entry.refCount
  strays : cache.strays = 0
  live : ∀ key entry, cache.find key = some entry → entry.isReserved = true → entry.deleted = 0

/-- The invariant between two steps. -/
def Sound (good : KeyUse → Text → Prop) (server : Server) : Prop :=
  Lives good none none (queues server.cache) server.cache server.client ∧
    Stocked server.cache server.client

variable {http after : Http} {conn : Nat} {pk other : PackagePtr} {key : Key}
  {log events : List Event}
variable {event : Event} {hand : Option PackagePtr} {waiting rest : Key → List Callback}
  {tasks : List Task}
variable {aios : List Aio} {work : Work} {cache : Cache Key Text Callback} {loading : Option Key}
  {hpkg : HPKG}
variable {good : KeyUse → Text → Prop} {reason : Prop} {issues : Aio → Prop} {callback : Callback}
  {cn : Conn}

/-! Tokens. -/

/-- Every owner's works are counted as they are added. -/
theorem Moves.pending (moves : Moves conn http after tasks aios events) (work : Work) :
    pending waiting after work =
      pending waiting http work + (tasks.map Task.work).count work + (aios.filterMap Aio.work).count
      work := by
  unfold Server.pending works
  rw [moves.tasks, moves.aios, List.map_append, List.filterMap_append]
  simp only [List.count_append]
  omega

theorem Rests.same (rests : Rests waiting http conn) (same : Same conn http after)
    (counts : ∀ work : Work, work.pk.conn = conn →
      pending rest after work = pending waiting http work) :
    Rests rest after conn := by
  rcases rests with ⟨work, only, own, ready⟩ | ⟨only, shut⟩
  · refine .inl ⟨work, only.apart counts, own, ready.same ?_⟩
    rw [own]
    exact same
  · exact .inr ⟨only.apart counts, shut.same same⟩

/-- The connection of the package at hand changes, and nothing becomes pending. -/
theorem Keeps.same (keeps : Keeps (some pk) waiting http)
    (same : ∀ other, other ≠ pk.conn → Same other http after)
    (counts : ∀ work, pending waiting after work = pending waiting http work) :
    Keeps (some pk) waiting after := by
  refine ⟨fun other hand => (keeps.held other hand).apart fun work _ => counts work, ?_⟩
  intro other apart
  exact (keeps.rests other apart).same (same other fun here => apart pk rfl here.symm) fun work _ =>
    counts work

/-- The work of the package at hand is handed out. -/
theorem Keeps.give (keeps : Keeps (some pk) rest http)
    (same : ∀ other, other ≠ pk.conn → Same other http after) (own : work.pk.conn = pk.conn)
    (ready : Ready after work)
    (more : Token.More (pending rest http) (pending waiting after) work) :
    Keeps none waiting after := by
  refine ⟨nofun, ?_⟩
  intro other _
  by_cases here : other = pk.conn
  · subst here
    exact .inl ⟨work, (keeps.held pk rfl).give more, own, ready⟩
  · have rests := keeps.rests other fun pk' hand => by
      cases hand
      intro same
      exact here same.symm
    exact rests.same (same other here) (more.apart (fun work : Work => work.pk.conn) fun same =>
      here (same.symm.trans own))

theorem Keeps.passes (keeps : Keeps (some pk) waiting http)
    (passes : Passes reason issues pk http after) :
    Keeps none waiting after := by
  cases passes with
  | task task events own moves ends ready =>
    refine keeps.give (fun other different => moves.same different) own ready fun work => ?_
    rw [moves.pending work, List.map_singleton, List.count_singleton]
    simp
  | aio aio work events own shows issued moves ends ready =>
    refine keeps.give (fun other different => moves.same different) ?_ ready fun other => ?_
    · rw [Aio.shown shows, own]
    · rw [moves.pending other]
      simp [shows, List.count_singleton]
  | closes events moves ends shut =>
    have still := keeps.same (fun other different => moves.same different) fun work => by
      rw [moves.pending work]
      rfl
    refine ⟨nofun, ?_⟩
    intro other _
    by_cases here : other = pk.conn
    · subst here
      exact .inr ⟨still.held _ rfl, shut⟩
    · apply still.rests other
      intro pk' hand
      cases hand
      intro same
      exact here same.symm

/-- A work is taken up, and its package with it. -/
theorem Keeps.take (keeps : Keeps none waiting http) (same : ∀ conn, Same conn http after)
    (more : Token.More (pending rest after) (pending waiting http) work) :
    Ready after work ∧ Keeps (some work.pk) rest after := by
  have taken : ∀ held, Only waiting http work.pk.conn held →
      held = some work ∧ Only rest after work.pk.conn none := fun held only => only.take more rfl
  have rests := keeps.rests work.pk.conn nofun
  refine ⟨?_, ?_, ?_⟩
  · rcases rests with ⟨held, only, own, ready⟩ | ⟨only, _⟩
    · obtain ⟨same', _⟩ := taken _ only
      cases same'
      exact ready.same (same _)
    · obtain ⟨impossible, _⟩ := taken _ only
      cases impossible
  · intro pk hand
    cases hand
    rcases rests with ⟨held, only, own, ready⟩ | ⟨only, _⟩
    · exact (taken _ only).2
    · exact (taken _ only).2
  · intro conn apart
    have different : work.pk.conn ≠ conn := apart work.pk rfl
    have elsewhere := more.apart (fun work : Work => work.pk.conn) different
    exact (keeps.rests conn nofun).same (same conn) fun other own => (elsewhere other own).symm

/-- Nothing is pending for the connection of the package at hand. -/
theorem Keeps.idle (keeps : Keeps (some pk) waiting http) (own : work.pk.conn = pk.conn) :
    pending waiting http work = 0 := by
  simpa using keeps.held pk rfl work own

/-- The package at hand reads and writes nothing but perhaps a part of a body. -/
theorem Keeps.idleAio (keeps : Keeps (some pk) waiting http) {aio : Aio} (member : aio ∈ http.aios)
    (shows : aio.work = some work) : aio.pk.conn ≠ pk.conn := by
  intro own
  have none' := keeps.idle ((congrArg PackagePtr.conn (Aio.shown shows)).trans own)
  have present : 0 < (works http).count work :=
    List.count_pos_iff.mpr (List.mem_append_right _ (List.mem_filterMap.mpr ⟨aio, member, shows⟩))
  unfold pending at none'
  omega

/-- The package at hand does not wait. -/
theorem Keeps.idleWait (keeps : Keeps (some pk) waiting http) (member : callback ∈ waiting key) :
    callback.pk.conn ≠ pk.conn := by
  intro own
  have none' : pending waiting http (.wait key callback) = 0 := keeps.idle own
  have present : 0 < (waiting key).count callback := List.count_pos_iff.mpr member
  simp only [pending, Work.queued] at none'
  omega

end EventDisp.Server
