import EventDisp.General.History
import EventDisp.General.Outcome
import EventDisp.HttpServer

/-! The packages of one connection: the root that reads requests, and the children
made for them, which answer one after the other. At any time exactly one of them
is being worked on. -/
namespace EventDisp.Server

def Callback.pk : Callback → PackagePtr
  | .headerWio pk | .bodyWio pk => pk

/-- The one thing a connection is waiting for. The reading of a part of the body
is not counted: who reads also waits in the cache. -/
inductive Work where
  | read (pk : PackagePtr)
  | fetch (pk : PackagePtr)
  | readRequest (pk : PackagePtr)
  | writeHead (pk : PackagePtr) (data : Text)
  | write400 (pk : PackagePtr)
  | writeBody (pk : PackagePtr)
  /-- In the queue of a reserved slot of the cache. -/
  | wait (key : Key) (callback : Callback)
  deriving DecidableEq, Repr

def Work.pk : Work → PackagePtr
  | .read pk | .fetch pk | .readRequest pk | .writeHead pk _ | .write400 pk | .writeBody pk => pk
  | .wait _ callback => callback.pk

def Work.waits : Work → Bool
  | .wait .. => true
  | .read _ | .fetch _ | .readRequest _ | .writeHead .. | .write400 _ | .writeBody _ => false

def Task.work : Task → Work
  | .read pk => .read pk
  | .fetch pk => .fetch pk

def Aio.pk : Aio → PackagePtr
  | .readRequest pk | .writeHead pk _ | .write400 pk _ | .readBody pk _ _ | .writeBody pk _ => pk

def Aio.work : Aio → Option Work
  | .readRequest pk => some (.readRequest pk)
  | .writeHead pk data => some (.writeHead pk data)
  | .write400 pk _ => some (.write400 pk)
  | .writeBody pk _ => some (.writeBody pk)
  | .readBody .. => none

/-- The tasks and the reads and writes that are pending. -/
def works (http : Http) : List Work := http.tasks.map Task.work ++ http.aios.filterMap Aio.work

def Event.created? : Event → Option PackagePtr
  | .created pk => some pk
  | _ => none

def Event.activated? : Event → Option PackagePtr
  | .activated pk => some pk
  | _ => none

def Event.finalised? : Event → Option PackagePtr
  | .finalised pk => some pk
  | _ => none

/-- The numbers of a connection's packages in one kind of event, in order. -/
def numbers (kind : Event → Option PackagePtr) (conn : Nat) (log : List Event) : List Nat :=
  log.filterMap fun event => (kind event).bind fun pk =>
    if pk.conn = conn then some pk.number else none

@[simp] theorem numbers_append (kind : Event → Option PackagePtr) (conn : Nat)
    (log more : List Event) :
    numbers kind conn (log ++ more) = numbers kind conn log ++ numbers kind conn more :=
  List.filterMap_append ..

@[simp] theorem numbers_nil (kind : Event → Option PackagePtr) (conn : Nat) :
    numbers kind conn [] = [] := rfl

@[simp] theorem numbers_cons (kind : Event → Option PackagePtr) (conn : Nat) (event : Event)
    (log : List Event) :
    numbers kind conn (event :: log) =
      ((kind event).bind fun pk => if pk.conn = conn then some pk.number else none).toList ++
      numbers kind conn log := by
  unfold numbers
  rw [List.filterMap_cons]
  split <;> simp_all

abbrev createdOf := numbers Event.created?
abbrev activatedOf := numbers Event.activated?
abbrev finalisedOf := numbers Event.finalised?

theorem mem_numbers {kind : Event → Option PackagePtr} {conn number : Nat} {log : List Event} :
    number ∈ numbers kind conn log ↔ ∃ event ∈ log, kind event = some ⟨conn, number⟩ := by
  unfold numbers
  rw [List.mem_filterMap]
  refine exists_congr fun event => and_congr_right fun _ => ?_
  cases kind event with
  | none => simp
  | some pk => simp [PackagePtr.ext_iff, eq_comm]

theorem mem_createdOf {conn number : Nat} {log : List Event} :
    number ∈ createdOf conn log ↔ .created ⟨conn, number⟩ ∈ log := by
  rw [mem_numbers]
  refine ⟨fun ⟨event, member, kind⟩ => ?_, fun member => ⟨_, member, rfl⟩⟩
  cases event <;> cases kind
  exact member

theorem mem_finalisedOf {conn number : Nat} {log : List Event} :
    number ∈ finalisedOf conn log ↔ .finalised ⟨conn, number⟩ ∈ log := by
  rw [mem_numbers]
  refine ⟨fun ⟨event, member, kind⟩ => ?_, fun member => ⟨_, member, rfl⟩⟩
  cases event <;> cases kind
  exact member

/-- The root goes on reading only when all children made before are deleted. -/
def Rearms (conn : Nat) (earlier : List Event) (event : Event) : Prop :=
  event = .rearmed ⟨conn, 0⟩ → finalisedOf conn earlier = createdOf conn earlier

/-- Nothing has been done for the package since `svr_http_parse` made it. -/
structure HPKG.Fresh (hpkg : HPKG) : Prop where
  chead : hpkg.chead = none
  headkey : hpkg.headkey = none
  bodykey : hpkg.bodykey = none
  hfd : hpkg.hfd = none
  trOffset : hpkg.trOffset = 0

/-- The packages of a connection when `done` children are deleted and `active` have
been activated: the root, and the children that are left, linked in order. -/
structure Line (http : Http) (conn : Nat) (cn : Conn) (done active : Nat) : Prop where
  remaining : done < cn.packages
  accepted : .accepted conn ∈ http.log
  opened : .closed conn ∉ http.log
  created : createdOf conn http.log = List.range' 1 (cn.packages - 1)
  activated : activatedOf conn http.log = List.range' 1 active
  finalised : finalisedOf conn http.log = List.range' 1 done
  rearms : History.Throughout (Rearms conn) http.log
  root : ∃ root, http.packages ⟨conn, 0⟩ = some root ∧ root.ppg = none
  child : ∀ number, done < number → number < cn.packages → ∃ hpkg,
    http.packages ⟨conn, number⟩ = some hpkg ∧
    hpkg.ppg = some ⟨conn, 0⟩ ∧ hpkg.nsg = if number + 1 < cn.packages then some
    ⟨conn, number + 1⟩ else none
  fresh : ∀ number hpkg, active < number → http.packages ⟨conn, number⟩ = some hpkg → hpkg.Fresh
  gone : ∀ number, 0 < number → number ≤ done → http.packages ⟨conn, number⟩ = none
  beyond : ∀ number, cn.packages ≤ number → http.packages ⟨conn, number⟩ = none

/-- The root knows its last child. -/
def Tied (http : Http) (conn : Nat) (cn : Conn) (done : Nat) : Prop :=
  ∀ root, http.packages ⟨conn, 0⟩ = some root →
    root.lcg = if done + 1 < cn.packages then some ⟨conn, cn.packages - 1⟩ else none

/-- The package whose turn it is: the first child that is left, or the root. -/
def turn (cn : Conn) (done : Nat) : Nat := if done + 1 < cn.packages then done + 1 else 0

/-- How many children have been activated once the first one left is. -/
def activeUpTo (cn : Conn) (done : Nat) : Nat := min (done + 1) (cn.packages - 1)

/-- It is the package's turn. -/
def Runs (http : Http) (pk : PackagePtr) (cn : Conn) (done : Nat) : Prop :=
  http.conns pk.conn = some cn ∧ Line http pk.conn cn done (activeUpTo cn done) ∧
    Tied http pk.conn cn done ∧
    pk.number = turn cn done

/-- The connection can be read from, and unless writing failed be written to. -/
def Conn.Serves (cn : Conn) : Prop := cn.cst = .connected ∨ cn.cst = .closingW

/-- The status that `svr_http_header_wio` reads from a head. -/
def statusOf (head : Text) : HttpSN :=
  if CString.strncmp (head.drop 9) "200".toList 3 then .ok200
  else if CString.strncmp (head.drop 9) "404".toList 3 then .notFound404
  else .unknown

/-- The state of a package that is waiting for the work. -/
def Fits (cn : Conn) (hpkg : HPKG) : Work → Prop
  | .read pk => pk.number = 0
  | .readRequest pk => pk.number = 0 ∧ hpkg.hst = .reading
  | .fetch pk => pk.number ≠ 0 ∧ hpkg.Fresh
  | .writeHead pk data =>
    pk.number ≠ 0 ∧ cn.cst = .connected ∧ hpkg.hst = .writing ∧ hpkg.wst = .head ∧
    (statusOf data = .ok200 → hpkg.hsn = .ok200) ∧ hpkg.headkey.isSome = true
  | .write400 pk =>
    pk.number ≠ 0 ∧ cn.cst = .connected ∧ hpkg.hst = .writing ∧ hpkg.wst = .head ∧
      hpkg.headkey = none
  | .writeBody pk => pk.number ≠ 0 ∧ cn.cst = .connected ∧ hpkg.hst = .writing ∧ hpkg.wst = .body ∧
    hpkg.bodykey.isSome = true
  | .wait key (.headerWio pk) =>
    pk.number ≠ 0 ∧ cn.cst = .connected ∧ hpkg.hst = .fetching ∧ hpkg.wst = .head ∧
    hpkg.headkey = some key
  | .wait key (.bodyWio pk) =>
    pk.number ≠ 0 ∧ cn.cst = .connected ∧ hpkg.hst = .fetching ∧ hpkg.wst = .body ∧
    hpkg.bodykey = some key

/-- The connection is waiting for the work, and for nothing else. -/
def Ready (http : Http) (work : Work) : Prop :=
  ∃ cn done hpkg, Runs http work.pk cn done ∧ cn.Serves ∧ http.packages work.pk = some hpkg ∧
    Fits cn hpkg work

/-- The connection is closed, or there is none yet. -/
structure Shut (http : Http) (conn : Nat) : Prop where
  packages : ∀ number, http.packages ⟨conn, number⟩ = none
  history : ∃ made, createdOf conn http.log = List.range' 1 made ∧
    activatedOf conn http.log = List.range' 1 made ∧
    (.accepted conn ∈ http.log ∧ .closed conn ∈ http.log ∧
      finalisedOf conn http.log = List.range' 1 made ++ [0] ∨
      .accepted conn ∉ http.log ∧ .closed conn ∉ http.log ∧ made = 0 ∧
      finalisedOf conn http.log = [])
  rearms : History.Throughout (Rearms conn) http.log

/-- The connection an event is about. -/
def Event.conn : Event → Nat
  | .accepted conn | .closed conn => conn
  | .created pk | .activated pk | .rearmed pk | .finalised pk | .aborted pk | .written pk _ _ _
  | .delivered pk _ => pk.conn
  | .asked pk _ _ _ | .reserved pk _ | .loading pk _ | .put pk _ _ | .cancelled pk _
  | .released pk _ => pk.conn

/-- The event is about which packages there are, and not about what they do. -/
def Event.apart : Event → Bool
  | .accepted _ | .closed _ | .created _ | .activated _ | .rearmed _ | .finalised _ => true
  | .asked .. | .reserved .. | .loading .. | .put .. | .cancelled .. | .delivered .. | .released ..
  | .aborted _ | .written .. => false

/-- The events of the connection are about what its packages do. -/
def Silent (conn : Nat) (events : List Event) : Prop :=
  ∀ event ∈ events, event.conn = conn → event.apart = false

theorem Silent.numbers {conn : Nat} {events : List Event} (silent : Silent conn events)
    (kind : Event → Option PackagePtr)
    (about : ∀ event pk, kind event = some pk → event.conn = pk.conn ∧ event.apart = true) :
    numbers kind conn events = [] := by
  unfold Server.numbers
  rw [List.filterMap_eq_nil_iff]
  intro event member
  cases shown : kind event with
  | none => rfl
  | some pk =>
    obtain ⟨same, apart⟩ := about event pk shown
    have elsewhere := silent event member
    rw [same, apart] at elsewhere
    simpa using elsewhere

/-- A step that leaves the packages of a connection alone. -/
structure Same (conn : Nat) (http after : Http) : Prop where
  conns : after.conns conn = http.conns conn
  packages : ∀ number, after.packages ⟨conn, number⟩ = http.packages ⟨conn, number⟩
  log : ∃ events, after.log = http.log ++ events ∧ Silent conn events

variable {http after : Http} {conn : Nat} {cn : Conn} {done active : Nat}

private theorem Same.history (same : Same conn http after) :
    createdOf conn after.log = createdOf conn http.log ∧
    activatedOf conn after.log = activatedOf conn http.log ∧
      finalisedOf conn after.log = finalisedOf conn http.log ∧
      (.accepted conn ∈ after.log ↔ .accepted conn ∈ http.log) ∧
      (.closed conn ∈ after.log ↔ .closed conn ∈ http.log) ∧
      (History.Throughout (Rearms conn) http.log → History.Throughout (Rearms conn) after.log) := by
  obtain ⟨events, shape, silent⟩ := same.log
  have created := silent.numbers Event.created? fun event pk shown => by
    cases event <;> cases shown; exact ⟨rfl, rfl⟩
  have activated := silent.numbers Event.activated? fun event pk shown => by
    cases event <;> cases shown; exact ⟨rfl, rfl⟩
  have finalised := silent.numbers Event.finalised? fun event pk shown => by
    cases event <;> cases shown; exact ⟨rfl, rfl⟩
  refine ⟨?_, ?_, ?_, ?_, ?_, ?_⟩
  · simp [shape, created]
  · simp [shape, activated]
  · simp [shape, finalised]
  · rw [shape, List.mem_append]
    exact or_iff_left fun now => nomatch silent _ now rfl
  · rw [shape, List.mem_append]
    exact or_iff_left fun now => nomatch silent _ now rfl
  · intro before
    rw [shape]
    apply before.append
    intro event member earlier same
    subst same
    exact nomatch silent _ member rfl

theorem Line.same (line : Line http conn cn done active) (same : Same conn http after) :
    Line after conn cn done active := by
  obtain ⟨created, activated, finalised, accepted, closed, rearms⟩ := same.history
  refine ⟨line.remaining, accepted.mpr line.accepted, fun now => line.opened (closed.mp now),
    created.trans line.created,
    activated.trans line.activated, finalised.trans line.finalised, rearms line.rearms, ?_, ?_, ?_,
    ?_, ?_⟩
  · rw [same.packages]
    exact line.root
  · intro number
    rw [same.packages]
    exact line.child number
  · intro number
    rw [same.packages]
    exact line.fresh number
  · intro number
    rw [same.packages]
    exact line.gone number
  · intro number
    rw [same.packages]
    exact line.beyond number

theorem Runs.same {pk : PackagePtr} (runs : Runs http pk cn done) (same : Same pk.conn http after) :
    Runs after pk cn done := by
  obtain ⟨found, line, tied, turn⟩ := runs
  refine ⟨same.conns.trans found, line.same same, fun root held => tied root ?_, turn⟩
  rw [← same.packages, held]

theorem Ready.same {work : Work} (ready : Ready http work) (same : Same work.pk.conn http after) :
    Ready after work := by
  obtain ⟨cn, done, hpkg, runs, serves, held, fits⟩ := ready
  exact ⟨cn, done, hpkg, runs.same same, serves, (same.packages _).trans held, fits⟩

theorem Shut.same (shut : Shut http conn) (same : Same conn http after) : Shut after conn := by
  obtain ⟨created, activated, finalised, accepted, closed, rearms⟩ := same.history
  refine ⟨fun number => (same.packages number).trans (shut.packages number), ?_, rearms shut.rearms⟩
  rw [created, activated, finalised, accepted, closed]
  exact shut.history

/-- A package goes on with the same request. -/
structure HPKG.Like (old hpkg : HPKG) : Prop where
  uri : hpkg.uri = old.uri
  trOffset : hpkg.trOffset = old.trOffset
  headkey : hpkg.headkey = old.headkey
  bodykey : hpkg.bodykey = old.bodykey
  hfd : hpkg.hfd = old.hfd

/-- Nothing has been looked up or opened for the package. -/
structure HPKG.Blank (hpkg : HPKG) : Prop where
  trOffset : hpkg.trOffset = 0
  headkey : hpkg.headkey = none
  hfd : hpkg.hfd = none

/-- The package was there before, or is made now. -/
def Kin (http : Http) (pk : PackagePtr) (hpkg : HPKG) : Prop :=
  (∃ old, http.packages pk = some old ∧ old.Like hpkg) ∨
    hpkg.Blank ∧ pk.number ≠ 0 ∧ .created pk ∉ http.log

/-- A step of one connection's packages: what it adds, and that it leaves all other
connections alone. -/
structure Moves (conn : Nat) (http after : Http) (tasks : List Task) (aios : List Aio)
    (events : List Event) : Prop where
  tasks : after.tasks = http.tasks ++ tasks
  aios : after.aios = http.aios ++ aios
  log : after.log = http.log ++ events
  nextConn : after.nextConn = http.nextConn
  events : ∀ event ∈ events, event.conn = conn ∧ event.apart = true
  conns : ∀ other, other ≠ conn → after.conns other = http.conns other
  status : ∀ cn, after.conns conn = some cn → ∃ old, http.conns conn = some old ∧ cn.cst = old.cst
  packages : ∀ pk, pk.conn ≠ conn → after.packages pk = http.packages pk
  kin : ∀ number hpkg, after.packages ⟨conn, number⟩ = some hpkg → Kin http ⟨conn, number⟩ hpkg

theorem Moves.same {tasks : List Task} {aios : List Aio} {events : List Event}
    (moves : Moves conn http after tasks aios events) {other : Nat} (different : other ≠ conn) :
    Same other http after := by
  refine ⟨moves.conns other different, fun number => moves.packages ⟨other, number⟩ different,
    events, moves.log, ?_⟩
  intro event member about
  rw [(moves.events event member).1] at about
  exact absurd about.symm different

/-- Only the given package is finalised, and only for the reason given. -/
def Finalises (reason : Prop) (pk : PackagePtr) (events : List Event) : Prop :=
  ∀ other, .finalised other ∈ events → other = pk ∧ reason

/-- The connection passes its work on: to a work that then waits, or it closes. -/
inductive Passes (reason : Prop) (issues : Aio → Prop) (pk : PackagePtr) (http after : Http) :
    Prop where
  | task (task : Task) (events : List Event) (own : task.work.pk.conn = pk.conn)
      (moves : Moves pk.conn http after [task] [] events) (ends : Finalises reason pk events)
      (ready : Ready after task.work)
  | aio (aio : Aio) (work : Work) (events : List Event) (own : aio.pk = pk) (shows : aio.work = some work)
      (issued : issues aio) (moves : Moves pk.conn http after [] [aio] events)
      (ends : Finalises reason pk events)
      (ready : Ready after work)
  | closes (events : List Event) (moves : Moves pk.conn http after [] [] events) (ends : Finalises reason pk events)
      (shut : Shut after pk.conn)

end EventDisp.Server
