import EventDisp.General.Execution
import EventDisp.HttpHandlers

/-! Runs of the web server: connections are accepted, pending tasks run, and calls
of `aio_read` and `aio_write` complete, in any order. With `NDISPATCHER` 1 all
handlers run on the thread of one dispatcher. -/
namespace EventDisp.Server

open CString

/-- How a call of `aio_read` or `aio_write` completes. Behind what was read, the
buffer holds what was there before. -/
inductive Completion where
  | read (bytes stale : Text)
  | wrote (nbytes : Nat)
  | failed
  deriving DecidableEq, Repr

/-- What happens next. -/
inductive Step where
  /-- `svr_conn_accept` on a new connection. -/
  | accept (around : Surroundings)
  | run (index : Nat) (around : Surroundings)
  | complete (index : Nat) (completion : Completion) (around : Surroundings)
  deriving DecidableEq, Repr

def Step.around : Step → Surroundings
  | .accept around | .run _ around | .complete _ _ around => around

/-- Whether a call can complete so: reads and writes do no more than they were
asked to, and nothing can be read from a file that was not opened. -/
def Aio.completes : Aio → Completion → Bool
  | .readRequest _, .read bytes _ => bytes.length < maxRequest
  | .readBody _ hfd _, .read bytes stale => hfd.isSome && bytes.length + stale.length ≤ maxBlock
  | .writeHead _ data, .wrote nbytes | .write400 _ data, .wrote nbytes
  | .writeBody _ data, .wrote nbytes =>
    nbytes ≤ data.length
  | .readRequest _, .failed | .readBody .., .failed | .writeHead .., .failed | .write400 .., .failed
  | .writeBody .., .failed => true
  | .readRequest _, .wrote _ | .readBody .., .wrote _ | .writeHead .., .read ..
  | .write400 .., .read .. | .writeBody .., .read .. => false

/-- `strftime` writes at most `MAXWHL - 2` characters. -/
def Surroundings.fits (around : Surroundings) : Bool :=
  around.date.length < 255 && around.fstat.lastModified.length < 255

/-- Whether the step can be made. -/
def enabled (server : Server) (step : Step) : Bool :=
  step.around.fits &&
    match step with
    | .accept _ => true
    | .run index _ => index < server.client.tasks.length
    | .complete index completion _ =>
      match server.client.aios[index]? with
      | none => false
      | some aio => aio.completes completion

/-- The part of `svr_conn_accept` behind `accept`. -/
def accept (around : Surroundings) (http : Http) : Except Fault Http :=
  let conn := http.nextConn
  let pk : PackagePtr := ⟨conn, 0⟩
  let http := { http with nextConn := conn + 1 }.setConn conn { cst := .connected, packages := 1 }
  svrHttpRead around pk ((http.setPackage pk {}).emit (.accepted conn))

def runTask (around : Surroundings) : Task → Server → Except Fault Server
  | .read pk => apart (svrHttpRead around pk)
  | .fetch pk => svrHttpFetch around pk

/-- The handler of a completion. -/
def handle (around : Surroundings) (server : Server) : Aio → Completion → Except Fault Server
  | .readRequest pk, .read bytes _ => svrHttpParseAio around pk bytes server
  | .readBody pk _ _, .read bytes stale =>
    svrHttpBodyPio around pk (bytes ++ stale) bytes.length server
  | .writeHead pk data, .wrote nbytes =>
    svrHttpHeaderToBodyAio around pk (emit (.written pk .head data nbytes) server)
  | .write400 pk data, .wrote nbytes =>
    svrHttpBodyRio around pk nbytes (emit (.written pk .head data nbytes) server)
  | .writeBody pk data, .wrote nbytes =>
    svrHttpBodyRio around pk nbytes (emit (.written pk .body data nbytes) server)
  | .readRequest pk, _ | .readBody pk _ _, _ | .writeHead pk _, _ | .write400 pk _, _
  | .writeBody pk _, _ =>
    svrHttpFinalAio around pk server

def exec (server : Server) : Step → Except Fault Server
  | .accept around => apart (accept around) server
  | .run index around =>
    match server.client.tasks[index]? with
    | none => .ok server
    | some task =>
      runTask around task { server with client.tasks := server.client.tasks.eraseIdx index }
  | .complete index completion around =>
    match server.client.aios[index]? with
    | none => .ok server
    | some aio =>
      handle around { server with client.aios := server.client.aios.eraseIdx index } aio completion

/-- Every run of the server. -/
def program : Execution.Program Server Step Fault where
  start := ⟨{ sizeQuota := maxCacheSize }, {}⟩
  allowed server step := enabled server step = true
  exec := exec

instance (server : Server) : DecidablePred (program.allowed server) := fun step =>
  inferInstanceAs (Decidable (enabled server step = true))

end EventDisp.Server
