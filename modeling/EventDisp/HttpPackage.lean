import Mathlib.Logic.Function.Basic
import EventDisp.Cache
import EventDisp.General.CString

/-! `svr_common.h`, `svr_tcp_ip.h` and `svr_http.h`: connections, HTTP packages,
and what is pending for them. A package is addressed by the connection it belongs
to (`cpn`) and its number among the packages made for that connection; the
addresses of deleted packages and connections are not used again. The freeing of
buffers is not represented, nor is what is recorded for debugging. -/
namespace EventDisp

namespace Server

export CString (Text)

def maxKeys : Nat := 256
def maxRequest : Nat := 8192
def maxBlock : Nat := 65536
def maxCacheSize : Nat := 1048576

inductive HttpSN where
  | ok200
  | notFound404
  | badRequest400
  | unknown
  deriving DecidableEq, Repr

inductive HttpST where
  | reading
  | parsing
  | fetching
  | writing
  | unknown
  deriving DecidableEq, Repr

inductive HttpWST where
  | head
  | body
  | unknown
  deriving DecidableEq, Repr

inductive ConnST where
  | listening
  | connecting
  | connected
  /-- A read failed. -/
  | closingR
  /-- A write failed. -/
  | closingW
  | closing
  | closed
  deriving DecidableEq, Repr

/-- The address of an `HPKG`. -/
@[ext]
structure PackagePtr where
  conn : Nat
  number : Nat
  deriving DecidableEq, Repr

/-- A key of the cache: a string of at most `MAXKEYS - 1` characters. -/
abbrev Key := Text

/-- `HPKG`. A `charn` is `none` when its pointer is. `hsn` and `wst` are not set by
the constructor; nothing reads them before they are set. An open file is known by
the path it was opened with. -/
structure HPKG where
  hsn : HttpSN := .unknown
  hst : HttpST := .unknown
  wst : HttpWST := .unknown
  vern : Nat := 1
  ver : Option Text := none
  met : Option Text := none
  uri : Option Text := none
  /-- The characters of the buffer, up to the zeros that fill it. -/
  chead : Option Text := none
  cheadSize : Nat := 0
  cheadCached : Bool := false
  headkey : Option Key := none
  cbodyCached : Bool := false
  bodykey : Option Key := none
  hfd : Option Text := none
  trOffset : Nat := 0
  trNbytes : Nat := 0
  /-- The parent. -/
  ppg : Option PackagePtr := none
  /-- The last child. -/
  lcg : Option PackagePtr := none
  /-- The next sibling. -/
  nsg : Option PackagePtr := none
  deriving DecidableEq, Repr

/-- `Conn`, with the number of packages made for it so far. -/
structure Conn where
  cst : ConnST
  packages : Nat := 0
  deriving DecidableEq, Repr

/-- The tasks the server enqueues on the dispatcher. -/
inductive Task where
  | read (pk : PackagePtr)
  | fetch (pk : PackagePtr)
  deriving DecidableEq, Repr

/-- The calls of `aio_read` and `aio_write` that have not completed, with what is
being written or read. All of them are given `svr_http_final_aio` for an error. -/
inductive Aio where
  /-- `svr_http_parse_aio` when it is done. -/
  | readRequest (pk : PackagePtr)
  /-- `svr_http_header_to_body_aio` when it is done. -/
  | writeHead (pk : PackagePtr) (data : Text)
  /-- `svr_http_body_rio` when it is done. -/
  | write400 (pk : PackagePtr) (data : Text)
  /-- `svr_http_body_pio` when it is done. -/
  | readBody (pk : PackagePtr) (hfd : Option Text) (offset : Nat)
  /-- `svr_http_body_rio` when it is done. -/
  | writeBody (pk : PackagePtr) (data : Text)
  deriving DecidableEq, Repr

/-- The callbacks the server hands to the cache. -/
inductive Callback where
  | headerWio (pk : PackagePtr)
  | bodyWio (pk : PackagePtr)
  deriving DecidableEq, Repr

/-- What a `get` finds. -/
inductive Lookup where
  | missed
  | queued
  | hit
  deriving DecidableEq, Repr

/-- What a key is looked up for: the head of an answer, by URI and version, or the
body of a URI from an offset on. -/
inductive KeyUse where
  | head (uri : Text) (vern : Nat)
  | body (uri : Text) (offset : Nat)
  deriving DecidableEq, Repr

/-- What happens in a run. -/
inductive Event where
  | accepted (conn : Nat)
  /-- `svr_http_parse` made the package. -/
  | created (pk : PackagePtr)
  /-- A task that fetches for the package was enqueued. -/
  | activated (pk : PackagePtr)
  /-- A task that reads for the package was enqueued. -/
  | rearmed (pk : PackagePtr)
  /-- `svr_http_final` deleted the package. -/
  | finalised (pk : PackagePtr)
  | closed (conn : Nat)
  | asked (pk : PackagePtr) (key : Key) (use : KeyUse) (found : Lookup)
  | reserved (pk : PackagePtr) (key : Key)
  /-- `svr_http_header_rio` runs, or `aio_read` is called for the body. -/
  | loading (pk : PackagePtr) (key : Key)
  | put (pk : PackagePtr) (key : Key) (data : Text)
  | cancelled (pk : PackagePtr) (key : Key)
  /-- A callback of the package was invoked; what it was handed was cached or not. -/
  | delivered (pk : PackagePtr) (isCached : Bool)
  /-- `svr_http_final_aio` sets the status of the package's connection. -/
  | aborted (pk : PackagePtr)
  /-- `doneWith` is called for the package. -/
  | released (pk : PackagePtr) (key : Key)
  /-- An `aio_write` completed. -/
  | written (pk : PackagePtr) (part : HttpWST) (data : Text) (count : Nat)
  deriving DecidableEq, Repr

end Server

open Server in
/-- Everything of the server but the cache. -/
structure Http where
  conns : Nat → Option Conn := fun _ => none
  packages : PackagePtr → Option HPKG := fun _ => none
  nextConn : Nat := 0
  tasks : List Task := []
  aios : List Aio := []
  log : List Event := []

/-- The server: `_cache` next to everything else. -/
abbrev Server := Host Server.Key Server.Text Server.Callback Http

namespace Http

open Server

def package (http : Http) (pk : PackagePtr) : Except Fault HPKG :=
  match http.packages pk with
  | some hpkg => .ok hpkg
  | none => .error .dangling

def connection (http : Http) (conn : Nat) : Except Fault Conn :=
  match http.conns conn with
  | some cn => .ok cn
  | none => .error .dangling

def setPackage (http : Http) (pk : PackagePtr) (hpkg : HPKG) : Http :=
  { http with packages := Function.update http.packages pk (some hpkg) }

/-- `delete pk`. -/
def deletePackage (http : Http) (pk : PackagePtr) : Http :=
  { http with packages := Function.update http.packages pk none }

def setConn (http : Http) (conn : Nat) (cn : Conn) : Http :=
  { http with conns := Function.update http.conns conn (some cn) }

def deleteConn (http : Http) (conn : Nat) : Http :=
  { http with conns := Function.update http.conns conn none }

def emit (http : Http) (event : Event) : Http := { http with log := http.log ++ [event] }

/-- `Dispatcher::enqueue`, which always answers `true`. -/
def enqueue (http : Http) (task : Task) : Http := { http with tasks := http.tasks ++ [task] }

/-- `aio_read` or `aio_write`. -/
def issue (http : Http) (aio : Aio) : Http := { http with aios := http.aios ++ [aio] }

end Http
end EventDisp
