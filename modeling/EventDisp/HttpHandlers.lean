import EventDisp.HttpPackage

/-! `svr_http.cc` and `svr_conn_close`: the handlers that pass a package on, from
the reading of a request to the end of its answer. Each runs to its end in one
step. Handlers that do not touch the cache run on everything else alone. -/
namespace EventDisp.Server

open CString

def crlf : Text := "\r\n".toList
def websvrd : Text := "Rain/1.1".toList
def sline200 (vern : Nat) : Text :=
  if vern = 0 then "HTTP/1.0 200 OK".toList else "HTTP/1.1 200 OK".toList
def sline400 : Text := "HTTP/1.1 400 Bad Request".toList
def sline404 (vern : Nat) : Text :=
  if vern = 0 then "HTTP/1.0 404 Not Found".toList else "HTTP/1.1 404 Not Found".toList

/-- What `fstat` tells of an open file: its size, and `strftime` of the time of its
last change. -/
structure Stat where
  size : Nat
  lastModified : Text
  deriving DecidableEq, Repr

/-- What the system calls answer in one step: `open`, and `fstat` after it, `time`
with `strftime`, and whether `close` succeeds. -/
structure Surroundings where
  file : Option Stat
  date : Text
  closes : Bool
  deriving DecidableEq, Repr

/-- `fstat` of a file that is open. -/
def Surroundings.fstat (around : Surroundings) : Stat := around.file.getD ⟨0, []⟩

/-- The test for a connection on which nothing can be written. -/
def Conn.closesWrite (cn : Conn) : Bool := cn.cst = .closing || cn.cst = .closingW

/-- The test for a connection from which nothing can be read. -/
def Conn.closesRead (cn : Conn) : Bool := cn.cst = .closing || cn.cst = .closingR

/-- `svr_conn_close`. -/
def svrConnClose (around : Surroundings) (conn : Nat) (http : Http) : Except Fault Http := do
  let _ ← http.connection conn
  let http := http.emit (.closed conn)
  if around.closes then return http.deleteConn conn else return http

/-- `svr_http_final`. -/
def svrHttpFinal (around : Surroundings) (pk : PackagePtr) (http : Http) : Except Fault Http := do
  let hpkg ← http.package pk
  let http := (http.deletePackage pk).emit (.finalised pk)
  match hpkg.ppg, hpkg.nsg with
  | none, _ => svrConnClose around pk.conn http
  | some park, none => do
    let parent ← http.package park
    return ((http.setPackage park { parent with lcg := none }).enqueue (.read park)).emit (.rearmed park)
  | some _, some fget => return (http.enqueue (.fetch fget)).emit (.activated fget)

/-- `svr_http_read`. -/
def svrHttpRead (around : Surroundings) (pk : PackagePtr) (http : Http) : Except Fault Http := do
  let hpkg ← http.package pk
  let cn ← http.connection pk.conn
  if cn.closesRead then svrHttpFinal around pk http
  else
    let cheadSize := if hpkg.chead.isNone then 0 else hpkg.cheadSize
    return (http.setPackage pk { hpkg with hst := .reading, chead := some [], cheadSize }).issue (.readRequest pk)

/-- One round of the loop of `svr_http_parse`: the package made for a line that
begins with `GET`, and where to go on. -/
def parseLine (memory : Text) (pe ph : Nat) : Option HPKG × Nat :=
  let pt := ((strstr (memory.drop ph) crlf).map (ph + ·)).getD pe
  if strncmp (memory.drop ph) "GET ".toList 4 then
    let gk : HPKG := { met := some "GET".toList }
    let ph := ph + 4
    let ps := (strchr (memory.drop ph) ' ').map (ph + ·)
    let ph := if (memory.drop ph).head? = some '/' then ph + 1 else ph
    match ps with
    | none => (some gk, ph)
    | some ps =>
      if ps < pt then
        let gk := { gk with uri := some (slice memory ph ps) }
        let ph := ps + 1
        if ph ≤ pt then (some { gk with ver := some (slice memory ph pt) }, ph) else (some gk, ph)
      else (some gk, ph)
  else (none, pt + crlf.length)

/-- The new package becomes the last child. -/
def addChild (pk : PackagePtr) (gk : HPKG) (fget : Option PackagePtr) (http : Http) :
    Except Fault (Option PackagePtr × Http) := do
  let cn ← http.connection pk.conn
  let child : PackagePtr := ⟨pk.conn, cn.packages⟩
  let http :=
    (http.setConn pk.conn { cn with packages := cn.packages + 1 }).setPackage child
      { gk with ppg := some pk }
  let http := http.emit (.created child)
  let parent ← http.package pk
  match parent.lcg with
  | none => return (some child, http.setPackage pk { parent with lcg := some child })
  | some last => do
    let sibling ← http.package last
    let http := http.setPackage last { sibling with nsg := some child }
    let parent ← http.package pk
    return (fget, http.setPackage pk { parent with lcg := some child })

/-- The loop of `svr_http_parse`, at most `rounds` times around: each round goes on
behind where it began. -/
def parseLoop (pk : PackagePtr) (memory : Text) (pe : Nat) :
    Nat → Nat → Option PackagePtr → Http → Except Fault (Option PackagePtr × Http)
  | 0, _, fget, http => .ok (fget, http)
  | rounds + 1, ph, fget, http =>
    if ph < pe then
      match parseLine memory pe ph with
      | (none, ph) => parseLoop pk memory pe rounds ph fget http
      | (some gk, ph) => do
        let (fget, http) ← addChild pk gk fget http
        parseLoop pk memory pe rounds ph fget http
    else .ok (fget, http)

/-- `svr_http_parse`. -/
def svrHttpParse (around : Surroundings) (pk : PackagePtr) (http : Http) : Except Fault Http := do
  let hpkg ← http.package pk
  let cn ← http.connection pk.conn
  if cn.closesWrite then svrHttpFinal around pk http
  else
    match hpkg.chead with
    | none => .error .nullAccess
    | some memory => do
      let http := http.setPackage pk { hpkg with hst := .parsing }
      let (fget, http) ← parseLoop pk memory hpkg.cheadSize hpkg.cheadSize 0 none http
      match fget with
      | some fget => return (http.enqueue (.fetch fget)).emit (.activated fget)
      | none => return (http.enqueue (.read pk)).emit (.rearmed pk)

/-- `svr_http_header_wio`. -/
def svrHttpHeaderWio (around : Surroundings) (pk : PackagePtr) (cd : CacheData Text) (http : Http) :
    Except Fault Http := do
  let hpkg ← http.package pk
  let hpkg := { hpkg with hst := .writing, wst := .head }
  let http := http.setPackage pk hpkg
  let cn ← http.connection pk.conn
  if cn.closesWrite then svrHttpFinal around pk http
  else
    match cd.data with
    | none => .error .nullAccess
    | some data =>
      let loc := data.drop 9
      let hsn : HttpSN :=
        if strncmp loc "200".toList 3 then .ok200
        else if strncmp loc "404".toList 3 then .notFound404
        else .unknown
      return (http.setPackage pk { hpkg with hsn }).issue (.writeHead pk (data.take cd.size))

/-- `svr_http_write_400`. -/
def svrHttpWrite400 (around : Surroundings) (pk : PackagePtr) (http : Http) :
    Except Fault Http := do
  let hpkg ← http.package pk
  let hpkg := { hpkg with hst := .writing, wst := .head, hsn := .badRequest400 }
  let http := http.setPackage pk hpkg
  let cn ← http.connection pk.conn
  if cn.closesWrite then svrHttpFinal around pk http
  else
    let chead := sline400 ++ crlf ++ crlf
    return (http.setPackage pk { hpkg with chead := some chead, cheadSize := chead.length }).issue (.write400 pk chead)

/-- A handler that does not touch the cache. -/
def apart (handler : Http → Except Fault Http) (server : Server) : Except Fault Server := do
  let client ← handler server.client
  return { server with client }

def emit (event : Event) (server : Server) : Server :=
  { server with client := server.client.emit event }

/-- What a waiter does when the reservation it waits for is cancelled: its own
callback, handed `NULL`. -/
def cancelled (around : Surroundings) : Cache.Invoke Key Text Callback Http
  | .headerWio pk, _ => fun server =>
    apart (svrHttpHeaderWio around pk ⟨none, 0, false⟩) (emit (.delivered pk false) server)
  | .bodyWio pk, _ =>
    fun server => apart (svrHttpFinal around pk) (emit (.delivered pk false) server)

/-- `_cache.doneWith`. -/
def doneWith (pk : PackagePtr) (key : Key) (server : Server) : Except Fault Server := do
  let cache ← server.cache.doneWith key
  return emit (.released pk key) { server with cache }

/-- `svr_http_final_aio`. -/
def svrHttpFinalAio (around : Surroundings) (pk : PackagePtr) (server : Server) :
    Except Fault Server := do
  let hpkg ← server.client.package pk
  let cn ← server.client.connection pk.conn
  if cn.cst = .closing then .error (.assertion .finalNotClosing)
  else
    match hpkg.hst with
    | .reading | .parsing =>
      let cst := if cn.cst = .closingW then .closing else .closingR
      let server :=
        emit (.aborted pk) { server with client := server.client.setConn pk.conn { cn with cst } }
      apart (svrHttpFinal around pk) server
    | .fetching | .writing =>
      let cst := if cn.cst = .closingR then .closing else .closingW
      let server :=
        emit (.aborted pk) { server with client := server.client.setConn pk.conn { cn with cst } }
      match hpkg.hst, hpkg.wst with
      | .fetching, .body =>
        match hpkg.bodykey with
        | none => .error .nullAccess
        | some key => do
          let (_, server) ← Cache.cancelReservation (cancelled around) key (emit (.cancelled pk key) server)
          return server
      | .writing, .head =>
        match hpkg.headkey with
        | none => .error (.assertion .finalHeadKey)
        | some key => do
          let server ← doneWith pk key server
          apart (svrHttpFinal around pk) server
      | .writing, .body =>
        match hpkg.bodykey with
        | none => .error (.assertion .finalBodyKey)
        | some key => do
          let server ← doneWith pk key server
          apart (svrHttpFinal around pk) server
      | _, _ => apart (svrHttpFinal around pk) server
    | .unknown => apart (svrHttpFinal around pk) server

/-- `svr_http_parse_aio`; `bytes` is what was read. -/
def svrHttpParseAio (around : Surroundings) (pk : PackagePtr) (bytes : Text) (server : Server) :
    Except Fault Server := do
  let hpkg ← server.client.package pk
  let cn ← server.client.connection pk.conn
  if cn.closesWrite then apart (svrHttpFinal around pk) server
  else
    let hpkg :=
      { hpkg with hst := .parsing, chead := some bytes, cheadSize := subSize bytes.length 1 }
    let server := { server with client := server.client.setPackage pk hpkg }
    if bytes.length = 0 then svrHttpFinalAio around pk server else apart (svrHttpParse around pk) server

/-- `svr_http_body_wio`. -/
def svrHttpBodyWio (around : Surroundings) (pk : PackagePtr) (cd : CacheData Text)
    (server : Server) :
    Except Fault Server := do
  let hpkg ← server.client.package pk
  match cd.data with
  | none => apart (svrHttpFinal around pk) server
  | some data => do
    let cn ← server.client.connection pk.conn
    if cn.closesWrite then svrHttpFinalAio around pk server
    else
      let http := server.client.setPackage pk { hpkg with hst := .writing, wst := .body }
      return { server with client := http.issue (.writeBody pk (data.take cd.size)) }

/-- What a callback of the cache does. -/
def invoke (around : Surroundings) : Cache.Invoke Key Text Callback Http
  | .headerWio pk, cd => fun server =>
    apart (svrHttpHeaderWio around pk cd) (emit (.delivered pk cd.isCached) server)
  | .bodyWio pk, cd =>
    fun server => svrHttpBodyWio around pk cd (emit (.delivered pk cd.isCached) server)

/-- What a `get` is going to find. -/
def lookup (cache : Cache Key Text Callback) (key : Key) : Lookup :=
  match cache.find key with
  | none => .missed
  | some entry => if entry.isReserved then .queued else .hit

/-- `_cache.get`. -/
def ask (around : Surroundings) (pk : PackagePtr) (key : Key) (use : KeyUse) (callback : Callback)
    (server : Server) :
    Except Fault (Bool × Server) :=
  Cache.get (invoke around) key (some callback)
    (emit (.asked pk key use (lookup server.cache key)) server)

/-- `_cache.reserve` for a key that was not found, and the second `get`. -/
def reserveAndAsk (around : Surroundings) (pk : PackagePtr) (key : Key) (use : KeyUse)
    (callback : Callback) (notReserved notQueued : Assertion) (server : Server) :
    Except Fault Server := do
  let (rsvp, cache) := server.cache.reserve key
  if rsvp = false then .error (.assertion notReserved)
  else do
    let (iscac, server) ← ask around pk key use callback (emit (.reserved pk key)
    { server with cache })
    if iscac = false then .error (.assertion notQueued) else return server

/-- The head `svr_http_header_rio` makes for a file that is there. -/
def head200 (vern : Nat) (date lastModified : Text) (size : Nat) : Text :=
  List.flatten [sline200 vern, crlf, "Date: ".toList, date, crlf, "Server: ".toList, websvrd, crlf,
    "Last-Modified: ".toList, lastModified, crlf, "Content-Type: ".toList, "text/plain".toList,
    crlf,
    "Content-Length: ".toList, decimal size, crlf, crlf]

/-- The head `svr_http_header_rio` makes for a file that is not there. -/
def head404 (vern : Nat) : Text := sline404 vern ++ crlf ++ crlf

/-- The head goes into the cache. -/
def putHead (around : Surroundings) (pk : PackagePtr) (hpkg : HPKG) (chead : Text)
    (server : Server) :
    Except Fault Server :=
  match hpkg.headkey with
  | none => .error .nullAccess
  | some key => do
    let hpkg := { hpkg with chead := some chead, cheadSize := chead.length }
    let server :=
      emit (.put pk key chead) { server with client := server.client.setPackage pk hpkg }
    let (isput, server) ← Cache.put (invoke around) key (some chead) chead.length server
    if isput = false then .error (.assertion .headPut)
    else do
      let hpkg ← server.client.package pk
      return { server with client := server.client.setPackage pk { hpkg with cheadCached := isput } }

/-- `svr_http_header_rio`. -/
def svrHttpHeaderRio (around : Surroundings) (pk : PackagePtr) (server : Server) :
    Except Fault Server := do
  let hpkg ← server.client.package pk
  let opened := if hpkg.hfd.isNone then around.file.bind fun _ => hpkg.uri else hpkg.hfd
  let hpkg := { hpkg with hst := .fetching, wst := .head, hfd := opened }
  let server := emit (.loading pk (hpkg.headkey.getD [])) server
  match opened with
  | none => putHead around pk { hpkg with hsn := .notFound404 } (head404 hpkg.vern) server
  | some _ =>
    let stat := around.fstat
    let hpkg := { hpkg with hsn := .ok200, trNbytes := stat.size, trOffset := 0 }
    if hpkg.chead.isSome then .error (.assertion .headUnset)
    else putHead around pk hpkg (head200 hpkg.vern around.date stat.lastModified stat.size) server

/-- The key `svr_http_header` makes for a head. -/
def headKey (uri : Text) : Key := (str uri).take (maxKeys - 1)

/-- `svr_http_header`. -/
def svrHttpHeader (around : Surroundings) (pk : PackagePtr) (server : Server) :
    Except Fault Server := do
  let hpkg ← server.client.package pk
  let hpkg := { hpkg with hst := .fetching, wst := .head }
  let server := { server with client := server.client.setPackage pk hpkg }
  let cn ← server.client.connection pk.conn
  if cn.closesWrite then apart (svrHttpFinal around pk) server
  else
    match hpkg.uri with
    | none => .error .nullAccess
    | some uri => do
      let key := headKey uri
      let use : KeyUse := .head uri hpkg.vern
      let server :=
        { server with client := server.client.setPackage pk { hpkg with headkey := some key } }
      let (found, server) ← ask around pk key use (.headerWio pk) server
      if found then return server
      else do
        let server ← reserveAndAsk around pk key use (.headerWio pk) .headReserved .headQueued server
        svrHttpHeaderRio around pk server

/-- `svr_http_fetch`. -/
def svrHttpFetch (around : Surroundings) (pk : PackagePtr) (server : Server) :
    Except Fault Server := do
  let hpkg ← server.client.package pk
  let cn ← server.client.connection pk.conn
  if cn.closesWrite then apart (svrHttpFinal around pk) server
  else
    let hpkg := { hpkg with hst := .fetching, wst := .head, hsn := .unknown }
    let server := { server with client := server.client.setPackage pk hpkg }
    match hpkg.met, hpkg.ver, hpkg.uri with
    | some _, some ver, some _ =>
      if strcmp ver "HTTP/1.0".toList then
        svrHttpHeader around pk { server with client := server.client.setPackage pk { hpkg with vern := 0 } }
      else if strcmp ver "HTTP/1.1".toList then
        svrHttpHeader around pk { server with client := server.client.setPackage pk { hpkg with vern := 1 } }
      else apart (svrHttpWrite400 around pk) server
    | _, _, _ => apart (svrHttpWrite400 around pk) server

/-- The key `svr_http_body` makes for a part of the body. -/
def bodyKey (uri : Text) (offset : Nat) : Key :=
  (str uri ++ '#' :: decimal offset).take (maxKeys - 1)

/-- `svr_http_body`. -/
def svrHttpBody (around : Surroundings) (pk : PackagePtr) (server : Server) :
    Except Fault Server := do
  let hpkg ← server.client.package pk
  let hpkg := { hpkg with hst := .fetching, wst := .body }
  let server := { server with client := server.client.setPackage pk hpkg }
  let cn ← server.client.connection pk.conn
  if cn.closesWrite then apart (svrHttpFinal around pk) server
  else
    match hpkg.uri with
    | none => .error .nullAccess
    | some uri => do
      let key := bodyKey uri hpkg.trOffset
      let use : KeyUse := .body uri hpkg.trOffset
      let server :=
        { server with client := server.client.setPackage pk { hpkg with bodykey := some key } }
      let (found, server) ← ask around pk key use (.bodyWio pk) server
      if found then return server
      else do
        let server ← reserveAndAsk around pk key use (.bodyWio pk) .bodyReserved .bodyQueued server
        let hpkg ← server.client.package pk
        let opened := if hpkg.hfd.isNone then around.file.bind fun _ => hpkg.uri else hpkg.hfd
        let http := (server.client.setPackage pk { hpkg with hfd := opened }).emit (.loading pk key)
        return { server with client := http.issue (.readBody pk opened hpkg.trOffset) }

/-- `svr_http_header_to_body_aio`; it does not look at how much was written. -/
def svrHttpHeaderToBodyAio (around : Surroundings) (pk : PackagePtr) (server : Server) :
    Except Fault Server := do
  let hpkg ← server.client.package pk
  let server :=
    { server with client := server.client.setPackage pk { hpkg with hst := .unknown, wst := .head } }
  match hpkg.hsn with
  | .ok200 => svrHttpBody around pk server
  | .notFound404 | .badRequest400 | .unknown => apart (svrHttpFinal around pk) server

/-- `svr_http_body_rio`; `nbytes` is how much was written. -/
def svrHttpBodyRio (around : Surroundings) (pk : PackagePtr) (nbytes : Nat) (server : Server) :
    Except Fault Server := do
  let hpkg ← server.client.package pk
  match hpkg.wst with
  | .body => do
    let server ← match hpkg.bodykey with
      | none => .ok server
      | some key => doneWith pk key server
    if nbytes > 0 then
      let hpkg := { hpkg with trOffset := hpkg.trOffset + nbytes }
      svrHttpBody around pk { server with client := server.client.setPackage pk hpkg }
    else
      apart (svrHttpFinal around pk)
        { server with client := server.client.setPackage pk { hpkg with wst := .unknown } }
  | .head | .unknown => apart (svrHttpFinal around pk) server

/-- `svr_http_body_pio`; the buffer holds what was read and what was there before. -/
def svrHttpBodyPio (around : Surroundings) (pk : PackagePtr) (buf : Text) (nbytes : Nat)
    (server : Server) :
    Except Fault Server := do
  let hpkg ← server.client.package pk
  match hpkg.bodykey with
  | none => .error .nullAccess
  | some key => do
    let (iscac, server) ← Cache.put (invoke around) key (some buf) nbytes (emit (.put pk key (buf.take nbytes)) server)
    if iscac = false then .error (.assertion .bodyPut)
    else do
      let hpkg ← server.client.package pk
      return { server with client := server.client.setPackage pk { hpkg with cbodyCached := iscac } }

end EventDisp.Server
