import EventDisp.HttpPackage
import EventDisp.General.Execution
import EventDisp.General.Lock

/-! `svr_tcp_ip.h` and `svr_tcp_ip.cc`: the listening connection counts its peers. One
thread calls `svr_conn_accept` again and again, others call `svr_conn_close` on
connections; the constructor and the destructor of a `Conn` lock the listening one. -/
namespace EventDisp.SvrConn

open Server (ConnST)

/-- `MaxACCEPT`, the "hard limit". -/
def maxAccept : Nat := 1024

/-- What `svr_conn_accept` and `svr_conn_close` answer. -/
inductive ErrConn where
  | ok
  | ac
  | cl
  deriving DecidableEq, Repr

/-- Where the accepting thread is. -/
inductive AcceptPc where
  /-- About to call `svr_conn_accept`. -/
  | idle
  /-- Before the test of `cn->nc`. -/
  | poolTest
  | sleeping
  /-- In `accept`. -/
  | accepting
  /-- In `socketSetBlockingAndTimeout`. -/
  | setting
  /-- In the constructor: about to lock `cpp->lock`. -/
  | constructLock
  /-- In `++cpp->nc`, before it is read. -/
  | constructRead
  | constructWrite (nc : Nat)
  | constructUnlock
  deriving DecidableEq, Repr

/-- Where a peer is between the constructor that counts it and the end of its destructor. -/
inductive PeerPc where
  | constructed
  /-- In `close`. -/
  | closing
  /-- In the destructor: about to lock `cpp->lock`. -/
  | destroyLock
  /-- In `--cpp->nc`, before it is read. -/
  | destroyRead
  | destroyWrite (nc : Nat)
  | destroyUnlock
  | deleted
  deriving DecidableEq, Repr

/-- A peer counts from the write of its constructor to the write of its destructor. -/
def PeerPc.isAlive : PeerPc → Bool
  | .constructed | .closing | .destroyLock | .destroyRead | .destroyWrite _ => true
  | .destroyUnlock | .deleted => false

/-- A holder of the listening connection's `lock`. -/
inductive Holder where
  | acceptor
  | peer (number : Nat)
  deriving DecidableEq, Repr

inductive Event where
  | accepted (answer : ErrConn)
  | closed (peer : Nat) (answer : ErrConn)
  deriving DecidableEq, Repr

/-- The listening `Conn`, the accepting thread, and the peers by the order they were made in. -/
structure Listener where
  cst : ConnST := .listening
  nc : Nat := 0
  lock : Option Holder := none
  acceptor : AcceptPc := .idle
  peers : List PeerPc := []
  log : List Event := []

/-- Who moves: the accepting thread, with what the system call it is in answers; somebody who
calls `svr_conn_close`, and whoever is in that call. -/
inductive Move where
  | acceptor (succeeds : Bool)
  | close (peer : Nat)
  | closer (peer : Nat) (succeeds : Bool)
  deriving DecidableEq, Repr

namespace Listener

/-- Whether the move can be made: its lock is free, and the connection is there to be closed. -/
def enabled (cn : Listener) : Move → Bool
  | .acceptor _ => cn.acceptor ≠ .constructLock || cn.lock.isNone
  | .close peer => cn.peers[peer]? = some .constructed
  | .closer peer _ =>
    match cn.peers[peer]? with
    | none | some .constructed | some .deleted => false
    | some .destroyLock => cn.lock.isNone
    | some .closing | some .destroyRead | some (.destroyWrite _) | some .destroyUnlock => true

/-- The next step of `svr_conn_accept`. The loop goes on to `accept` when the pool is not
exceeded. -/
def acceptorStep (cn : Listener) (succeeds : Bool) : Listener :=
  match cn.acceptor with
  | .idle =>
    if cn.cst ≠ .listening then { cn with log := cn.log ++ [.accepted .ac] }
    else { cn with acceptor := .poolTest }
  | .poolTest =>
    if cn.nc >
      maxAccept then { cn with acceptor := .sleeping } else { cn with acceptor := .accepting }
  | .sleeping => { cn with acceptor := .poolTest }
  | .accepting =>
    if succeeds then { cn with acceptor := .setting }
    else { cn with acceptor := .idle, log := cn.log ++ [.accepted .ac] }
  | .setting =>
    if succeeds then { cn with acceptor := .constructLock }
    else { cn with acceptor := .idle, log := cn.log ++ [.accepted .ac] }
  | .constructLock => { cn with acceptor := .constructRead, lock := some .acceptor }
  | .constructRead => { cn with acceptor := .constructWrite cn.nc }
  | .constructWrite nc =>
    { cn with acceptor := .constructUnlock, nc := (nc + 1) % 2 ^ 64, peers := cn.peers ++ [.constructed] }
  | .constructUnlock =>
    { cn with acceptor := .idle, lock := none, log := cn.log ++ [.accepted .ok] }

def goto (cn : Listener) (peer : Nat) (pc : PeerPc) : Listener :=
  { cn with peers := cn.peers.set peer pc }

/-- The next step of `svr_conn_close`. A connection that cannot be closed is not deleted. -/
def closerStep (cn : Listener) (peer : Nat) (succeeds : Bool) : Listener :=
  match cn.peers[peer]? with
  | none | some .constructed | some .deleted => cn
  | some .closing =>
    if succeeds then cn.goto peer .destroyLock
    else { cn.goto peer .constructed with log := cn.log ++ [.closed peer .cl] }
  | some .destroyLock => { cn.goto peer .destroyRead with lock := some (.peer peer) }
  | some .destroyRead => cn.goto peer (.destroyWrite cn.nc)
  | some (.destroyWrite nc) =>
    { cn.goto peer .destroyUnlock with nc := (nc + (2 ^ 64 - 1)) % 2 ^ 64 }
  | some .destroyUnlock =>
    { cn.goto peer .deleted with lock := none, log := cn.log ++ [.closed peer .ok] }

def step (cn : Listener) : Move → Listener
  | .acceptor succeeds => cn.acceptorStep succeeds
  | .close peer => cn.goto peer .closing
  | .closer peer succeeds => cn.closerStep peer succeeds

/-- How many peers are alive. -/
def alive (cn : Listener) : Nat := cn.peers.countP PeerPc.isAlive

end Listener

/-- Every interleaving of the accepting thread and those who close connections. -/
def program : Execution.Program Listener Move Empty where
  start := {}
  allowed cn move := cn.enabled move = true
  exec cn move := .ok (cn.step move)

instance (cn : Listener) : DecidablePred (program.allowed cn) := fun move =>
  inferInstanceAs (Decidable (cn.enabled move = true))

end EventDisp.SvrConn
