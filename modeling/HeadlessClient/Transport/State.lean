import HeadlessClient.Transport.Pool

/-!
# Transport — the round tripper as a transition system

`chromeRoundTripper` (`tls.go`) under any number of goroutines. A CALL is one
`RoundTrip` with the body it returns, or one `CloseIdleConnections`; it is at
one point of its code. One step runs one call to its next point: a section
under `t.mu` is one step, and so is each access to a connection outside it, so
a run is an arbitrary interleaving. What the network, the peer, the clock and
the caller do is the step's free choice.

HTTP/2 connections (`internal/chromehttp2`) carry what decides whether they take
a request and when they close themselves. Each request runs in a goroutine of
its own (`doRequest`), which may outlive the `RoundTrip` that started it, so its
steps belong to the connection and not to the call. The transport uses the zero
`http2.Transport`: no idle timer, no reservations, no strict stream limit, so no
request ever waits for a slot and `pendingRequests` stays 0.
-/

namespace HeadlessClient.Transport

open Base

abbrev CallId := Nat

/-- A `*http2.ClientConn`. -/
abbrev ClientConnId := Nat

/-! ## HTTP/2 connections -/

structure ClientConn where
  closed : Bool
  /-- A GOAWAY frame was received. -/
  goAway : Bool
  doNotReuse : Bool
  nextStreamID : Nat
  maxConcurrentStreams : Nat
  pendingResets : Nat
  /-- Requests that have been started and have no stream yet. -/
  requests : Nat
  /-- The IDs of the open streams. -/
  streams : List Nat
deriving DecidableEq, Repr

namespace ClientConn

def initialMaxConcurrentStreams : Nat := 100

/-- `NewClientConn`. -/
def new : ClientConn := ⟨false, false, false, 1, initialMaxConcurrentStreams, 0, 0, []⟩

/-- `isUsableLocked`. -/
def isUsable (cc : ClientConn) : Bool :=
  !cc.goAway && !cc.closed && !cc.doNotReuse && decide (cc.nextStreamID < 2 ^ 31 - 1)

/-- `canTakeNewRequestLocked`: room for a stream on a usable connection, or a
connection that was closed before its first use, so that the request reports it. -/
def canTakeNewRequest (cc : ClientConn) : Bool :=
  (decide (cc.streams.length + cc.pendingResets < cc.maxConcurrentStreams) && cc.isUsable) ||
    (cc.nextStreamID = 1 && cc.closed)

/-- The connection closes itself when its last stream is forgotten. -/
def closeOnIdle (cc : ClientConn) : Bool := cc.doNotReuse || cc.goAway

/-- A `RoundTrip` on the connection. -/
def startRequest (cc : ClientConn) : ClientConn := { cc with requests := cc.requests + 1 }

/-- A request that ends without a stream. -/
def failRequest (cc : ClientConn) : ClientConn := { cc with requests := cc.requests - 1 }

/-- The locked section of `writeRequest`: `addStreamLocked`, and the connection
is not used again after a request with `Connection: close`. -/
def addStream (cc : ClientConn) (connectionClose : Bool) : ClientConn :=
  { cc with
    requests := cc.requests - 1
    streams := cc.nextStreamID :: cc.streams
    nextStreamID := cc.nextStreamID + 2
    doNotReuse := cc.doNotReuse || connectionClose }

/-- `forgetStreamID`. -/
def forgetStream (cc : ClientConn) (id : Nat) : ClientConn :=
  let streams := cc.streams.erase id
  { cc with
    streams := streams
    closed := cc.closed || (cc.closeOnIdle && streams.isEmpty) }

/-- `Close`: the streams are aborted, each is forgotten by its own goroutine. -/
def close (cc : ClientConn) : ClientConn := { cc with closed := true }

/-- What frames and network errors do to a connection: it is never reopened or
made reusable again. -/
structure Peer (cc cc' : ClientConn) : Prop where
  closed : cc.closed = true → cc'.closed = true
  goAway : cc.goAway = true → cc'.goAway = true
  doNotReuse : cc.doNotReuse = true → cc'.doNotReuse = true
  nextStreamID : cc'.nextStreamID = cc.nextStreamID
  requests : cc'.requests = cc.requests
  streams : cc'.streams = cc.streams

/-- The connection carries an exchange that has not ended. -/
def InFlight (cc : ClientConn) : Prop := 0 < cc.requests ∨ cc.streams ≠ []

instance : DecidablePred InFlight := fun cc =>
  inferInstanceAs (Decidable (0 < cc.requests ∨ cc.streams ≠ []))

end ClientConn

/-! ## Calls and states -/

/-- Where a call is. `reused` is the second result of `roundTripOnIdle`. -/
inductive Call where
  | idle
  /-- In `RoundTrip`, before the HTTP/2 look-up. -/
  | lookup (address : Address)
  | takeIdle (address : Address)
  | dial (address : Address)
  /-- `NewClientConn` has returned, the table has not been written. -/
  | insert (address : Address) (cc : ClientConnId)
  /-- In `(*http1.Conn).RoundTrip`. -/
  | exchange (address : Address) (c : ConnId) (reused : Bool)
  /-- It returned an error, the connection is not closed yet. -/
  | failed (address : Address) (c : ConnId) (reused : Bool)
  /-- The response is with the caller, its body not closed. -/
  | body (c : ConnId)
  /-- In the body's `Close`, after the drain. -/
  | drained (c : ConnId)
  /-- In `putIdle`, past the check of the flag, before the lock. -/
  | putIdle (c : ConnId)
  /-- In `(*http2.ClientConn).RoundTrip`. -/
  | clientConn (address : Address) (cc : ClientConnId) (reused : Bool)
  /-- In `CloseIdleConnections`, past the lock: what is left to close. -/
  | sweep (conns : List ConnId) (clientConns : List ClientConnId)
  | done
deriving DecidableEq, Repr

structure State where
  conns : List Conn
  clientConns : List ClientConn
  idleConnections : GoMap Address (List IdleConnection)
  http2Connections : GoMap Address ClientConnId
  calls : CallId → Call

namespace State

def init : State := ⟨[], [], ∅, ∅, fun _ => .idle⟩

/-- `t.idleConnections[address]`. -/
def pool (s : State) (a : Address) : List IdleConnection := (s.idleConnections.lookup a).getD []

def goto (s : State) (t : CallId) (call : Call) : State :=
  { s with calls := Function.update s.calls t call }

/-- Something happens to connection `c`. -/
def onConn (s : State) (c : ConnId) (f : Conn → Conn) : State :=
  { s with conns := s.conns.modify c f }

/-- Something happens to HTTP/2 connection `cc`. -/
def onClientConn (s : State) (cc : ClientConnId) (f : ClientConn → ClientConn) : State :=
  { s with clientConns := s.clientConns.modify cc f }

def setPool (s : State) (a : Address) (pool : List IdleConnection) : State :=
  { s with idleConnections := s.idleConnections.insert a pool }

def setTable (s : State) (table : GoMap Address ClientConnId) : State :=
  { s with http2Connections := table }

/-- What `takeIdle` finds for the address. -/
def taken (s : State) (now : Time) (a : Address) : Taken :=
  Transport.takeIdle now (s.pool a) s.conns

/-- `takeIdle` on the transport. -/
def take (s : State) (now : Time) (a : Address) : State :=
  { s with conns := (s.taken now a).conns }.setPool a (s.taken now a).pool

def addConn (s : State) (a : Address) : State := { s with conns := s.conns ++ [Conn.new a] }

def addClientConn (s : State) : State := { s with clientConns := s.clientConns ++ [ClientConn.new] }

/-- `CloseIdleConnections` empties both maps. -/
def clear (s : State) : State := { s with idleConnections := ∅, http2Connections := ∅ }

def allIdle (s : State) (order : MapOrder) : List ConnId :=
  (s.idleConnections.range order).flatMap fun (_, pool) => held pool.reverse

def allClientConns (s : State) (order : MapOrder) : List ClientConnId :=
  (s.http2Connections.range order).map Prod.snd

end State

section Goto

variable (s : State) (t : CallId) (call : Call)

@[simp] theorem State.goto_conns : (s.goto t call).conns = s.conns := rfl

@[simp] theorem State.goto_clientConns : (s.goto t call).clientConns = s.clientConns := rfl

@[simp] theorem State.goto_calls_self : (s.goto t call).calls t = call :=
  Function.update_self ..

theorem State.goto_calls_ne {u : CallId} (h : u ≠ t) : (s.goto t call).calls u = s.calls u :=
  Function.update_of_ne h ..

end Goto

/-- The request of a failed `RoundTrip` on a reused connection is replayed on a
new one if it can be; otherwise, and after a response, the call is over. -/
def AfterError (address : Address) (reused : Bool) (next : Call) : Prop :=
  next = .done ∨ (reused = true ∧ next = .dial address)

/-! ## Steps -/

/-- What a step does, with the choices made in it. -/
inductive Event where
  | start (address : Address)
  | lookupHit
  | lookupDrop
  | lookupMiss
  | takeIdle (now : Time)
  | answer (last : Bool) (unread : Nat)
  | exchangeError
  | closeFailed
  | read (n : Nat)
  | readError
  | closeBody (readErr : Option Nat)
  | putIdleClose
  | putIdleCheck
  | putIdle (now : Time)
  | dialError
  | dialConn
  | dialClientConn
  | insert
  | openStream (cc : ClientConnId) (connectionClose : Bool)
  | failRequest (cc : ClientConnId)
  | forgetStream (cc : ClientConnId) (id : Nat)
  | peer (cc : ClientConnId)
  | returned
  | closeIdle
  | sweepConn
  | sweepClientConn
  | sweepEnd
deriving DecidableEq, Repr

open State in
inductive Step : State → CallId → Event → State → Prop
  | start {s t} (a) (h : s.calls t = .idle) : Step s t (.start a) (s.goto t (.lookup a))
  | lookupHit {s t a cc conn} (h : s.calls t = .lookup a)
      (table : s.http2Connections.lookup a = some cc) (get : s.clientConns[cc]? = some conn)
      (can : conn.canTakeNewRequest = true) :
      Step s t .lookupHit
        (s.onClientConn cc ClientConn.startRequest |>.goto t (.clientConn a cc true))
  | lookupDrop {s t a cc conn} (h : s.calls t = .lookup a)
      (table : s.http2Connections.lookup a = some cc) (get : s.clientConns[cc]? = some conn)
      (cannot : conn.canTakeNewRequest = false) :
      Step s t .lookupDrop
        (s.setTable (s.http2Connections.erase a) |>.goto t (.takeIdle a))
  | lookupMiss {s t a} (h : s.calls t = .lookup a) (table : s.http2Connections.lookup a = none) :
      Step s t .lookupMiss (s.goto t (.takeIdle a))
  | takeNone {s t a} (now) (h : s.calls t = .takeIdle a)
      (none : (s.taken now a).connection = none) :
      Step s t (.takeIdle now) (s.take now a |>.goto t (.dial a))
  | takeSome {s t a c} (now) (h : s.calls t = .takeIdle a)
      (some : (s.taken now a).connection = some c) :
      Step s t (.takeIdle now) (s.take now a |>.goto t (.exchange a c true))
  | answer {s t a c r} (last unread) (h : s.calls t = .exchange a c r) :
      Step s t (.answer last unread)
        (s.onConn c (·.answered last unread) |>.goto t (.body c))
  | exchangeError {s t a c r} (h : s.calls t = .exchange a c r) :
      Step s t .exchangeError (s.onConn c Conn.failed |>.goto t (.failed a c r))
  | closeFailed {s t a c r next} (h : s.calls t = .failed a c r) (after : AfterError a r next) :
      Step s t .closeFailed (s.onConn c Conn.close |>.goto t next)
  | read {s t c} (n) (h : s.calls t = .body c) :
      Step s t (.read n) (s.onConn c (·.readBody n) |>.goto t (.body c))
  | readError {s t c} (h : s.calls t = .body c) :
      Step s t .readError (s.onConn c Conn.failed |>.goto t (.body c))
  | closeBody {s t c} (readErr) (h : s.calls t = .body c) :
      Step s t (.closeBody readErr) (s.onConn c (·.drain readErr) |>.goto t (.drained c))
  | putIdleClose {s t c} (h : s.calls t = .drained c) (flag : reusable s.conns c = false) :
      Step s t .putIdleClose (s.onConn c Conn.close |>.goto t .done)
  | putIdleCheck {s t c} (h : s.calls t = .drained c) (flag : reusable s.conns c = true) :
      Step s t .putIdleCheck (s.goto t (.putIdle c))
  | putIdleFull {s t c conn} (now) (h : s.calls t = .putIdle c) (get : s.conns[c]? = some conn)
      (full : (putIdle now (s.pool conn.address) c).2 = false) :
      Step s t (.putIdle now) (s.onConn c Conn.close |>.goto t .done)
  | putIdleStore {s t c conn} (now) (h : s.calls t = .putIdle c) (get : s.conns[c]? = some conn)
      (room : (putIdle now (s.pool conn.address) c).2 = true) :
      Step s t (.putIdle now)
        (s.setPool conn.address (putIdle now (s.pool conn.address) c).1 |>.goto t .done)
  | dialError {s t a} (h : s.calls t = .dial a) : Step s t .dialError (s.goto t .done)
  | dialConn {s t a} (h : s.calls t = .dial a) :
      Step s t .dialConn
        (s.addConn a |>.goto t (.exchange a s.conns.length false))
  | dialClientConn {s t a} (h : s.calls t = .dial a) :
      Step s t .dialClientConn
        (s.addClientConn.goto t (.insert a s.clientConns.length))
  | insert {s t a cc} (h : s.calls t = .insert a cc) :
      Step s t .insert
        (s.setTable (s.http2Connections.insert a cc) |>.onClientConn cc ClientConn.startRequest
          |>.goto t (.clientConn a cc false))
  -- the steps of a connection's own goroutines, whatever call they are listed under
  | openStream {s t cc conn} (connectionClose) (get : s.clientConns[cc]? = some conn)
      (started : 0 < conn.requests) (isOpen : conn.closed = false)
      (can : conn.canTakeNewRequest = true) :
      Step s t (.openStream cc connectionClose)
        (s.onClientConn cc (·.addStream connectionClose))
  | failRequest {s t cc conn} (get : s.clientConns[cc]? = some conn)
      (started : 0 < conn.requests) :
      Step s t (.failRequest cc) (s.onClientConn cc ClientConn.failRequest)
  | forgetStream {s t cc id conn} (get : s.clientConns[cc]? = some conn)
      (known : id ∈ conn.streams) :
      Step s t (.forgetStream cc id) (s.onClientConn cc (·.forgetStream id))
  | peer {s t cc conn conn'} (get : s.clientConns[cc]? = some conn) (does : conn.Peer conn') :
      Step s t (.peer cc) (s.onClientConn cc fun _ => conn')
  | returned {s t a cc r next} (h : s.calls t = .clientConn a cc r)
      (after : AfterError a r next) : Step s t .returned (s.goto t next)
  | closeIdle {s t} (order order' : MapOrder) (h : s.calls t = .idle) :
      Step s t .closeIdle
        (s.clear.goto t (.sweep (s.allIdle order) (s.allClientConns order')))
  | sweepConn {s t c cs ccs} (h : s.calls t = .sweep (c :: cs) ccs) :
      Step s t .sweepConn (s.onConn c Conn.close |>.goto t (.sweep cs ccs))
  | sweepClientConn {s t cc ccs} (h : s.calls t = .sweep [] (cc :: ccs)) :
      Step s t .sweepClientConn
        (s.onClientConn cc ClientConn.close |>.goto t (.sweep [] ccs))
  | sweepEnd {s t} (h : s.calls t = .sweep [] []) : Step s t .sweepEnd (s.goto t .done)

/-- The states some run reaches whose steps all meet `ok`. -/
inductive Reaches (ok : State → CallId → Event → Prop) : State → Prop
  | init : Reaches ok State.init
  | step {s s' t ev} (h : Reaches ok s) (hstep : Step s t ev s') (meets : ok s t ev) :
      Reaches ok s'

end HeadlessClient.Transport
