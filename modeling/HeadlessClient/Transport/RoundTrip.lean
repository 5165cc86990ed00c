import HeadlessClient.Http1.Conn
import HeadlessClient.Transport.SecFetch

/-!
# Transport — one `RoundTrip`

`(*chromeRoundTripper).RoundTrip` of `tls.go` with `roundTripOnIdle`,
`roundTripOnNew` and `replayableRequest`, and below them `WriteRequest`, as one
call sees them: what the pool, the network and the peer do is an ENVIRONMENT
that answers each of its questions. (`State` has the other view: many calls, and
of each only which connections it touches.)

Requests, header maps and bodies are OBJECTS: a request points to its header map
and its body, `Clone` and `GetBody` make new objects, and everything the call
does to an object of the caller is a write to its cell. `decompressResponse`,
which touches the response alone, has a module of its own (`Decompress`).

What has become of the caller's request when the call is over is settled in
`RoundTripFrame`, which bodies have been closed in `RoundTripBodies`.
-/

namespace HeadlessClient.Transport

open Base Http1

/-! ## Objects -/

/-- A body object that a caller hands over or `GetBody` returns. -/
inductive NewBody where
  | nil
  /-- `http.NoBody`. -/
  | noBody
  | object (body : Body)
deriving DecidableEq, Repr

/-- `request.GetBody`, with what it returns when it is called. -/
inductive GetBody where
  | nil
  | fails
  | returns (body : NewBody)
deriving DecidableEq, Repr

/-- The request a caller passes to `RoundTrip`. -/
structure CallerRequest where
  method : Bytes
  url : Option URL
  host : Bytes
  header : Option Header
  contentLength : Int
  close : Bool
  body : NewBody
  getBody : GetBody
  /-- The requests of `request.Response`, its request's `Response` and so on. -/
  redirects : List Hop

/-- A reference to a header map. -/
abbrev MapRef := Nat

/-- A `*http.Request`. -/
abbrev RequestRef := Nat

/-- `request.Body`; an object is its number. -/
inductive BodyRef where
  | nil
  | noBody
  | object (id : Nat)
deriving DecidableEq, Repr, Inhabited

structure RequestCell where
  method : Bytes
  url : Option URL
  host : Bytes
  header : Option MapRef
  contentLength : Int
  close : Bool
  body : BodyRef
  getBody : GetBody
  redirects : List Hop

structure BodyCell where
  body : Body
  closed : Bool
deriving DecidableEq, Repr

structure Heap where
  requests : List RequestCell
  headers : List Header
  bodies : List BodyCell

namespace Heap

variable (h : Heap)

/-- A new body object, unless it is none. -/
def newBody : NewBody → Heap × BodyRef
  | .nil => (h, .nil)
  | .noBody => (h, .noBody)
  | .object body => ({ h with bodies := h.bodies ++ [⟨body, false⟩] }, .object h.bodies.length)

/-- A new header map, unless it is nil. -/
def newHeader : Option Header → Heap × Option MapRef
  | none => (h, none)
  | some header => ({ h with headers := h.headers ++ [header] }, some h.headers.length)

def newRequest (cell : RequestCell) : Heap × RequestRef :=
  ({ h with requests := h.requests ++ [cell] }, h.requests.length)

/-- The request `p` points to; nothing here makes a pointer to no request. -/
def request (p : RequestRef) : RequestCell :=
  h.requests.getD p ⟨[], none, [], none, 0, false, .nil, .nil, []⟩

/-- The map behind a reference. -/
def header (m : Option MapRef) : Option Header := m.bind fun m => h.headers[m]?

/-- `header.Get`, `header[key]` and `Clone().…` read a nil map as an empty one. -/
def headerOf (p : RequestRef) : Header := (h.header (h.request p).header).getD ∅

/-- `header.Set(key, value)`. -/
def setHeader (m : Option MapRef) (key value : Bytes) : Except RuntimeError Heap :=
  match m with
  | none => .error .nilMapWrite
  | some m => .ok { h with headers := h.headers.modify m (·.set key value) }

/-- `if c { header.Set(key, value) }`. -/
def setHeaderIf (c : Bool) (m : Option MapRef) (key value : Bytes) : Except RuntimeError Heap :=
  if c then h.setHeader m key value else .ok h

/-- `header.Del(key)`. -/
def delHeader (m : Option MapRef) (key : Bytes) : Heap :=
  match m with
  | none => h
  | some m => { h with headers := h.headers.modify m (·.del key) }

/-- `request.Body.Close()`. -/
def closeBody (p : RequestRef) : Heap :=
  match (h.request p).body with
  | .object id => { h with bodies := h.bodies.modify id ({ · with closed := true }) }
  | _ => h

/-- `request.Clone(ctx)`: a request of its own with a header map of its own. -/
def clone (p : RequestRef) : Heap × RequestRef :=
  let (h', m) := h.newHeader (h.header (h.request p).header)
  h'.newRequest { h.request p with header := m }

/-- `request.Body = body`. -/
def setBody (p : RequestRef) (body : BodyRef) : Heap :=
  { h with requests := h.requests.modify p ({ · with body := body }) }

def bodyOf (p : RequestRef) : Option Body :=
  match (h.request p).body with
  | .nil => none
  | .noBody => some ⟨[], false⟩
  | .object id => h.bodies[id]?.map (·.body)

/-- A request with its header map and its body, as `http1` reads them. `RoundTrip`
has followed the pointer to the URL by then. -/
def view (p : RequestRef) : Http1.Request :=
  let cell := h.request p
  { method := cell.method
    url := cell.url.getD ⟨[], [], [], false, [], []⟩
    host := cell.host
    header := h.headerOf p
    contentLength := cell.contentLength
    body := h.bodyOf p
    close := cell.close }

end Heap

/-- The caller's request as object `0` of each kind. -/
def CallerRequest.heap (r : CallerRequest) : Heap :=
  let (h, body) := (⟨[], r.header.toList, []⟩ : Heap).newBody r.body
  { h with
    requests :=
      [{ method := r.method, url := r.url, host := r.host, header := r.header.map fun _ => 0,
         contentLength := r.contentLength, close := r.close, body := body, getBody := r.getBody,
         redirects := r.redirects }] }

/-! ## The environment -/

/-- An HTTP/1.1 connection, for one exchange on it. -/
structure Link where
  orders : Orders
  writer : Writer
  readResponse : ReadResponse
  conn : Http1.Conn

/-- What the pool has for an address. An HTTP/2 connection comes with what its
`RoundTrip` returns; `none` is an error. -/
inductive Idle where
  | none
  | clientConn (result : Option Response)
  | conn (link : Link)

/-- What dialing an address comes to. -/
inductive Dialed where
  | dialError
  | handshakeError
  | newClientConnError
  | clientConn (result : Option Response)
  | conn (link : Link)

structure Env where
  idle : Address → Idle
  dial : Address → Dialed

/-! ## One exchange -/

/-- The local `header` of `WriteRequest`: a clone of the caller's map, edited. -/
def Heap.sentHeader (h : Heap) (p : RequestRef) : Except RuntimeError Heap := do
  let (h', m) := h.newHeader (some (h.headerOf p))
  let get (h : Heap) (key : Bytes) : Bytes := Header.get ((h.header m).getD ∅) key
  let length := (h.request p).contentLength
  let h' := h'.delHeader m (ascii "Priority")
  let h' ← h'.setHeaderIf (get h' (ascii "Connection") = []) m
    (ascii "Connection") (ascii "keep-alive")
  h'.setHeaderIf (length > 0 ∧ get h' (ascii "Content-Length") = []) m
    (ascii "Content-Length") (decimal length.toNat)

/-- The connection accepts the header block of the request. -/
def Link.takes (link : Link) (request : Http1.Request) : Bool :=
  link.writer.accepts (request.head link.orders).length

/-- What the exchange returns; `none` is an error. -/
def Link.response (link : Link) (request : Http1.Request) : Option Response :=
  (link.conn.roundTrip link.readResponse link.orders link.writer request).2

/-- `WriteRequest`: behind the header block the body is closed, however the
copying ends. What it writes and returns is `Http1.writeRequest`. -/
def Link.writeRequest (link : Link) (p : RequestRef) (h : Heap) :
    Except RuntimeError (Heap × Written) := do
  let written := Http1.writeRequest link.orders link.writer (h.view p)
  let h' ← h.sentHeader p
  if link.takes (h.view p) then .ok (h'.closeBody p, written) else .ok (h', written)

/-- `(*http1.Conn).RoundTrip`. -/
def Link.roundTrip (link : Link) (p : RequestRef) (h : Heap) :
    Except RuntimeError (Heap × Option Response) := do
  let (h', _) ← link.writeRequest p h
  .ok (h', link.response (h.view p))

/-- `(*http2.ClientConn).RoundTrip`: it closes the body, by assumption. -/
def clientConnRoundTrip (result : Option Response) (p : RequestRef) (h : Heap) :
    Heap × Option Response :=
  (h.closeBody p, result)

/-! ## The call -/

/-- The fields of `chromeRoundTripper` that one call reads. -/
structure RoundTripper where
  lib : Library
  callerOwnsHeaders : Bool
  /-- `profile.userAgent`. -/
  userAgent : Bytes

def chromeAcceptEncoding : Bytes := ascii "gzip, deflate, br, zstd"

/-- `net.JoinHostPort`. -/
def joinHostPort (host port : Bytes) : Address :=
  if host.contains colon then ascii "[" ++ host ++ ascii "]:" ++ port
  else host ++ ascii ":" ++ port

def URL.address (url : URL) : Address :=
  joinHostPort url.hostname (if url.port = [] then ascii "443" else url.port)

namespace RoundTripper

variable (t : RoundTripper)

/-- `Sec-Fetch-Site` is the profile's, if the request has one. -/
def setSecFetchSite (p : RequestRef) (h : Heap) : Except RuntimeError Heap :=
  let cell := h.request p
  if ((h.headerOf p).lookup (ascii "Sec-Fetch-Site")).isSome then do
    let site ← secFetchSiteForRequest t.lib ⟨cell.url, h.header cell.header⟩ cell.redirects
    h.setHeader cell.header (ascii "Sec-Fetch-Site") site.text
  else .ok h

/-- The first block of `RoundTrip`. -/
def setHeaders (p : RequestRef) (h : Heap) : Except RuntimeError Heap :=
  if t.callerOwnsHeaders then .ok h
  else do
    let m := (h.request p).header
    let h ← h.setHeaderIf ((h.headerOf p).get (ascii "Accept-Encoding") = []) m
      (ascii "Accept-Encoding") chromeAcceptEncoding
    let h ← h.setHeaderIf
      (((h.headerOf p).lookup (ascii "User-Agent")).isNone ∧ t.userAgent ≠ []) m
      (ascii "User-Agent") t.userAgent
    t.setSecFetchSite p h

end RoundTripper

/-- `roundTripOnIdle`; `none` is `nil, false, nil` and an inner `none` an error. -/
def roundTripOnIdle (idle : Idle) (p : RequestRef) (h : Heap) :
    Except RuntimeError (Heap × Option (Option Response)) :=
  match idle with
  | .none => .ok (h, none)
  | .clientConn result =>
    let (h, response) := clientConnRoundTrip result p h
    .ok (h, some response)
  | .conn link => do
      let (h, response) ← link.roundTrip p h
      .ok (h, some response)

def roundTripOnNew (dialed : Dialed) (p : RequestRef) (h : Heap) :
    Except RuntimeError (Heap × Option Response) :=
  match dialed with
  | .dialError | .handshakeError | .newClientConnError => .ok (h, none)
  | .clientConn result => .ok (clientConnRoundTrip result p h)
  | .conn link => link.roundTrip p h

def replayableRequest (p : RequestRef) (h : Heap) : Heap × Option RequestRef :=
  match (h.request p).body, (h.request p).getBody with
  | .nil, _ | .noBody, _ => (h, some p)
  | .object _, .nil | .object _, .fails => (h, none)
  | .object _, .returns new =>
    let (h, body) := h.newBody new
    let (h, replay) := h.clone p
    (h.setBody replay body, some replay)

/-- `RoundTrip` behind its first block. -/
def send (env : Env) (p : RequestRef) (h : Heap) :
    Except RuntimeError (Heap × Option Response) :=
  match (h.request p).url with
  | none => .error .nilDereference
  | some url => do
      let address := URL.address url
      match ← roundTripOnIdle (env.idle address) p h with
      | (h, some (some response)) => .ok (h, some response)
      | (h, some none) =>
        match replayableRequest p h with
        | (h, none) => .ok (h, none)
        | (h, some replay) => roundTripOnNew (env.dial address) replay h
      | (h, none) => roundTripOnNew (env.dial address) p h

/-- `RoundTrip` on the caller's request: the objects afterwards, and the
response. -/
def RoundTripper.roundTrip (t : RoundTripper) (env : Env) (r : CallerRequest) :
    Except RuntimeError (Heap × Option Response) := do
  let h ← t.setHeaders 0 r.heap
  send env 0 h

/-! ## What an exchange does to the objects -/

theorem modify_length_append {α : Type} (xs : List α) (x : α) (f : α → α) :
    (xs ++ [x]).modify xs.length f = xs ++ [f x] := by
  induction xs with
  | nil => rfl
  | cons y ys ih => simp [ih]

/-- **`WriteRequest` edits a clone**: its header map is a new object, and holds
what `http1` sends. -/
theorem Heap.sentHeader_eq (h : Heap) (p : RequestRef) :
    h.sentHeader p = .ok { h with headers := h.headers ++ [(h.view p).sentHeader] } := by
  have hget : ∀ header : Header,
      (({ h with headers := h.headers ++ [header] } : Heap).header (some h.headers.length)).getD ∅
        = header := by
    intro header
    simp [Heap.header]
  have hset : ∀ (header : Header) (c : Bool) (key value : Bytes),
      ({ h with headers := h.headers ++ [header] } : Heap).setHeaderIf c (some h.headers.length)
          key value
        = .ok { h with headers := h.headers ++ [if c then header.set key value else header] } := by
    intro header c key value
    cases c <;> simp [Heap.setHeaderIf, Heap.setHeader, modify_length_append]
  have hdel : ∀ (header : Header) (key : Bytes),
      ({ h with headers := h.headers ++ [header] } : Heap).delHeader (some h.headers.length) key
        = { h with headers := h.headers ++ [header.del key] } := by
    intro header key
    simp [Heap.delHeader, modify_length_append]
  simp only [Heap.sentHeader, Heap.newHeader, hdel, hget, hset, ok_bind]
  simp only [Http1.Request.sentHeader, Heap.view, decide_eq_true_eq]
  rfl

/-- The objects after an exchange on a connection: the sent header is new, and
the body is closed if the header block was accepted. -/
def Heap.afterExchange (h : Heap) (p : RequestRef) (taken : Bool) : Heap :=
  let h' := { h with headers := h.headers ++ [(h.view p).sentHeader] }
  if taken then h'.closeBody p else h'

theorem Link.roundTrip_eq (link : Link) (p : RequestRef) (h : Heap) :
    link.roundTrip p h = .ok (h.afterExchange p (link.takes (h.view p)),
      link.response (h.view p)) := by
  unfold Link.roundTrip Link.writeRequest Heap.afterExchange
  rw [Heap.sentHeader_eq]
  cases link.takes (h.view p) <;> simp

theorem roundTripOnIdle_conn (link : Link) (p : RequestRef) (h : Heap) :
    roundTripOnIdle (.conn link) p h = .ok (h.afterExchange p (link.takes (h.view p)),
      some (link.response (h.view p))) := by
  rw [roundTripOnIdle, link.roundTrip_eq p h, ok_bind]

end HeadlessClient.Transport
