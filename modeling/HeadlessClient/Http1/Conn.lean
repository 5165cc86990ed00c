import HeadlessClient.Http1.Request
import HeadlessClient.Transport.Pool
import HeadlessClient.Wire.Message

/-!
# Http1 — exchanges on one connection

`Conn.RoundTrip` and `pooledBody` of `internal/chromehttp1/conn.go`, over the
bytes the server sends. The connection's flags are those of `Transport.Conn`, so
that what happens to them here is what the pool sees; here the connection also
has a READER, which stands somewhere in the server's bytes.

`http.ReadResponse` is a parameter: from the bytes at the reader it makes a
response, and says where the reader stands after so many bytes of the body and
after its end.
-/

namespace HeadlessClient.Http1

open Base Wire List

/-- `http.Response`, with everything its body yields. -/
structure Response where
  statusCode : Nat
  lines : List Bytes
  /-- `response.Close`. -/
  close : Bool
  content : Bytes
deriving DecidableEq, Repr

/-- A 1xx response announces that another one follows. -/
def Response.interim (response : Response) : Bool :=
  100 ≤ response.statusCode && response.statusCode < 200

/-- What `http.ReadResponse` returns. -/
structure Incoming where
  response : Response
  /-- Where the reader stands after so many bytes of the body. -/
  position : Nat → Bytes
  /-- Where it stands once the body has reported its end. -/
  after : Bytes

/-- `http.ReadResponse` on the bytes at the reader. -/
abbrev ReadResponse := Request → Bytes → Option Incoming

/-- `http1.Conn`. -/
structure Conn where
  flags : Transport.Conn
  /-- The bytes at the reader. -/
  stream : Bytes
  /-- The response whose body is open. -/
  incoming : Option Incoming

namespace Conn

def new (address : Transport.Address) (stream : Bytes) : Conn := ⟨.new address, stream, none⟩

def roundTrip (readResponse : ReadResponse) (orders : Orders) (writer : Writer) (request : Request)
    (c : Conn) : Conn × Option Response :=
  if (writeRequest orders writer request).ok then
    match readResponse request c.stream with
    | none => ({ c with flags := c.flags.failed }, none)
    | some incoming =>
      let last := incoming.response.close || request.close
      ({ flags := c.flags.answered last incoming.response.content.length
         stream := incoming.position 0
         incoming := some incoming }, some incoming.response)
  else ({ c with flags := c.flags.failed }, none)

/-- How much of the body has been read. -/
def consumed (c : Conn) (incoming : Incoming) : Nat :=
  incoming.response.content.length - c.flags.unread

/-- `(*pooledBody).Read` until there are `n` bytes or the body ends. -/
def read (n : Nat) (c : Conn) : Conn :=
  match c.incoming with
  | none => c
  | some incoming =>
    { c with
      flags := c.flags.readBody n
      stream := if c.flags.unread < n then incoming.after
        else incoming.position (c.consumed incoming + n) }

/-- `(*pooledBody).Read` that returns an error other than `io.EOF`. -/
def readError (c : Conn) : Conn := { c with flags := c.flags.failed }

/-- `(*pooledBody).Close` up to the idle handler: `readErr` is an error of the
drain after so many bytes. -/
def closeBody (readErr : Option Nat) (c : Conn) : Conn :=
  match c.incoming with
  | none => c
  | some incoming =>
    { flags := c.flags.drain readErr
      stream :=
        if c.flags.reusable then
          match readErr with
          | some n => incoming.position (c.consumed incoming + n)
          | none =>
            if c.flags.unread < Transport.drainLimit then incoming.after
            else incoming.position (c.consumed incoming + Transport.drainLimit)
        else c.stream
      incoming := none }

end Conn

/-! ## A run of exchanges -/

/-- One exchange, with what its participants choose. -/
structure Exchange where
  request : Request
  orders : Orders
  writer : Writer
  /-- How much of the body the caller reads before it closes it. -/
  wanted : Nat
  /-- Reading ends in an error. -/
  fails : Bool
  drainErr : Option Nat
  /-- The pool takes the connection, if it is reusable, and returns it. -/
  kept : Bool

/-- What the caller of an exchange gets. -/
structure Observation where
  response : Response
  delivered : Bytes
deriving DecidableEq, Repr

section Run

variable (readResponse : ReadResponse)

/-- `RoundTrip`, reading and closing the body. -/
def Conn.exchange (e : Exchange) (c : Conn) : Conn × Option Observation :=
  match c.roundTrip readResponse e.orders e.writer e.request with
  | (c, none) => (c, none)
  | (c, some response) =>
    let c := c.read e.wanted
    let c := if e.fails then c.readError else c
    (c.closeBody e.drainErr, some ⟨response, response.content.take e.wanted⟩)

/-- Exchanges on one connection, until it is closed or lost to the pool. -/
def Conn.run : Conn → List Exchange → List (Option Observation)
  | _, [] => []
  | c, e :: es =>
    let (c', observed) := c.exchange readResponse e
    observed :: if c'.flags.reusable && e.kept then run c' es else []

/-! ### The server's bytes -/

/-- A response as the server sends it. -/
structure Message where
  wire : Bytes
  response : Response

/-- Any number of interim responses, then the final one. -/
structure Answer where
  interims : List Message
  final : Message

def Answer.wire (answer : Answer) : Bytes :=
  answer.interims.flatMap Message.wire ++ answer.final.wire

/-- `http.ReadResponse` reads the message where `next` follows, and delimits its
body unless that ends with the connection. -/
def Reads (request : Request) (m : Message) (next : Bytes) : Prop :=
  ∃ incoming, readResponse request (m.wire ++ next) = some incoming ∧
    incoming.response = m.response ∧ (m.response.close = false → incoming.after = next)

/-- The answer is well formed where `next` follows. -/
structure Answers (request : Request) (answer : Answer) (next : Bytes) : Prop where
  interim : ∀ m ∈ answer.interims, m.response.interim = true ∧
    ∀ next, Reads readResponse request m next
  final : answer.final.response.interim = false
  reads : Reads readResponse request answer.final next

/-- The server answers the requests in order. -/
def AnswersAll : List (Exchange × Answer) → Bytes → Prop
  | [], _ => True
  | (e, answer) :: rest, stream =>
    ∃ next, stream = answer.wire ++ next ∧ Answers readResponse e.request answer next ∧
      AnswersAll rest next

end Run

/-! ## One exchange -/

section Exchange

variable {readResponse : ReadResponse} {c : Conn} {e : Exchange} {incoming : Incoming}

/-- The drain leaves a reusable connection with its reader after the body. -/
theorem closeBody_stream {readErr : Option Nat} (hinc : c.incoming = some incoming)
    (h : (c.closeBody readErr).flags.reusable = true) :
    (c.closeBody readErr).stream = incoming.after ∧ c.flags.reusable = true := by
  unfold Conn.closeBody at h ⊢
  rw [hinc] at h ⊢
  simp only [Transport.Conn.drain] at h ⊢
  by_cases hr : c.flags.reusable = true
  · rw [if_pos hr] at h ⊢
    cases readErr with
    | some n => cases h
    | none =>
      dsimp only at h ⊢
      by_cases hlt : c.flags.unread < Transport.drainLimit
      · rw [if_pos hlt]
        exact ⟨rfl, hr⟩
      · rw [if_neg hlt] at h
        cases h
  · rw [if_neg hr] at h
    exact absurd h hr

/-- What an exchange does when `http.ReadResponse` returns a response. -/
theorem exchange_of_read (hok : (writeRequest e.orders e.writer e.request).ok = true)
    (hread : readResponse e.request c.stream = some incoming) :
    (c.exchange readResponse e).2
        = some ⟨incoming.response, incoming.response.content.take e.wanted⟩ ∧
      ((c.exchange readResponse e).1.flags.reusable = true →
        (c.exchange readResponse e).1.stream = incoming.after ∧
          incoming.response.close = false) := by
  unfold Conn.exchange Conn.roundTrip
  rw [if_pos hok, hread]
  refine ⟨rfl, fun h => ?_⟩
  dsimp only at h ⊢
  cases hfails : e.fails with
  | true =>
    rw [hfails, if_pos rfl] at h
    obtain ⟨-, hreusable⟩ := closeBody_stream (show _ = some incoming from rfl) h
    cases hreusable
  | false =>
    rw [hfails] at h
    obtain ⟨hstream, hreusable⟩ := closeBody_stream (show _ = some incoming from rfl) h
    refine ⟨hstream, ?_⟩
    cases hclose : incoming.response.close with
    | false => rfl
    | true =>
      simp [Conn.read, Transport.Conn.readBody, Transport.Conn.answered, hclose] at hreusable

theorem exchange_of_error (h : (writeRequest e.orders e.writer e.request).ok = false ∨
      readResponse e.request c.stream = none) :
    (c.exchange readResponse e).2 = none ∧
      (c.exchange readResponse e).1.flags.reusable = false := by
  unfold Conn.exchange Conn.roundTrip
  by_cases hok : (writeRequest e.orders e.writer e.request).ok = true
  · rcases h with h | h
    · rw [hok] at h
      cases h
    · rw [if_pos hok, h]
      exact ⟨rfl, rfl⟩
  · rw [if_neg hok]
    exact ⟨rfl, rfl⟩

end Exchange

/-! ## Pairing -/

/-- The request of the exchange is written without an error. -/
def Exchange.Written (e : Exchange) : Prop := (writeRequest e.orders e.writer e.request).ok = true

/-- The caller gets the final response to its own request and the beginning of
its body, or an error if the request could not be written. -/
structure Paired (x : Exchange × Answer) (observed : Option Observation) : Prop where
  own : x.1.Written → observed
    = some ⟨x.2.final.response, x.2.final.response.content.take x.1.wanted⟩
  none : ¬x.1.Written → observed = none

section Pairing

variable {readResponse : ReadResponse}

theorem ne_of_interim {r r' : Response} (h : r.interim = true) (h' : r'.interim = false) :
    r ≠ r' := by
  rintro rfl
  rw [h] at h'
  cases h'

theorem exchange_answered {c : Conn} {e : Exchange} {answer : Answer} {next : Bytes}
    (hstream : c.stream = answer.wire ++ next) (h : Answers readResponse e.request answer next) :
    (Paired (e, answer) (c.exchange readResponse e).2 ↔ (e.Written → answer.interims = [])) ∧
      (answer.interims = [] → (c.exchange readResponse e).1.flags.reusable = true →
        (c.exchange readResponse e).1.stream = next) ∧
      (¬e.Written → (c.exchange readResponse e).1.flags.reusable = false) := by
  by_cases hok : e.Written
  · cases hinterims : answer.interims with
    | nil =>
      obtain ⟨incoming, hread, hresponse, hafter⟩ := h.reads
      have hread' : readResponse e.request c.stream = some incoming := by
        rw [hstream, Answer.wire, hinterims]
        exact hread
      obtain ⟨hobserved, hreader⟩ := exchange_of_read hok hread'
      refine ⟨⟨fun _ _ => rfl, fun _ => ⟨fun _ => ?_, absurd hok⟩⟩, fun _ hr => ?_, absurd hok⟩
      · rw [hobserved, hresponse]
      · obtain ⟨hstream', hclose⟩ := hreader hr
        rw [hstream', hafter (hresponse ▸ hclose)]
    | cons m ms =>
      -- the reader stands at an interim response, and the caller gets that
      obtain ⟨hinterim, hreads⟩ := h.interim m (by rw [hinterims]; exact mem_cons_self)
      obtain ⟨incoming, hread, hresponse, -⟩ :=
        hreads (ms.flatMap Message.wire ++ answer.final.wire ++ next)
      have hread' : readResponse e.request c.stream = some incoming := by
        rw [hstream, Answer.wire, hinterims, ← hread, flatMap_cons]
        simp only [append_assoc]
      obtain ⟨hobserved, -⟩ := exchange_of_read hok hread'
      refine ⟨⟨fun hpaired => ?_, fun hnil => nomatch hnil hok⟩, nofun, absurd hok⟩
      have heq := hobserved.symm.trans (hpaired.own hok)
      simp only [Option.some.injEq, Observation.mk.injEq] at heq
      exact absurd (hresponse.symm.trans heq.1) (ne_of_interim hinterim h.final)
  · obtain ⟨hobserved, hreusable⟩ := @exchange_of_error readResponse c e
      (.inl (Bool.eq_false_iff.mpr hok))
    refine ⟨⟨fun _ => (absurd · hok), fun _ => ⟨(absurd · hok), fun _ => hobserved⟩⟩,
      fun _ hr => ?_, fun _ => hreusable⟩
    rw [hreusable] at hr
    cases hr

/-- **The k-th round trip on a connection gets the final response to the k-th
request, and no other bytes, iff no request that was written is answered by
interim responses first**, for every sequence of exchanges and every server that
answers them in order. -/
theorem roundTrips_paired_iff {xs : List (Exchange × Answer)} : ∀ {c : Conn},
    AnswersAll readResponse xs c.stream →
      ((∀ p ∈ xs.zip (c.run readResponse (xs.map Prod.fst)), Paired p.1 p.2) ↔
        ∀ p ∈ xs.zip (c.run readResponse (xs.map Prod.fst)),
          p.1.1.Written → p.1.2.interims = []) := by
  induction xs with
  | nil => intro c _; exact ⟨fun _ p hp => (nomatch hp), fun _ p hp => (nomatch hp)⟩
  | cons x xs ih =>
    obtain ⟨e, answer⟩ := x
    rintro c ⟨next, hstream, hanswers, hrest⟩
    obtain ⟨hfirst, hreader, hended⟩ := exchange_answered hstream hanswers
    rw [map_cons, Conn.run]
    simp only [zip_cons_cons, forall_mem_cons]
    rw [hfirst]
    refine and_congr_right fun hinterims => ?_
    by_cases hkept : ((c.exchange readResponse e).1.flags.reusable && e.kept) = true
    · rw [if_pos hkept]
      have hreusable := (Bool.and_eq_true_iff.mp hkept).1
      -- a connection that is kept was written to, so its reader is at the next answer
      have hwritten : e.Written := by
        by_contra hnot
        rw [hended hnot] at hreusable
        cases hreusable
      exact ih (by rwa [hreader (hinterims hwritten) hreusable])
    · rw [if_neg hkept, zip_nil_right]
      exact ⟨fun _ p hp => (nomatch hp), fun _ p hp => (nomatch hp)⟩

end Pairing

/-! ## A reader -/

/-- `http.ReadResponse` as RFC 9112 has it, on complete messages. A position
inside the body counts from its start; for chunks it is only some place in it. -/
def readResponseRFC : ReadResponse := fun request text => do
  let (lines, after) ← cutBlock text
  let status ← number 10 ((lines.headD []).drop 9 |>.take 3)
  let framing ← responseFraming (request.method = ascii "HEAD") status (lines.drop 1)
  let (content, rest) ← readBody framing after
  let close := framing = .untilClose ||
    (fieldValues (ascii "connection") (lines.drop 1)).any fun value => lower value = ascii "close"
  return ⟨⟨status, lines.drop 1, close, content⟩, after.drop, rest⟩

/-- **A complete message is read the same whatever follows it**, unless the end
of the connection ends its body. -/
theorem reads_of_complete {request : Request} {m : Message} {incoming : Incoming}
    (h : readResponseRFC request m.wire = some incoming)
    (hresponse : incoming.response = m.response)
    (hafter : incoming.after = []) (hclose : m.response.close = false) (next : Bytes) :
    Reads readResponseRFC request m next := by
  unfold readResponseRFC at h
  obtain ⟨⟨lines, after⟩, hcut, h⟩ := Option.bind_eq_some_iff.mp h
  obtain ⟨status, hstatus, h⟩ := Option.bind_eq_some_iff.mp h
  obtain ⟨framing, hframing, h⟩ := Option.bind_eq_some_iff.mp h
  obtain ⟨⟨content, rest⟩, hbody, h⟩ := Option.bind_eq_some_iff.mp h
  simp only [Option.pure_def, Option.some.injEq] at h
  subst h
  have hne : framing ≠ .untilClose := by
    rintro rfl
    rw [← hresponse] at hclose
    simp at hclose
  dsimp only at hafter
  subst hafter
  refine ⟨⟨m.response, (after ++ next).drop, next⟩, ?_, rfl, fun _ => rfl⟩
  unfold readResponseRFC
  rw [cutBlock_append hcut]
  simp only [Option.bind_eq_bind, Option.bind_some, hstatus, hframing,
    readBody_append hne hbody next, Option.pure_def, nil_append, ← hresponse]

def okMessage (content : Bytes) : Message where
  wire := block (["HTTP/1.1 200 OK", "Content-Length: 2"].map ascii) ++ crlf ++ content
  response := ⟨200, [ascii "Content-Length: 2"], false, content⟩

def earlyHints : Message where
  wire := block [ascii "HTTP/1.1 103 Early Hints"] ++ crlf
  response := ⟨103, [], false, []⟩

/-- A `GET` whose body is read to its end, on a connection that is kept. -/
def getExchange : Exchange :=
  ⟨getRequest (ascii "Accept") (ascii "*/*"), storedOrders, reliable, 9, false, none, true⟩

theorem reads_ok (next : Bytes) :
    Reads readResponseRFC getExchange.request (okMessage (ascii "ok")) next :=
  reads_of_complete (m := okMessage (ascii "ok")) rfl rfl rfl rfl next

theorem reads_no (next : Bytes) :
    Reads readResponseRFC getExchange.request (okMessage (ascii "no")) next :=
  reads_of_complete (m := okMessage (ascii "no")) rfl rfl rfl rfl next

/-- Two exchanges, each answered by its final response. -/
theorem roundTrips_paired_two :
    let xs := [(getExchange, (⟨[], okMessage (ascii "ok")⟩ : Answer)),
      (getExchange, ⟨[], okMessage (ascii "no")⟩)]
    let c := Conn.new (ascii "a:443")
      ((okMessage (ascii "ok")).wire ++ (okMessage (ascii "no")).wire)
    c.run readResponseRFC (xs.map Prod.fst)
        = ["ok", "no"].map (fun text =>
            some ⟨(okMessage (ascii text)).response, ascii text⟩) ∧
      ∀ p ∈ xs.zip (c.run readResponseRFC (xs.map Prod.fst)), Paired p.1 p.2 := by
  intro xs c
  have hanswers : AnswersAll readResponseRFC xs c.stream :=
    ⟨_, rfl, ⟨fun m hm => (nomatch hm), rfl, reads_ok _⟩, [], (append_nil _).symm,
      ⟨fun m hm => (nomatch hm), rfl, reads_no _⟩, trivial⟩
  have hrun : c.run readResponseRFC (xs.map Prod.fst)
      = ["ok", "no"].map (fun text => some ⟨(okMessage (ascii text)).response, ascii text⟩) := by
    decide
  refine ⟨hrun, (roundTrips_paired_iff hanswers).mpr fun p hp _ => ?_⟩
  rw [hrun] at hp
  simp only [map_cons, map_nil, zip_cons_cons, zip_nil_right, xs,
    mem_cons, not_mem_nil, or_false] at hp
  rcases hp with rfl | rfl <;> rfl

/-- One interim response shifts the connection: the first caller gets it as the
response, and the second caller gets the response to the first request. -/
theorem roundTrips_shifted_by_interim :
    let xs := [(getExchange, (⟨[earlyHints], okMessage (ascii "ok")⟩ : Answer)),
      (getExchange, ⟨[], okMessage (ascii "no")⟩)]
    let c := Conn.new (ascii "a:443")
      (earlyHints.wire ++ (okMessage (ascii "ok")).wire ++ (okMessage (ascii "no")).wire)
    AnswersAll readResponseRFC xs c.stream ∧
      c.run readResponseRFC (xs.map Prod.fst)
        = [some ⟨earlyHints.response, []⟩,
          some ⟨(okMessage (ascii "ok")).response, ascii "ok"⟩] := by
  intro xs c
  have hhints : ∀ next, Reads readResponseRFC getExchange.request earlyHints next :=
    reads_of_complete (m := earlyHints) rfl rfl rfl rfl
  have hstream : c.stream = Answer.wire ⟨[earlyHints], okMessage (ascii "ok")⟩
      ++ (okMessage (ascii "no")).wire := by
    simp only [c, Conn.new, Answer.wire, flatMap_cons, flatMap_nil, append_nil]
  refine ⟨⟨_, hstream, ⟨?_, rfl, reads_ok _⟩, [], (append_nil _).symm,
    ⟨fun m hm => (nomatch hm), rfl, reads_no _⟩, trivial⟩, by decide +kernel⟩
  intro m hm
  rw [mem_singleton] at hm
  subst hm
  exact ⟨rfl, hhints⟩

end HeadlessClient.Http1
