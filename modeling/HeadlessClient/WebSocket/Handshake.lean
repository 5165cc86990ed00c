import HeadlessClient.Transport.RoundTrip
import HeadlessClient.WebSocket.Extensions

/-!
# WebSocket — the opening handshake

`Profile.Headers` of `headers.go` and `(*Dialer).DialContext` of
`websocket/client.go`. The profile offers compression the way Chrome does, with
`permessage-deflate; client_max_window_bits` in the headers the caller passes on;
the dialer lets this header through, although it does not offer compression
itself, and looks at the answer.

`Answer` is what RFC 7692 lets a server answer to that offer. The dialer accepts
an answer iff it says NOTHING about compression or gives up context takeover in
BOTH directions (`dialContext_accepts_iff`).

The dialer of a profile has no cookie jar and no proxy; TLS, deadlines and traces
are part of the dial. `computeAcceptKey` (SHA-1 and base64) is a parameter.
-/

namespace HeadlessClient.WebSocket

open Base Http1 List

/-! ## The profile's headers -/

inductive RequestDest where
  | document
  | script
  | empty
  | webSocket
deriving DecidableEq, Repr

/-- The fields of `Profile` that make headers. -/
structure Profile where
  userAgent : Bytes
  acceptLanguage : Bytes
  clientHintBrands : Bytes
  clientHintMobile : Bytes
  clientHintPlatform : Bytes

def chromeDestHeaders : RequestDest → List (Bytes × Bytes)
  | .document =>
    [("Upgrade-Insecure-Requests", "1"),
      ("Accept", "text/html,application/xhtml+xml,application/xml;q=0.9,image/avif,image/webp," ++
        "image/apng,*/*;q=0.8,application/signed-exchange;v=b3;q=0.7"),
      ("Sec-Fetch-Site", "none"), ("Sec-Fetch-Mode", "navigate"), ("Sec-Fetch-User", "?1"),
      ("Sec-Fetch-Dest", "document"), ("Priority", "u=0, i")].map fun (n, v) => (ascii n, ascii v)
  | .script =>
    [("Accept", "*/*"), ("Sec-Fetch-Site", "cross-site"), ("Sec-Fetch-Mode", "no-cors"),
      ("Sec-Fetch-Dest", "script"), ("Sec-Fetch-Storage-Access", "none"),
      ("Priority", "u=1")].map fun (n, v) => (ascii n, ascii v)
  | .empty =>
    [("Accept", "*/*"), ("Sec-Fetch-Site", "same-site"), ("Sec-Fetch-Mode", "cors"),
      ("Sec-Fetch-Dest", "empty"), ("Priority", "u=1, i")].map fun (n, v) => (ascii n, ascii v)
  | .webSocket =>
    [(ascii "Pragma", ascii "no-cache"), (ascii "Cache-Control", ascii "no-cache"),
      (ascii "Accept-Encoding", Transport.chromeAcceptEncoding),
      (ascii "Sec-WebSocket-Extensions", ascii "permessage-deflate; client_max_window_bits")]

/-- `Profile.Headers`. -/
def Profile.headers (p : Profile) (dest : RequestDest) : Header :=
  let header : Header := ∅
  let header := header.set (ascii "User-Agent") p.userAgent
  let header := header.set (ascii "Accept-Language") p.acceptLanguage
  let header :=
    if dest ≠ .webSocket then
      ((header.set (ascii "sec-ch-ua") p.clientHintBrands).set (ascii "sec-ch-ua-mobile")
        p.clientHintMobile).set (ascii "sec-ch-ua-platform") p.clientHintPlatform
    else header
  (chromeDestHeaders dest).foldl (fun header entry => header.set entry.1 entry.2) header

/-! ## The upgrade request -/

inductive DialError where
  | challengeKey
  | parseURL
  | malformedURL
  /-- `websocket: duplicate header not allowed: k`. -/
  | duplicateHeader (k : Bytes)
  | dial
  | writeRequest
  | readResponse
  | badHandshake
  | invalidCompression
deriving DecidableEq, Repr

structure Dialer where
  subprotocols : List Bytes
  enableCompression : Bool

/-- The dialer of `Profile.WebSocketDialer`, a copy of the default one. -/
def Profile.webSocketDialer (_ : Profile) : Dialer := ⟨[], false⟩

/-- `url.Parse`: the URL, and whether it names a user. -/
structure ParsedURL where
  url : URL
  user : Bool

/-- `ws` and `wss` become `http` and `https`. -/
def dialScheme (scheme : Bytes) : Except DialError Bytes :=
  if scheme = ascii "ws" then .ok (ascii "http")
  else if scheme = ascii "wss" then .ok (ascii "https")
  else .error .malformedURL

/-- The scheme is one of the two, and there is no user. -/
def checkURL (u : ParsedURL) : Except DialError URL := do
  let scheme ← dialScheme u.url.scheme
  if u.user then .error .malformedURL else .ok { u.url with scheme := scheme }

/-- `strings.Join(texts, ", ")`. -/
def joinComma : List Bytes → Bytes
  | [] => []
  | [text] => text
  | text :: texts => text ++ ascii ", " ++ joinComma texts

namespace Dialer

variable (d : Dialer)

/-- The headers of the upgrade itself; their names are not canonical. -/
def upgradeHeader (challengeKey : Bytes) : Header :=
  let header : Header := ∅
  let header := header.insert (ascii "Upgrade") [ascii "websocket"]
  let header := header.insert (ascii "Connection") [ascii "Upgrade"]
  let header := header.insert (ascii "Sec-WebSocket-Key") [challengeKey]
  let header := header.insert (ascii "Sec-WebSocket-Version") [ascii "13"]
  if d.subprotocols ≠ [] then
    header.insert (ascii "Sec-WebSocket-Protocol") [joinComma d.subprotocols]
  else header

/-- A header the dialer sets itself. -/
def reserved (k : Bytes) : Bool :=
  k = ascii "Upgrade" || k = ascii "Connection" || k = ascii "Sec-Websocket-Key" ||
    k = ascii "Sec-Websocket-Version" ||
    (k = ascii "Sec-Websocket-Protocol" && d.subprotocols != [])

/-- One round of the merge: the host and the header map. -/
def merge (req : Bytes × Header) (entry : Bytes × List Bytes) :
    Except DialError (Bytes × Header) :=
  let (k, vs) := entry
  if k = ascii "Host" then .ok (vs.headD req.1, req.2)
  else if d.reserved k then .error (.duplicateHeader k)
  else if k = ascii "Sec-Websocket-Protocol" then
    .ok (req.1, req.2.insert (ascii "Sec-WebSocket-Protocol") vs)
  else .ok (req.1, req.2.insert k vs)

/-- The request `DialContext` sends. -/
def upgradeRequest (order : MapOrder) (challengeKey : Bytes) (u : URL) (requestHeader : Header) :
    Except DialError Request := do
  let (host, header) ←
    (requestHeader.range order).foldlM d.merge (u.host, d.upgradeHeader challengeKey)
  let header :=
    if d.enableCompression then
      header.insert (ascii "Sec-WebSocket-Extensions")
        [ascii "permessage-deflate; server_no_context_takeover; client_no_context_takeover"]
    else header
  .ok { method := ascii "GET", url := u, host := host, header := header, contentLength := 0,
        body := none, close := false }

end Dialer

/-! ## The answer -/

/-- `http.Response`, as far as the dialer reads it. -/
structure UpgradeResponse where
  statusCode : Nat
  header : Header

/-- What is outside the dialer. -/
structure Outside where
  /-- `generateChallengeKey`. -/
  challengeKey : Option Bytes
  computeAcceptKey : Bytes → Bytes
  parsed : Option ParsedURL
  /-- The network connection is there, with its TLS handshake. -/
  dialed : Bool
  orders : Orders
  writer : Writer
  /-- `http.ReadResponse`. -/
  response : Option UpgradeResponse

structure Conn where
  /-- Messages are compressed without context takeover. -/
  compression : Bool
  subprotocol : Bytes
deriving DecidableEq, Repr

/-- The response switches protocols and proves that it answers this request. -/
def UpgradeResponse.upgrades (resp : UpgradeResponse) (acceptKey : Bytes) : Bool :=
  resp.statusCode = 101 &&
    tokenListContainsValue resp.header (ascii "Upgrade") (ascii "websocket") &&
    tokenListContainsValue resp.header (ascii "Connection") (ascii "upgrade") &&
    resp.header.get (ascii "Sec-Websocket-Accept") = acceptKey

/-- The loop over the extensions of the response. -/
def acceptExtensions : List ExtensionMap → Except DialError Bool
  | [] => .ok false
  | ext :: exts =>
    if ext.lookup [] ≠ some (ascii "permessage-deflate") then acceptExtensions exts
    else
      let snct := (ext.lookup (ascii "server_no_context_takeover")).isSome
      let cnct := (ext.lookup (ascii "client_no_context_takeover")).isSome
      if !snct || !cnct then .error .invalidCompression else .ok true

def check (ok : Bool) (e : DialError) : Except DialError Unit := if ok then .ok () else .error e

/-- The value, or the error for its absence. -/
def get {α : Type} (x : Option α) (e : DialError) : Except DialError α :=
  match x with
  | some a => .ok a
  | none => .error e

/-- `DialContext`; `order` is the order of the loop over `requestHeader`. -/
def dialContext (d : Dialer) (env : Outside) (order : MapOrder) (requestHeader : Header) :
    Except DialError Conn := do
  let challengeKey ← get env.challengeKey .challengeKey
  let parsed ← get env.parsed .parseURL
  let u ← checkURL parsed
  let req ← d.upgradeRequest order challengeKey u requestHeader
  check env.dialed .dial
  check (writeRequest env.orders env.writer req).ok .writeRequest
  let resp ← get env.response .readResponse
  check (resp.upgrades (env.computeAcceptKey challengeKey)) .badHandshake
  let compression ← acceptExtensions (parseExtensions resp.header)
  .ok ⟨compression, resp.header.get (ascii "Sec-Websocket-Protocol")⟩

/-! ## The offer goes out -/

section Offer

variable {d : Dialer}

/-- A header that is copied under its own name. -/
structure Dialer.Plain (d : Dialer) (k : Bytes) : Prop where
  host : k ≠ ascii "Host"
  reserved : d.reserved k = false
  protocol : k ≠ ascii "Sec-Websocket-Protocol"

theorem foldlM_merge (entries : List (Bytes × List Bytes)) : ∀ req : Bytes × Header,
    (∀ e ∈ entries, d.Plain e.1) → entries.foldlM d.merge req
      = .ok (req.1, entries.foldl (fun header e => header.insert e.1 e.2) req.2) := by
  induction entries with
  | nil => intro req _; rfl
  | cons e entries ih =>
    intro req hplain
    obtain ⟨hhost, hreserved, hprotocol⟩ := hplain e mem_cons_self
    have hround : d.merge req e = .ok (req.1, req.2.insert e.1 e.2) := by
      simp [Dialer.merge, hhost, hreserved, hprotocol]
    rw [foldlM_cons, hround, ok_bind, ih _ fun e he => hplain e (mem_cons_of_mem _ he)]
    rfl

end Offer

theorem keys_headers (p : Profile) : (p.headers .webSocket).keys =
    ["Sec-Websocket-Extensions", "Accept-Encoding", "Cache-Control", "Pragma", "Accept-Language",
      "User-Agent"].map ascii := rfl

theorem plain_headers (p : Profile) :
    ∀ k ∈ (p.headers .webSocket).keys, p.webSocketDialer.Plain k := by
  rw [keys_headers]
  have hplain : ∀ k ∈ ["Sec-Websocket-Extensions", "Accept-Encoding", "Cache-Control", "Pragma",
      "Accept-Language", "User-Agent"].map ascii, k ≠ ascii "Host" ∧
        (Dialer.mk [] false).reserved k = false ∧ k ≠ ascii "Sec-Websocket-Protocol" := by
    decide
  exact fun k hk => ⟨(hplain k hk).1, (hplain k hk).2.1, (hplain k hk).2.2⟩

/-- **The profile's offer is sent**, and nothing in the profile's headers stops
the dialer. -/
theorem upgradeRequest_offers (p : Profile) (order : MapOrder) (challengeKey : Bytes) (u : URL) :
    ∃ req, p.webSocketDialer.upgradeRequest order challengeKey u (p.headers .webSocket) = .ok req ∧
      req.body = none ∧
      req.header.lookup (ascii "Sec-Websocket-Extensions")
        = some [ascii "permessage-deflate; client_max_window_bits"] := by
  have hplain : ∀ e ∈ (p.headers .webSocket).range order, p.webSocketDialer.Plain e.1 := by
    intro e he
    have hlookup := GoMap.mem_range.mp he
    exact plain_headers p e.1 (AList.lookup_isSome.mp (by rw [hlookup]; rfl))
  have hoffer : (ascii "Sec-Websocket-Extensions",
      [ascii "permessage-deflate; client_max_window_bits"]) ∈ (p.headers .webSocket).range order :=
    GoMap.mem_range.mpr rfl
  have hlookup := fun header =>
    GoMap.lookup_foldl_insert (GoMap.nodup_keys_range (p.headers .webSocket) order) hoffer header
  simp only [Dialer.upgradeRequest, foldlM_merge _ _ hplain, ok_bind]
  exact ⟨_, rfl, rfl, hlookup _⟩

/-! ## What a server may answer -/

/-- The parameters of a `permessage-deflate` response (RFC 7692, section 7.1).
`client_max_window_bits` is permitted since the offer carries it. -/
inductive Param where
  | serverNoContextTakeover
  | clientNoContextTakeover
  | serverMaxWindowBits (bits : Nat)
  | clientMaxWindowBits (bits : Nat)
deriving DecidableEq, Repr

namespace Param

def name : Param → Bytes
  | .serverNoContextTakeover => ascii "server_no_context_takeover"
  | .clientNoContextTakeover => ascii "client_no_context_takeover"
  | .serverMaxWindowBits _ => ascii "server_max_window_bits"
  | .clientMaxWindowBits _ => ascii "client_max_window_bits"

def value : Param → Option Bytes
  | .serverNoContextTakeover => none
  | .clientNoContextTakeover => none
  | .serverMaxWindowBits bits => some (decimal bits)
  | .clientMaxWindowBits bits => some (decimal bits)

/-- A window has 8 to 15 bits. -/
def InRange : Param → Prop
  | .serverNoContextTakeover => True
  | .clientNoContextTakeover => True
  | .serverMaxWindowBits bits => 8 ≤ bits ∧ bits ≤ 15
  | .clientMaxWindowBits bits => 8 ≤ bits ∧ bits ≤ 15

end Param

/-- An accepted offer: each parameter at most once, with a legal value. -/
structure Answer where
  params : List Param
  nodup : (params.map Param.name).Nodup
  inRange : ∀ p ∈ params, p.InRange

/-- The `Sec-WebSocket-Extensions` header of a response is this answer: none, or
one extension in any spelling of the grammar. -/
def Answers (header : Header) : Option Answer → Prop
  | none => header.lookup (ascii "Sec-Websocket-Extensions") = none
  | some answer => ∃ line,
      header.lookup (ascii "Sec-Websocket-Extensions") = some [line] ∧
      SpellsExtension (ascii "permessage-deflate")
        (answer.params.map fun p => (p.name, p.value)) line

/-- The answer gives up context takeover in both directions. -/
def Answer.NoContextTakeover (answer : Answer) : Prop :=
  .serverNoContextTakeover ∈ answer.params ∧ .clientNoContextTakeover ∈ answer.params

theorem Param.name_ne_nil (p : Param) : p.name ≠ [] := by
  cases p <;> simp [Param.name, ascii]

/-- The two flags are told apart from everything else by their names. -/
theorem Param.eq_of_name {p q : Param} (hp : p.value = none) (h : q.name = p.name) : q = p := by
  have hnames : ∀ flag ∈ ["server_no_context_takeover", "client_no_context_takeover"],
      ascii "server_max_window_bits" ≠ ascii flag ∧
        ascii "client_max_window_bits" ≠ ascii flag := by
    decide
  cases p with
  | serverNoContextTakeover =>
    cases q with
    | serverNoContextTakeover => rfl
    | clientNoContextTakeover => exact absurd h (by decide)
    | serverMaxWindowBits bits => exact absurd h (hnames _ (by simp)).1
    | clientMaxWindowBits bits => exact absurd h (hnames _ (by simp)).2
  | clientNoContextTakeover =>
    cases q with
    | serverNoContextTakeover => exact absurd h (by decide)
    | clientNoContextTakeover => rfl
    | serverMaxWindowBits bits => exact absurd h (hnames _ (by simp)).1
    | clientMaxWindowBits bits => exact absurd h (hnames _ (by simp)).2
  | serverMaxWindowBits bits => cases hp
  | clientMaxWindowBits bits => cases hp

theorem isSome_lookup_iff (answer : Answer) {p : Param} (hp : p.value = none) :
    ((extensionMap ((∅ : ExtensionMap).insert [] (ascii "permessage-deflate"))
        (answer.params.map fun p => (p.name, p.value))).lookup p.name).isSome = true ↔
      p ∈ answer.params := by
  rw [AList.lookup_isSome, mem_extensionMap, AList.mem_insert]
  constructor
  · intro h
    rcases h with (hname | hempty) | ⟨q, hq, hname⟩
    · exact absurd hname p.name_ne_nil
    · exact absurd hempty (AList.notMem_empty _)
    · obtain ⟨q, hq, rfl⟩ := mem_map.mp hq
      rwa [← Param.eq_of_name hp hname]
  · intro h
    exact .inr ⟨_, mem_map.mpr ⟨p, h, rfl⟩, rfl⟩

/-- **What the dialer makes of a permitted answer.** -/
theorem acceptExtensions_answer {header : Header} {answer : Option Answer}
    (h : Answers header answer) :
    (∃ compression, acceptExtensions (parseExtensions header) = .ok compression) ↔
      ∀ a, answer = some a → a.NoContextTakeover := by
  cases answer with
  | none =>
    have hnone : header.lookup (ascii "Sec-Websocket-Extensions") = none := h
    simp [parseExtensions, hnone, acceptExtensions]
  | some answer =>
    obtain ⟨line, hlookup, hspells⟩ := h
    have hline := parseExtensionLine_spelled hspells (line.length)
    have hserver : _ ↔ Param.serverNoContextTakeover ∈ answer.params :=
      isSome_lookup_iff answer rfl
    have hclient : _ ↔ Param.clientNoContextTakeover ∈ answer.params :=
      isSome_lookup_iff answer rfl
    have hname := lookup_extensionMap (answer.params.map fun p => (p.name, p.value))
      ((∅ : ExtensionMap).insert [] (ascii "permessage-deflate")) (by
        intro q hq
        obtain ⟨p, -, rfl⟩ := mem_map.mp hq
        exact p.name_ne_nil)
    rw [AList.lookup_insert] at hname
    simp only [Option.some.injEq, forall_eq', Answer.NoContextTakeover, ← hserver, ← hclient]
    simp only [parseExtensions, hlookup, Option.getD_some, flatMap_cons, flatMap_nil,
      append_nil, hline]
    obtain ⟨ext, hext⟩ : ∃ ext, extensionMap ((∅ : ExtensionMap).insert []
      (ascii "permessage-deflate")) (answer.params.map fun p => (p.name, p.value)) = ext :=
      ⟨_, rfl⟩
    rw [hext] at hname ⊢
    rw [acceptExtensions, if_neg (not_not.mpr hname)]
    change (∃ compression, (if !(ext.lookup Param.serverNoContextTakeover.name).isSome ||
      !(ext.lookup Param.clientNoContextTakeover.name).isSome then _ else _) = _) ↔ _
    cases (ext.lookup Param.serverNoContextTakeover.name).isSome <;>
      cases (ext.lookup Param.clientNoContextTakeover.name).isSome <;> simp

/-- **The Chrome handshake accepts a permitted answer** iff the answer does not
speak of compression or gives up context takeover on both sides. -/
theorem dialContext_accepts_iff (p : Profile) {env : Outside} (order : MapOrder)
    {challengeKey : Bytes} {parsed : ParsedURL} {u : URL} {resp : UpgradeResponse}
    {answer : Option Answer} (hkey : env.challengeKey = some challengeKey)
    (hparsed : env.parsed = some parsed) (hurl : checkURL parsed = .ok u)
    (hdialed : env.dialed = true) (hwriter : env.writer.limit = none)
    (hresponse : env.response = some resp)
    (hvalid : resp.upgrades (env.computeAcceptKey challengeKey) = true)
    (hanswer : Answers resp.header answer) :
    (∃ conn, dialContext p.webSocketDialer env order (p.headers .webSocket) = .ok conn) ↔
      ∀ a, answer = some a → a.NoContextTakeover := by
  obtain ⟨req, hreq, hbody, -⟩ := upgradeRequest_offers p order challengeKey u
  have hwritten : (writeRequest env.orders env.writer req).ok = true := by
    simp [writeRequest, Writer.accepts, hwriter, hbody]
  rw [← acceptExtensions_answer hanswer]
  simp only [dialContext, hkey, hparsed, hurl, hdialed, hresponse, hreq, hwritten, hvalid, get,
    check, ok_bind, if_true]
  cases acceptExtensions (parseExtensions resp.header) <;> simp

/-- A server that answers the sample handshake with these extension lines. -/
def sampleOutside (extensions : List Bytes) : Outside where
  challengeKey := some (ascii "key")
  computeAcceptKey key := key
  parsed := some ⟨⟨ascii "wss", [], ascii "/", false, [], ascii "example.com"⟩, false⟩
  dialed := true
  orders := ⟨.stored, .stored⟩
  writer := ⟨none⟩
  response := some ⟨101,
    ((((∅ : Header).insert (ascii "Upgrade") [ascii "websocket"]).insert (ascii "Connection")
      [ascii "Upgrade"]).insert (ascii "Sec-Websocket-Accept") [ascii "key"]).insert
        (ascii "Sec-Websocket-Extensions") extensions⟩

theorem spells_flags : SpellsExtension (ascii "permessage-deflate")
    [(ascii "server_no_context_takeover", none), (ascii "client_no_context_takeover", none)]
    (ascii "permessage-deflate; server_no_context_takeover; client_no_context_takeover") := by
  have hnone : Spaces [] := nofun
  have hspace : Spaces [32] := by simp [Spaces, isSpace]
  have hserver : Token (ascii "server_no_context_takeover") :=
    ⟨by decide +kernel, by decide +kernel⟩
  have hclient : Token (ascii "client_no_context_takeover") :=
    ⟨by decide +kernel, by decide +kernel⟩
  have hparams := SpellsParams.flag hserver hnone hspace
    (SpellsParams.flag hclient hnone hspace (.nil hnone))
  exact ⟨⟨by decide +kernel, by decide +kernel⟩, [], _, hnone, hparams, by decide +kernel⟩

/-- An answer that gives up context takeover on both sides. -/
def bothFlags : Answer where
  params := [.serverNoContextTakeover, .clientNoContextTakeover]
  nodup := by decide
  inRange := by simp [Param.InRange]

theorem dialContext_accepts_flags :
    ∃ conn, dialContext (Dialer.mk [] false) (sampleOutside
        [ascii "permessage-deflate; server_no_context_takeover; client_no_context_takeover"])
      .stored ((⟨ascii "Chrome", ascii "en", [], [], []⟩ : Profile).headers .webSocket)
        = .ok conn := by
  refine (dialContext_accepts_iff ⟨ascii "Chrome", ascii "en", [], [], []⟩ .stored rfl rfl rfl rfl
    rfl rfl (by decide +kernel)
      (show Answers _ (some bothFlags) from ⟨_, rfl, spells_flags⟩)).mpr ?_
  intro a ha
  cases ha
  exact ⟨mem_cons_self, mem_cons_of_mem _ mem_cons_self⟩

theorem spells_plain :
    SpellsExtension (ascii "permessage-deflate") [] (ascii "permessage-deflate") :=
  ⟨⟨by decide +kernel, by decide +kernel⟩, [], [], nofun, .nil nofun, rfl⟩

/-- The plainest permitted answer, `permessage-deflate` without parameters, fails
the handshake. -/
theorem dialContext_rejects_plain :
    (∃ resp, (sampleOutside [ascii "permessage-deflate"]).response = some resp ∧
      Answers resp.header (some ⟨[], .nil, nofun⟩)) ∧
    dialContext (Dialer.mk [] false) (sampleOutside [ascii "permessage-deflate"]) .stored
        ((⟨ascii "Chrome", ascii "en", [], [], []⟩ : Profile).headers .webSocket)
      = .error .invalidCompression := by
  refine ⟨⟨_, rfl, _, rfl, spells_plain⟩, ?_⟩
  decide +kernel

end HeadlessClient.WebSocket
