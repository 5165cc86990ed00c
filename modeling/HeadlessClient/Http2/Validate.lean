import HeadlessClient.Base.Except
import HeadlessClient.Http1.HeaderCase
import HeadlessClient.Http2.HeaderOrder

/-!
# Http2 — the checks on a request

`EncodeHeaders` of `internal/chromehttp2/internal/httpcommon/request.go` first checks the
request and then writes its fields. This module is the first part: what the request is
addressed to (`checkTarget`), and then its headers and trailers (`checkFields`).

Three loops over maps take part in the second, and an error names the entry that was met
FIRST. A request that passes does so in every order, with the same text for its `trailer`
field (`checkFields_congr`).
-/

namespace HeadlessClient.Http2

open Base Wire List
open Http1 (URL validHeaderFieldByte canonicalHeaderKey isLower isUpper isDigit)

/-- The functions of other packages on texts that are not ASCII. -/
structure Library extends Strings where
  unicodePunycode : Bytes → Except Bytes Bytes

structure Request where
  url : Option URL
  method : Bytes
  host : Bytes
  header : Header
  trailer : Header
  actualContentLength : Int

/-- What `validateHeaders` finds: a name, or the name of a value. -/
inductive InvalidHeader
  | name (key : Bytes)
  | value (key : Bytes)
deriving DecidableEq, Repr

/-- The errors of `EncodeHeaders`, with what their texts quote. -/
inductive EncodeError
  | invalidUpgrade (values : List Bytes)
  | invalidTransferEncoding (values : List Bytes)
  | invalidConnection (values : List Bytes)
  | urlIsNil
  | punycode (text : Bytes)
  | invalidHost
  | protocolWithoutConnect
  | invalidPath (path opaqueText : Bytes)
  | invalidHeader (found : InvalidHeader)
  | invalidTrailer (found : InvalidHeader)
  | invalidTrailerKey (key : Bytes)
  | headerListSize
deriving DecidableEq, Repr

/-! ## Connection-level headers -/

def asciiEqualFold (text text' : Bytes) : Bool := lower text == lower text'

/-- `isASCIIPrint`: every byte from the space to `~`. -/
def isASCIIPrint (text : Bytes) : Bool := text.all fun c => 32 ≤ c && c ≤ 126

/-- `h[key]`. -/
def Header.values (header : Header) (key : Bytes) : List Bytes := (header.lookup key).getD []

def checkConnHeaders (header : Header) : Except EncodeError Unit := do
  match Header.values header (ascii "Upgrade") with
  | [] => pure ()
  | first :: rest =>
    if first ≠ [] ∧ first ≠ ascii "chunked" then throw (.invalidUpgrade (first :: rest))
  match Header.values header (ascii "Transfer-Encoding") with
  | [] => pure ()
  | first :: rest =>
    if rest ≠ [] ∨ first ≠ [] ∧ first ≠ ascii "chunked" then
      throw (.invalidTransferEncoding (first :: rest))
  match Header.values header (ascii "Connection") with
  | [] => pure ()
  | first :: rest =>
    if rest ≠ [] ∨ first ≠ [] ∧ asciiEqualFold first (ascii "close") = false ∧
        asciiEqualFold first (ascii "keep-alive") = false then
      throw (.invalidConnection (first :: rest))

/-! ## The host -/

/-- `httpguts.PunycodeHostPort`. -/
def punycodeHostPort (lib : Library) (host : Bytes) : Except EncodeError Bytes :=
  if isASCII host then .ok host
  else
    match lib.unicodePunycode host with
    | .ok host => .ok host
    | .error text => .error (.punycode text)

def validHostByte (c : UInt8) : Bool :=
  isLower c || isUpper c || isDigit c || (ascii "!$%&()*+,-.:;=[']_~").contains c

/-- `httpguts.ValidHostHeader`. -/
def validHostHeader (host : Bytes) : Bool := host.all validHostByte

def Request.hostText (request : Request) (url : URL) : Bytes :=
  if request.host = [] then url.host else request.host

/-! ## The protocol and the path -/

def Request.protocol (request : Request) : Bytes :=
  ((Header.values request.header (ascii ":protocol")).head?).getD []

def Request.isNormalConnect (request : Request) : Bool :=
  request.method == ascii "CONNECT" && request.protocol == []

def validPseudoPath (path : Bytes) : Bool :=
  path.head? == some 47 || path == ascii "*"

/-- `strings.TrimPrefix`. -/
def trimPrefix (text start : Bytes) : Bytes :=
  if start.isPrefixOf text then text.drop start.length else text

def pseudoPath (url : URL) (host : Bytes) : Except EncodeError Bytes :=
  let path := url.requestURI
  if validPseudoPath path then .ok path
  else
    let trimmed := trimPrefix path (url.scheme ++ ascii "://" ++ host)
    if validPseudoPath trimmed then .ok trimmed
    else .error (.invalidPath path url.opaqueText)

/-- A plain CONNECT has no path. -/
def Request.checkPath (request : Request) (url : URL) (host : Bytes) : Except EncodeError Bytes :=
  if request.isNormalConnect then .ok [] else pseudoPath url host

/-! ## Headers and trailers -/

/-- `httpguts.ValidHeaderFieldName`. -/
def validHeaderFieldName (key : Bytes) : Bool := key != [] && key.all validHeaderFieldByte

/-- `httpguts.ValidHeaderFieldValue`: no control character but the tab. -/
def validHeaderFieldValue (value : Bytes) : Bool :=
  value.all fun c => !((c < 32 || c == 127) && !(c == 32 || c == 9))

/-- One round of the loop of `validateHeaders`. -/
def invalidEntry (entry : Bytes × List Bytes) : Option InvalidHeader :=
  if !validHeaderFieldName entry.1 && entry.1 != ascii ":protocol" then some (.name entry.1)
  else if entry.2.all validHeaderFieldValue then none
  else some (.value entry.1)

def validateHeaders (order : MapOrder) (header : Header) : Option InvalidHeader :=
  (header.range order).findSome? invalidEntry

/-- The names that `headermap.go` keeps in both spellings. -/
def commonHeaders : List Bytes :=
  ["accept", "accept-charset", "accept-encoding", "accept-language", "accept-ranges", "age",
    "access-control-allow-credentials", "access-control-allow-headers",
    "access-control-allow-methods", "access-control-allow-origin",
    "access-control-expose-headers", "access-control-max-age", "access-control-request-headers",
    "access-control-request-method", "allow", "authorization", "cache-control",
    "content-disposition", "content-encoding", "content-language", "content-length",
    "content-location", "content-range", "content-type", "cookie", "date", "etag", "expect",
    "expires", "from", "host", "if-match", "if-modified-since", "if-none-match",
    "if-unmodified-since", "last-modified", "link", "location", "max-forwards", "origin",
    "proxy-authenticate", "proxy-authorization", "range", "referer", "refresh", "retry-after",
    "server", "set-cookie", "strict-transport-security", "trailer", "transfer-encoding",
    "user-agent", "vary", "via", "www-authenticate", "x-forwarded-for",
    "x-forwarded-proto"].map ascii

def commonLowerHeader : GoMap Bytes Bytes :=
  commonHeaders.foldl (fun table name => table.insert (canonicalHeaderKey name) name) ∅

def commonCanonHeader : GoMap Bytes Bytes :=
  commonHeaders.foldl (fun table name => table.insert name (canonicalHeaderKey name)) ∅

def canonicalHeader (key : Bytes) : Bytes :=
  match commonCanonHeader.lookup key with
  | some canonical => canonical
  | none => canonicalHeaderKey key

def forbiddenTrailers : List Bytes := ["Transfer-Encoding", "Trailer", "Content-Length"].map ascii

def commaSeparatedTrailers (order : MapOrder) (trailer : Header) : Except EncodeError Bytes :=
  let keys := (trailer.range order).map (canonicalHeader ·.1)
  match keys.find? (forbiddenTrailers.contains ·) with
  | some key => .error (.invalidTrailerKey key)
  | none => .ok ((ascii ",").intercalate (keys.insertionSort (· ≤ ·)))

/-! ## The request -/

/-- What the request is addressed to. -/
structure Target where
  url : URL
  host : Bytes
  path : Bytes
deriving DecidableEq, Repr

/-- The checks up to the path. -/
def checkTarget (lib : Library) (request : Request) : Except EncodeError Target := do
  checkConnHeaders request.header
  match request.url with
  | none => .error .urlIsNil
  | some url =>
    let host ← punycodeHostPort lib (request.hostText url)
    if validHostHeader host = false then .error .invalidHost
    else if request.protocol ≠ [] ∧ request.method ≠ ascii "CONNECT" then
      .error .protocolWithoutConnect
    else do
      let path ← request.checkPath url host
      return ⟨url, host, path⟩

structure CheckOrders where
  header : MapOrder
  trailer : MapOrder
  trailerKeys : MapOrder

/-- The checks after the path; the text of the `trailer` field. -/
def checkFields (orders : CheckOrders) (request : Request) : Except EncodeError Bytes :=
  match validateHeaders orders.header request.header with
  | some found => .error (.invalidHeader found)
  | none =>
    match validateHeaders orders.trailer request.trailer with
    | some found => .error (.invalidTrailer found)
    | none => commaSeparatedTrailers orders.trailerKeys request.trailer

/-! ### A valid request -/

variable {request : Request} {order : MapOrder}

theorem checkTarget_eq_ok {lib : Library} {target : Target}
    (h : checkTarget lib request = .ok target) :
    request.url = some target.url ∧
      punycodeHostPort lib (request.hostText target.url) = .ok target.host ∧
      request.checkPath target.url target.host = .ok target.path := by
  rw [checkTarget, check_bind_eq_ok] at h
  obtain ⟨-, h⟩ := h
  cases hurl : request.url with
  | none =>
    rw [hurl] at h
    cases h
  | some url =>
    simp only [hurl] at h
    obtain ⟨host, hhost, h⟩ := bind_eq_ok.mp h
    rw [guard_eq_ok, guard_eq_ok, bind_eq_ok] at h
    obtain ⟨-, -, path, hpath, h⟩ := h
    cases h
    exact ⟨rfl, hhost, hpath⟩

theorem validateHeaders_eq_none_iff {header : Header} :
    validateHeaders order header = none ↔ ∀ e ∈ header.range .stored, invalidEntry e = none := by
  rw [validateHeaders, findSome?_eq_none_iff]
  apply forall_congr'
  intro e
  rw [(GoMap.range_perm header order .stored).mem_iff]

theorem printable_of_validHeaderFieldByte : ∀ c : UInt8, validHeaderFieldByte c = true →
    (32 ≤ c && c ≤ 126) = true :=
  forall_byte (by decide +kernel)

/-- **The names of a valid map can be written.** -/
theorem isASCIIPrint_of_valid {header : Header} (h : validateHeaders order header = none) :
    ∀ e ∈ header.range .stored, isASCIIPrint e.1 = true := by
  intro e he
  have hvalid := validateHeaders_eq_none_iff.mp h e he
  rw [invalidEntry] at hvalid
  by_cases hname : validHeaderFieldName e.1 = true
  · rw [validHeaderFieldName, Bool.and_eq_true, all_eq_true] at hname
    rw [isASCIIPrint, all_eq_true]
    intro c hc
    exact printable_of_validHeaderFieldByte c (hname.2 c hc)
  · by_cases hprotocol : e.1 = ascii ":protocol"
    · rw [hprotocol]
      decide
    · simp [hname, hprotocol] at hvalid

theorem isASCII_of_print {text : Bytes} (h : isASCIIPrint text = true) : isASCII text = true := by
  rw [isASCIIPrint, all_eq_true] at h
  rw [isASCII, all_eq_true]
  have hbyte : ∀ c : UInt8, (32 ≤ c && c ≤ 126) = true → decide (c < 0x80) = true :=
    forall_byte (by decide +kernel)
  exact fun c hc => hbyte c (h c hc)

/-- The text of the `trailer` field does not depend on the loop. -/
theorem commaSeparatedTrailers_congr {trailer : Header} {text : Bytes}
    (h : commaSeparatedTrailers order trailer = .ok text) (order' : MapOrder) :
    commaSeparatedTrailers order' trailer = .ok text := by
  have hperm := (GoMap.range_perm trailer order' order).map (canonicalHeader ·.1)
  rw [commaSeparatedTrailers] at h ⊢
  cases hfind : ((trailer.range order).map (canonicalHeader ·.1)).find?
      (forbiddenTrailers.contains ·) with
  | some key =>
    simp only [hfind] at h
    cases h
  | none =>
    simp only [hfind, Except.ok.injEq] at h
    have hnone : ((trailer.range order').map (canonicalHeader ·.1)).find?
        (forbiddenTrailers.contains ·) = none := by
      rw [find?_eq_none] at hfind ⊢
      intro key hkey
      exact hfind key (hperm.mem_iff.mp hkey)
    simp only [hnone, Except.ok.injEq]
    rw [← h]
    congr 1
    -- two sorted lists of the same texts
    apply List.Perm.eq_of_pairwise (fun a b _ _ hab hba => List.le_antisymm hab hba)
      (pairwise_insertionSort _ _) (pairwise_insertionSort _ _)
    exact ((perm_insertionSort _ _).trans hperm).trans (perm_insertionSort _ _).symm

theorem checkFields_eq_ok_iff {orders : CheckOrders} {trailers : Bytes} :
    checkFields orders request = .ok trailers ↔
      validateHeaders orders.header request.header = none ∧
        validateHeaders orders.trailer request.trailer = none ∧
        commaSeparatedTrailers orders.trailerKeys request.trailer = .ok trailers := by
  rw [checkFields]
  cases validateHeaders orders.header request.header with
  | some found => simp
  | none =>
    cases validateHeaders orders.trailer request.trailer with
    | some found => simp
    | none => simp

/-- **Whether a request passes does not depend on the loops.** -/
theorem checkFields_congr {orders : CheckOrders} {trailers : Bytes}
    (h : checkFields orders request = .ok trailers) (orders' : CheckOrders) :
    checkFields orders' request = .ok trailers := by
  rw [checkFields_eq_ok_iff] at h ⊢
  obtain ⟨hheader, htrailer, htext⟩ := h
  rw [validateHeaders_eq_none_iff] at hheader htrailer ⊢
  rw [validateHeaders_eq_none_iff]
  exact ⟨hheader, htrailer, commaSeparatedTrailers_congr htext orders'.trailerKeys⟩

end HeadlessClient.Http2
