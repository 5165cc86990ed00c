import HeadlessClient.Http1.Header

/-!
# Http1 — writing a request

`WriteRequest` of `internal/chromehttp1/request.go`: the request line, one line
per header value in Chrome's order, an empty line and the body, with nothing
checked on the way. `(*url.URL).EscapedPath` is taken as the text it returns.

The writer may fail after any number of bytes and the body may end in a read
error; otherwise `WriteRequest` returns nil.
-/

namespace HeadlessClient.Http1

open Base Wire List

/-- The parts of `url.URL` that `RequestURI` reads, and the host. -/
structure URL where
  scheme : Bytes
  opaqueText : Bytes
  escapedPath : Bytes
  forceQuery : Bool
  rawQuery : Bytes
  host : Bytes
deriving DecidableEq, Repr

/-- `(*url.URL).RequestURI`. -/
def URL.requestURI (url : URL) : Bytes :=
  let path :=
    if url.opaqueText = [] then
      if url.escapedPath = [] then ascii "/" else url.escapedPath
    else if (ascii "//").isPrefixOf url.opaqueText then
      url.scheme ++ ascii ":" ++ url.opaqueText
    else url.opaqueText
  if url.forceQuery || url.rawQuery != [] then path ++ ascii "?" ++ url.rawQuery else path

/-- A request body: what it yields, and whether it ends in an error. -/
structure Body where
  data : Bytes
  fails : Bool
deriving DecidableEq, Repr

/-- `http.Request`. -/
structure Request where
  method : Bytes
  url : URL
  host : Bytes
  header : Header
  contentLength : Int
  body : Option Body
  close : Bool

/-- An `io.Writer` that fails after so many bytes, if ever. -/
structure Writer where
  limit : Option Nat

def Writer.accepts (writer : Writer) (n : Nat) : Bool := writer.limit.all (n ≤ ·)

/-- What arrived, and whether `WriteRequest` returned nil. -/
structure Written where
  bytes : Bytes
  ok : Bool
deriving DecidableEq, Repr

def Writer.write (writer : Writer) (text : Bytes) : Written :=
  if writer.accepts text.length then ⟨text, true⟩
  else ⟨text.take (writer.limit.getD 0), false⟩

/-- Decimal digits, most significant first, for a number of at most `fuel` of them. -/
def decimalLoop : Nat → Nat → Bytes → Bytes
  | 0, _, digits => digits
  | fuel + 1, n, digits =>
    let digits := (48 + n % 10).toUInt8 :: digits
    if n / 10 = 0 then digits else decimalLoop fuel (n / 10) digits

/-- `strconv.FormatInt(n, 10)` of a number that is not negative. -/
def decimal (n : Nat) : Bytes := decimalLoop (n + 1) n []

/-! ### Numbers and their text -/

/-- The number that digits stand for. -/
def digitsValue (digits : Bytes) : Nat := digits.foldl (fun v d => v * 10 + (d.toNat - 48)) 0

theorem toNat_digit (n : Nat) : ((48 + n % 10).toUInt8).toNat = 48 + n % 10 := by
  change (UInt8.ofNat (48 + n % 10)).toNat = _
  rw [UInt8.toNat_ofNat']
  omega

theorem decimalLoop_append (fuel : Nat) : ∀ (n : Nat) (digits : Bytes),
    decimalLoop fuel n digits = decimalLoop fuel n [] ++ digits := by
  induction fuel with
  | zero => intro n digits; rfl
  | succ fuel ih =>
    intro n digits
    rw [decimalLoop, decimalLoop]
    by_cases hlast : n / 10 = 0
    · rw [if_pos hlast, if_pos hlast]
      rfl
    · rw [if_neg hlast, if_neg hlast, ih, ih (n / 10) [_], append_assoc]
      rfl

theorem digitsValue_decimalLoop (fuel : Nat) : ∀ n < fuel,
    digitsValue (decimalLoop fuel n []) = n := by
  induction fuel with
  | zero => intro n hn; exact absurd hn (Nat.not_lt_zero n)
  | succ fuel ih =>
    intro n hn
    rw [decimalLoop]
    by_cases hlast : n / 10 = 0
    · rw [if_pos hlast, digitsValue, foldl_cons, foldl_nil, toNat_digit]
      omega
    · have hrest := ih (n / 10) (by omega)
      rw [if_neg hlast, decimalLoop_append, digitsValue, foldl_append, foldl_cons,
        foldl_nil, toNat_digit]
      rw [digitsValue] at hrest
      rw [hrest]
      omega

theorem decimal_injective {m n : Nat} (h : decimal m = decimal n) : m = n := by
  have hm := digitsValue_decimalLoop (m + 1) m (Nat.lt_succ_self m)
  have hn := digitsValue_decimalLoop (n + 1) n (Nat.lt_succ_self n)
  change digitsValue (decimal m) = m at hm
  rw [h] at hm
  exact hm.symm.trans hn

theorem digit_of_mem_decimalLoop (fuel : Nat) : ∀ (n : Nat), ∀ d ∈ decimalLoop fuel n [],
    48 ≤ d.toNat ∧ d.toNat ≤ 57 := by
  induction fuel with
  | zero => intro n d hd; exact absurd hd not_mem_nil
  | succ fuel ih =>
    intro n d hd
    have hdigit : d ∈ decimalLoop fuel (n / 10) [] ∨ d = (48 + n % 10).toUInt8 := by
      rw [decimalLoop] at hd
      split_ifs at hd with hlast
      · rw [mem_singleton] at hd
        exact .inr hd
      · rw [decimalLoop_append, mem_append, mem_singleton] at hd
        exact hd
    rcases hdigit with hd | rfl
    · exact ih _ d hd
    · rw [toNat_digit]
      omega

theorem digit_of_mem_decimal {n : Nat} {d : UInt8} (h : d ∈ decimal n) :
    48 ≤ d.toNat ∧ d.toNat ≤ 57 :=
  digit_of_mem_decimalLoop _ n d h
/-! ### The head -/

namespace Request

variable (request : Request)

def hostText : Bytes := if request.host = [] then request.url.host else request.host

/-- The local `header`: the caller's without `Priority`, with the defaults. -/
def sentHeader : Header :=
  let header := request.header.del (ascii "Priority")
  let header :=
    if header.get (ascii "Connection") = [] then
      header.set (ascii "Connection") (ascii "keep-alive")
    else header
  if request.contentLength > 0 ∧ header.get (ascii "Content-Length") = [] then
    header.set (ascii "Content-Length") (decimal request.contentLength.toNat)
  else header

def requestLine : Bytes :=
  request.method ++ ascii " " ++ request.url.requestURI ++ ascii " HTTP/1.1"

def hostLine : Bytes := ascii "Host: " ++ request.hostText

end Request

def fieldLine (field : Bytes × Bytes) : Bytes := field.1 ++ ascii ": " ++ field.2

/-- The orders of the two `range` loops of one call. -/
structure Orders where
  header : MapOrder
  present : MapOrder

section Head

variable (request : Request) (orders : Orders)

def Request.index : Index := indexHeader request.sentHeader orders.header

def Request.names : List Bytes :=
  orderedHeaderNames (request.index orders) request.hostText orders.present

/-- The lines of the loop over the names. -/
def Request.headerLines : List Bytes :=
  (request.names orders).flatMap fun name =>
    if name = ascii "Host" then [request.hostLine]
    else ((request.index orders).valuesOf (canonicalHeaderKey name)).map fun value =>
      fieldLine (name, value)

/-- The contents of the builder. -/
def Request.head : Bytes :=
  block (request.requestLine :: request.headerLines orders) ++ crlf

end Head

def writeRequest (orders : Orders) (writer : Writer) (request : Request) : Written :=
  let head := request.head orders
  if writer.accepts head.length then
    match request.body with
    | none => ⟨head, true⟩
    | some body =>
      let written := writer.write (head ++ body.data)
      ⟨written.bytes, written.ok && !body.fails⟩
  else writer.write head

/-- The bytes after the header block. -/
def Request.bodyBytes (request : Request) : Bytes := (request.body.map (·.data)).getD []

theorem writeRequest_ok {orders : Orders} {writer : Writer} {request : Request}
    (h : (writeRequest orders writer request).ok = true) :
    (writeRequest orders writer request).bytes = request.head orders ++ request.bodyBytes := by
  unfold writeRequest Request.bodyBytes at *
  by_cases hhead : writer.accepts (request.head orders).length = true
  · rw [if_pos hhead] at h ⊢
    cases hbody : request.body with
    | none => simp
    | some body =>
      rw [hbody] at h
      simp only [Writer.write] at h ⊢
      by_cases hall : writer.accepts (request.head orders ++ body.data).length = true
      · rw [if_pos hall]
        rfl
      · rw [if_neg hall] at h
        cases h
  · rw [if_neg hhead] at h
    simp [Writer.write, hhead] at h

/-! ## What is written -/

/-- The pairs a request sends besides `Host`: the caller's without `Priority`,
with the defaults, under canonical names. -/
def Request.fields (request : Request) : List (Bytes × Bytes) :=
  ((request.sentHeader.range .stored).filter fun e => canonicalHeaderKey e.1 ≠ ascii "Host").flatMap
    fun e => e.2.map fun value => (canonicalHeaderKey e.1, value)

def Request.HasHost (request : Request) : Prop :=
  request.hostText ≠ [] ∨ ∃ e ∈ request.sentHeader.range .stored,
    canonicalHeaderKey e.1 = ascii "Host"

/-- The pairs of a name that is written. -/
def Request.linesOf (request : Request) (orders : Orders) (name : Bytes) : List (Bytes × Bytes) :=
  ((request.index orders).valuesOf (canonicalHeaderKey name)).map fun value => (name, value)

/-- The pairs in the order and the spelling in which they are written. -/
def Request.written (request : Request) (orders : Orders) : List (Bytes × Bytes) :=
  ((request.names orders).filter (· ≠ ascii "Host")).flatMap (request.linesOf orders)

section Written

variable (request : Request) (orders : Orders)

theorem casing_index : ∀ c ∈ (request.index orders).values,
    canonicalHeaderKey ((request.index orders).casingOf c) = c :=
  fun _ => casing_indexHeader

theorem names_perm : ((request.names orders).map canonicalHeaderKey).Perm
    (((presentNames (request.index orders).values request.hostText).range orders.present).map
      Prod.fst) :=
  orderedHeaderNames_perm request.hostText orders.present (casing_index request orders)

theorem mem_names_iff {c : Bytes} :
    c ∈ (request.names orders).map canonicalHeaderKey ↔
      (∃ e ∈ request.sentHeader.range .stored, canonicalHeaderKey e.1 = c) ∨
        (request.hostText ≠ [] ∧ c = ascii "Host") := by
  rw [(names_perm request orders).mem_iff, mem_range_presentNames, Present, Request.index,
    mem_indexHeader]

theorem host_mem_names :
    ascii "Host" ∈ request.names orders ↔ request.HasHost := by
  have hcanon : canonicalHeaderKey (ascii "Host") = ascii "Host" := by decide
  have hkey : ascii "Host" ∈ request.names orders ↔
      ascii "Host" ∈ (request.names orders).map canonicalHeaderKey := by
    constructor
    · intro h
      exact mem_map.mpr ⟨_, h, hcanon⟩
    · intro h
      obtain ⟨name, hmem, hname⟩ := mem_map.mp h
      rwa [eq_host_of_mem_names (casing_index request orders) hmem hname] at hmem
  rw [hkey, mem_names_iff, Request.HasHost, and_iff_left rfl, or_comm]

theorem nodup_map_names : ((request.names orders).map canonicalHeaderKey).Nodup :=
  (names_perm request orders).nodup_iff.mpr (GoMap.nodup_keys_range _ _)

theorem nodup_names : (request.names orders).Nodup :=
  .of_map canonicalHeaderKey (nodup_map_names request orders)

/-- The lines are the `Host` line, if there is one, and one line per pair. -/
theorem headerLines_perm : (request.headerLines orders).Perm
    (((request.names orders).filter (· = ascii "Host")).map (fun _ => request.hostLine) ++
      (request.written orders).map fieldLine) := by
  unfold Request.headerLines Request.written
  induction request.names orders with
  | nil => exact .refl _
  | cons name names ih =>
    rw [flatMap_cons]
    by_cases hname : name = ascii "Host"
    · rw [if_pos hname, filter_cons_of_pos (by simpa using hname),
        filter_cons_of_neg (by simpa using hname)]
      exact ih.cons _
    · rw [if_neg hname, filter_cons_of_neg (by simpa using hname),
        filter_cons_of_pos (by simpa using hname), flatMap_cons, map_append,
        Request.linesOf, map_map]
      refine (ih.append_left _).trans ?_
      rw [← append_assoc, ← append_assoc]
      exact perm_append_comm.append_right _

/-- Among the names, not being `Host` is a property of the key. -/
theorem map_filter_names :
    ((request.names orders).filter (· ≠ ascii "Host")).map canonicalHeaderKey
      = ((request.names orders).map canonicalHeaderKey).filter (· ≠ ascii "Host") := by
  rw [filter_map]
  refine congrArg _ (filter_congr fun name hname => ?_)
  have hiff : name = ascii "Host" ↔ canonicalHeaderKey name = ascii "Host" :=
    ⟨fun h => by rw [h]; decide, eq_host_of_mem_names (casing_index request orders) hname⟩
  simp [hiff]

/-- **One line per pair that is sent**, whatever the orders of the loops. -/
theorem written_perm :
    ((request.written orders).map fun field => (canonicalHeaderKey field.1, field.2)).Perm
      request.fields := by
  obtain ⟨entries, hentries⟩ : ∃ es, request.sentHeader.range orders.header = es := ⟨_, rfl⟩
  have hstored : entries.Perm (request.sentHeader.range .stored) :=
    hentries ▸ GoMap.range_perm _ orders.header .stored
  have hwritten : ((request.written orders).map fun field => (canonicalHeaderKey field.1, field.2))
      = (((request.names orders).map canonicalHeaderKey).filter (· ≠ ascii "Host")).flatMap
          fun c => (entries.filter fun e => canonicalHeaderKey e.1 = c).flatMap
            fun e => e.2.map fun value => (canonicalHeaderKey e.1, value) := by
    rw [← map_filter_names, flatMap_map, Request.written, map_flatMap]
    refine flatMap_congr fun name _ => ?_
    rw [Request.linesOf, map_map, Request.index, valuesOf_indexHeader, hentries, map_flatMap]
    refine flatMap_congr fun e he => ?_
    have hkey := of_decide_eq_true (mem_filter.mp he).2
    refine map_congr_left fun value _ => ?_
    show (canonicalHeaderKey name, value) = _
    rw [hkey]
  rw [hwritten, ← flatMap_assoc]
  refine (List.Perm.flatMap_right _ ?_).trans ((hstored.filter _).flatMap_right _)
  have hgroups : ((((request.names orders).map canonicalHeaderKey).filter
      (· ≠ ascii "Host")).flatMap fun c => entries.filter fun e => canonicalHeaderKey e.1 = c)
      = (((request.names orders).map canonicalHeaderKey).filter (· ≠ ascii "Host")).flatMap fun c =>
        (entries.filter fun e => canonicalHeaderKey e.1 ≠ ascii "Host").filter fun e =>
          canonicalHeaderKey e.1 = c := by
    refine flatMap_congr fun c hc => ?_
    have hne : c ≠ ascii "Host" := of_decide_eq_true (mem_filter.mp hc).2
    rw [filter_filter]
    refine filter_congr fun e _ => ?_
    by_cases he : canonicalHeaderKey e.1 = c
    · simp [he, hne]
    · simp [he]
  rw [hgroups]
  refine flatMap_filter_perm (fun e : Bytes × List Bytes => canonicalHeaderKey e.1)
    ((nodup_map_names request orders).filter _) _ fun e he => ?_
  obtain ⟨he, hne⟩ := mem_filter.mp he
  have hmem := (mem_names_iff request orders).mpr (.inl ⟨e, hstored.mem_iff.mp he, rfl⟩)
  exact mem_filter.mpr ⟨hmem, hne⟩

end Written

/-! ## The header block -/

/-- Nothing that goes into a line has a line break in it. -/
structure Request.Clean (request : Request) : Prop where
  method : NoBreak request.method
  uri : NoBreak request.url.requestURI
  host : NoBreak request.hostText
  fields : ∀ field ∈ request.fields, NoBreak field.1 ∧ NoBreak field.2

/-- The header block read back from the bytes: the request line, one `Host` line
and one line per pair that is sent, then the body. -/
def HeadBlock (request : Request) (bytes : Bytes) : Prop :=
  ∃ lines, cutBlock bytes = some (request.requestLine :: lines, request.bodyBytes) ∧
    ∃ fields : List (Bytes × Bytes), lines.Perm (request.hostLine :: fields.map fieldLine) ∧
      (fields.map fun field => (canonicalHeaderKey field.1, field.2)).Perm request.fields

section Block

variable {request : Request} {orders : Orders}

theorem noBreak_fieldLine (field : Bytes × Bytes) :
    NoBreak (fieldLine field) ↔ NoBreak field.1 ∧ NoBreak field.2 := by
  obtain ⟨name, value⟩ := field
  rw [fieldLine, append_assoc]
  show NoBreak (name ++ 58 :: (([] : Bytes) ++ 32 :: value)) ↔ _
  rw [noBreak_join (by decide) (by decide), noBreak_join (by decide) (by decide)]
  exact and_congr_right fun _ => and_iff_right rfl

theorem noBreak_requestLine :
    NoBreak request.requestLine ↔ NoBreak request.method ∧ NoBreak request.url.requestURI := by
  rw [Request.requestLine, append_assoc, append_assoc]
  show NoBreak (request.method ++ 32 :: (request.url.requestURI ++ 32 :: ascii "HTTP/1.1")) ↔ _
  rw [noBreak_join (by decide) (by decide), noBreak_join (by decide) (by decide)]
  exact and_congr_right fun _ => and_iff_left (by decide)

theorem noBreak_hostLine : NoBreak request.hostLine ↔ NoBreak request.hostText := by
  show NoBreak (ascii "Host:" ++ 32 :: request.hostText) ↔ _
  rw [noBreak_join (by decide) (by decide)]
  exact and_iff_right (by decide)

theorem noBreak_fields {fields : List (Bytes × Bytes)}
    (hperm : (fields.map fun field => (canonicalHeaderKey field.1, field.2)).Perm request.fields) :
    (∀ field ∈ fields, NoBreak (fieldLine field)) ↔
      ∀ field ∈ request.fields, NoBreak field.1 ∧ NoBreak field.2 := by
  have hmem : ∀ field, field ∈ request.fields ↔
      ∃ f ∈ fields, (canonicalHeaderKey f.1, f.2) = field := by
    intro field
    rw [← hperm.mem_iff, mem_map]
  constructor
  · intro h field hfield
    obtain ⟨f, hf, rfl⟩ := (hmem field).mp hfield
    obtain ⟨hname, hvalue⟩ := (noBreak_fieldLine f).mp (h f hf)
    exact ⟨(noBreak_canonicalHeaderKey f.1).mpr hname, hvalue⟩
  · intro h f hf
    obtain ⟨hname, hvalue⟩ := h _ ((hmem _).mpr ⟨f, hf, rfl⟩)
    exact (noBreak_fieldLine f).mpr ⟨(noBreak_canonicalHeaderKey f.1).mp hname, hvalue⟩

theorem plain_of_clean (h : request.Clean) :
    Plain (request.requestLine :: request.headerLines orders) := by
  intro line hline
  rcases mem_cons.mp hline with rfl | hline
  · refine ⟨?_, noBreak_requestLine.mpr ⟨h.method, h.uri⟩⟩
    simp [Request.requestLine, ascii]
  · rcases mem_append.mp ((headerLines_perm request orders).mem_iff.mp hline) with hhost | hfield
    · obtain ⟨_, -, rfl⟩ := mem_map.mp hhost
      exact ⟨by simp [Request.hostLine, ascii], noBreak_hostLine.mpr h.host⟩
    · obtain ⟨field, hwritten, rfl⟩ := mem_map.mp hfield
      refine ⟨by simp [fieldLine, ascii], ?_⟩
      exact (noBreak_fields (written_perm request orders)).mpr h.fields field hwritten

theorem Request.Clean.cutBlock (h : request.Clean) (rest : Bytes) :
    Wire.cutBlock (request.head orders ++ rest)
      = some (request.requestLine :: request.headerLines orders, rest) :=
  cutBlock_eq_some.mpr ⟨rfl, plain_of_clean h⟩

theorem HeadBlock.clean {bytes : Bytes} (h : HeadBlock request bytes) : request.Clean := by
  obtain ⟨lines, hcut, fields, hlines, hfields⟩ := h
  obtain ⟨-, hplain⟩ := cutBlock_eq_some.mp hcut
  have hall : ∀ line ∈ request.hostLine :: fields.map fieldLine, NoBreak line := fun line hline =>
    (hplain line (mem_cons_of_mem _ (hlines.mem_iff.mpr hline))).2
  obtain ⟨hmethod, huri⟩ := noBreak_requestLine.mp (hplain _ mem_cons_self).2
  refine ⟨hmethod, huri, noBreak_hostLine.mp (hall _ mem_cons_self), ?_⟩
  refine (noBreak_fields hfields).mp fun field hfield => hall _ ?_
  exact mem_cons_of_mem _ (mem_map.mpr ⟨field, hfield, rfl⟩)

theorem length_written : (request.written orders).length = request.fields.length := by
  rw [← (written_perm request orders).length_eq, length_map]

end Block

/-- **The header block is intact iff the request has a host and nothing in it
breaks a line**, for every request that is written without an error. -/
theorem writeRequest_head_intact_iff {orders : Orders} {writer : Writer} {request : Request}
    (h : (writeRequest orders writer request).ok = true) :
    HeadBlock request (writeRequest orders writer request).bytes ↔
      request.HasHost ∧ request.Clean := by
  rw [writeRequest_ok h]
  have hlines := headerLines_perm request orders
  constructor
  · intro hblock
    have hclean := hblock.clean
    refine ⟨?_, hclean⟩
    obtain ⟨lines, hcut, fields, hperm, hfields⟩ := hblock
    rw [hclean.cutBlock] at hcut
    cases hcut
    -- as many lines as pairs, and one more
    by_contra hno
    have hnone : (request.names orders).filter (· = ascii "Host") = [] := by
      refine filter_eq_nil_iff.mpr fun name hname heq => hno ?_
      rw [← host_mem_names request orders]
      rwa [of_decide_eq_true heq] at hname
    rw [hnone, map_nil, nil_append] at hlines
    have hlen := hlines.length_eq.symm.trans hperm.length_eq
    have hcount := hfields.length_eq
    simp only [length_map, length_cons, length_written] at hlen hcount
    omega
  · rintro ⟨hhost, hclean⟩
    refine ⟨_, hclean.cutBlock _, request.written orders, ?_, written_perm request orders⟩
    have hone : (request.names orders).filter (· = ascii "Host") = [ascii "Host"] := by
      have hmem := (host_mem_names request orders).mpr hhost
      rw [filter_eq, (count_eq_one_of_mem (nodup_names request orders) hmem)]
      rfl
    rw [hone] at hlines
    exact hlines

def getRequest (name value : Bytes) : Request where
  method := ascii "GET"
  url := ⟨ascii "https", [], ascii "/", false, [], ascii "a"⟩
  host := []
  header := (∅ : Header).insert name [value]
  contentLength := 0
  body := none
  close := false

/-- Loops that visit the entries as stored, and a writer that does not fail. -/
def storedOrders : Orders := ⟨.stored, .stored⟩

def reliable : Writer := ⟨none⟩

theorem writeRequest_head_intact_accept :
    HeadBlock (getRequest (ascii "Accept") (ascii "*/*"))
      (writeRequest storedOrders reliable (getRequest (ascii "Accept") (ascii "*/*"))).bytes := by
  refine (writeRequest_head_intact_iff (by decide +kernel)).mpr ⟨.inl (by decide +kernel), ?_⟩
  exact ⟨by decide, by decide, by decide, by decide +kernel⟩

/-- A line break in a value is written as it is: the server reads a header the
caller never named. -/
theorem writeRequest_head_injected :
    (writeRequest storedOrders reliable
        (getRequest (ascii "X") (ascii "1" ++ crlf ++ ascii "Y: 2"))).ok = true ∧
      cutBlock (writeRequest storedOrders reliable
          (getRequest (ascii "X") (ascii "1" ++ crlf ++ ascii "Y: 2"))).bytes
        = some (["GET / HTTP/1.1", "Host: a", "Connection: keep-alive", "X: 1", "Y: 2"].map ascii,
            []) ∧
      ¬HeadBlock (getRequest (ascii "X") (ascii "1" ++ crlf ++ ascii "Y: 2"))
        (writeRequest storedOrders reliable
          (getRequest (ascii "X") (ascii "1" ++ crlf ++ ascii "Y: 2"))).bytes := by
  refine ⟨by decide +kernel, by decide +kernel, fun hblock => ?_⟩
  have hfield := hblock.clean.fields (ascii "X", ascii "1" ++ crlf ++ ascii "Y: 2") (by decide)
  exact absurd hfield.2 (by decide)

end HeadlessClient.Http1
