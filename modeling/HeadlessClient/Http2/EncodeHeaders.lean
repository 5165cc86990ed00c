import HeadlessClient.Http2.Validate

/-!
# Http2 — the fields of a request

`EncodeHeaders` of `internal/chromehttp2/internal/httpcommon/request.go`, after its checks:
`enumerateHeaders` calls a function with every field, once to count the bytes and once to
write them. The fields are the pseudo-headers, two that the encoder computes (`trailer`,
`content-length`), those of the header map in the order of `orderedHeaderKeys`, and two that
the encoder ADDS at the end (`accept-encoding`, `user-agent`).

`encodeHeaders_inTableOrder` says where the fields of the map stand, and
`encodeHeaders_priority_last_iff` when the added ones leave `priority` at the end.

The callbacks of `httptrace` are left out.
-/

namespace HeadlessClient.Http2

open Base Wire List
open Http1 (URL canonicalHeaderKey decimal)

abbrev Field := Bytes × Bytes

structure EncodeHeadersParam where
  request : Request
  addGzipHeader : Bool
  peerMaxHeaderListSize : UInt64
  defaultUserAgent : Bytes

structure EncodeHeadersResult where
  hasBody : Bool
  hasTrailers : Bool
deriving DecidableEq, Repr

/-! ## The header map -/

def semicolon : UInt8 := 59
def space : UInt8 := 32

/-- The loop over one value of `cookie`, for at most `fuel` semicolons. -/
def cookieLoop : Nat → Bytes → List Bytes
  | 0, value => if value = [] then [] else [value]
  | fuel + 1, value =>
    let p := value.idxOf semicolon
    if p = value.length then if value = [] then [] else [value]
    else value.take p :: cookieLoop fuel ((value.drop (p + 1)).dropWhile (· == space))

/-- The fields that one key of the map gives, and whether it is `user-agent`. -/
def visitKey (key : Bytes) (values : List Bytes) : List Field × Bool :=
  -- sent as `:authority`, and computed from the body
  if asciiEqualFold key (ascii "host") || asciiEqualFold key (ascii "content-length") then
    ([], false)
  -- the connection-level headers, which have been checked
  else if asciiEqualFold key (ascii "connection") ||
      asciiEqualFold key (ascii "proxy-connection") ||
      asciiEqualFold key (ascii "transfer-encoding") || asciiEqualFold key (ascii "upgrade") ||
      asciiEqualFold key (ascii "keep-alive") then
    ([], false)
  else if asciiEqualFold key (ascii "user-agent") then
    -- at most one, and neither a missing nor an empty one
    (if values.headD [] = [] then [] else (values.take 1).map (key, ·), true)
  else if asciiEqualFold key (ascii "cookie") then
    (values.flatMap fun value => (cookieLoop value.length value).map (ascii "cookie", ·), false)
  else if key = ascii ":protocol" then ([], false)
  else (values.map (key, ·), false)

/-- One round of the loop over the ordered keys. -/
def visit (header : Header) (seen : List Field × Bool) (key : Bytes) : List Field × Bool :=
  let visited := visitKey key (Header.values header key)
  (seen.1 ++ visited.1, seen.2 || visited.2)

/-! ## The sequence -/

def shouldSendReqContentLength (method : Bytes) (contentLength : Int) : Bool :=
  if contentLength > 0 then true
  else if contentLength < 0 then false
  else (["POST", "PUT", "PATCH"].map ascii).contains method

def pseudoHeaders (request : Request) (target : Target) : List Field :=
  [(ascii ":method", if request.method = [] then ascii "GET" else request.method),
    (ascii ":authority", target.host)] ++
  (if request.isNormalConnect then []
    else [(ascii ":scheme", target.url.scheme), (ascii ":path", target.path)]) ++
  if request.protocol = [] then [] else [(ascii ":protocol", request.protocol)]

/-- The fields that the encoder computes. -/
def ownHeaders (request : Request) (trailers : Bytes) : List Field :=
  (if trailers = [] then [] else [(ascii "trailer", trailers)]) ++
  if shouldSendReqContentLength request.method request.actualContentLength then
    [(ascii "content-length", decimal request.actualContentLength.toNat)]
  else []

def addedHeaders (param : EncodeHeadersParam) (didUA : Bool) : List Field :=
  (if param.addGzipHeader then [(ascii "accept-encoding", ascii "gzip")] else []) ++
  if didUA then [] else [(ascii "user-agent", param.defaultUserAgent)]

/-- The calls that `enumerateHeaders` makes. -/
def enumerateHeaders (lib : Library) (orders : KeyOrders) (param : EncodeHeadersParam)
    (target : Target) (trailers : Bytes) : List Field :=
  let header := param.request.header
  let visited := (orderedHeaderKeys lib.toStrings orders header).foldl (visit header) ([], false)
  pseudoHeaders param.request target ++ ownHeaders param.request trailers ++ visited.1 ++
    addedHeaders param visited.2

/-! ## The passes -/

def asciiToLower (lib : Library) (text : Bytes) : Option Bytes :=
  if isASCIIPrint text then some (lib.toLower text) else none

def lowerHeader (lib : Library) (name : Bytes) : Option Bytes :=
  match commonLowerHeader.lookup name with
  | some lowered => some lowered
  | none => asciiToLower lib name

/-- `hpack.HeaderField.Size`. -/
def fieldSize (field : Field) : UInt32 :=
  UInt32.ofNat (field.1.length + field.2.length + 32)

/-- The first pass. -/
def headerListSize (fields : List Field) : UInt64 :=
  fields.foldl (fun size field => size + (fieldSize field).toUInt64) 0

/-- The second pass: what `headerf` is called with. -/
def writtenHeaders (lib : Library) (fields : List Field) : List Field :=
  fields.filterMap fun field => (lowerHeader lib field.1).map (·, field.2)

/-- The orders of the loops over the maps, in the checks and in each pass. -/
structure EncodeOrders extends CheckOrders where
  counted : KeyOrders
  written : KeyOrders

def encodeHeaders (lib : Library) (orders : EncodeOrders) (param : EncodeHeadersParam) :
    Except EncodeError (EncodeHeadersResult × List Field) := do
  let target ← checkTarget lib param.request
  let trailers ← checkFields orders.toCheckOrders param.request
  if param.peerMaxHeaderListSize > 0 ∧
      headerListSize (enumerateHeaders lib orders.counted param target trailers) >
        param.peerMaxHeaderListSize then
    .error .headerListSize
  else
    .ok (⟨param.request.actualContentLength != 0, trailers != []⟩,
      writtenHeaders lib (enumerateHeaders lib orders.written param target trailers))

/-! ### Cookies -/

def stripSpaces (text : Bytes) : Bytes := text.dropWhile (· == space)

/-- Without the last part, if it is empty. -/
def dropEmptyEnd : List Bytes → List Bytes
  | [] => []
  | [last] => if last = [] then [] else [last]
  | part :: part' :: rest => part :: dropEmptyEnd (part' :: rest)

/-- The parts of a cookie text, from which the spaces after a semicolon are taken. -/
def cookieParts (value : Bytes) : List Bytes :=
  match value.splitOn semicolon with
  | [] => []
  | first :: rest => first :: rest.map stripSpaces

def cookiePairs (value : Bytes) : List Bytes := dropEmptyEnd (cookieParts value)

theorem stripSpaces_cons_of_ne {c : UInt8} (h : c ≠ space) (text : Bytes) :
    stripSpaces (c :: text) = c :: text := by
  simp [stripSpaces, h]

theorem cookieParts_stripSpaces (value : Bytes) :
    cookieParts (stripSpaces value) = (value.splitOn semicolon).map stripSpaces := by
  induction value with
  | nil => rfl
  | cons c value ih =>
    obtain ⟨first, rest, hsplit⟩ := exists_cons_of_ne_nil
      (splitOn_ne_nil semicolon value)
    by_cases hspace : c = space
    · subst hspace
      have hstrip : stripSpaces (space :: value) = stripSpaces value := rfl
      rw [hstrip, ih, splitOn_cons_eq_if_modifyHead, if_neg (by decide), hsplit]
      rfl
    · rw [stripSpaces_cons_of_ne hspace, cookieParts, splitOn_cons_eq_if_modifyHead, hsplit]
      split_ifs with hsemicolon
      · rfl
      · rw [modifyHead_cons, map_cons, stripSpaces_cons_of_ne hspace]

theorem cookiePairs_of_notMem {value : Bytes} (h : semicolon ∉ value) :
    cookiePairs value = if value = [] then [] else [value] := by
  rw [cookiePairs, cookieParts, splitOn_eq_singleton h]
  rfl

theorem cookiePairs_cut {before after : Bytes} (h : semicolon ∉ before) :
    cookiePairs (before ++ semicolon :: after) = before :: cookiePairs (stripSpaces after) := by
  obtain ⟨first, rest, hsplit⟩ := exists_cons_of_ne_nil
    (splitOn_ne_nil semicolon after)
  rw [cookiePairs, cookiePairs, cookieParts_stripSpaces, cookieParts,
    splitOn_append_cons_self_of_not_mem h, hsplit]
  rfl

/-- **The loop gives the pairs of a cookie text.** -/
theorem cookieLoop_eq (fuel : Nat) : ∀ value : Bytes, value.length ≤ fuel →
    cookieLoop fuel value = cookiePairs value := by
  -- a round takes at least the semicolon, so the length is fuel enough
  induction fuel with
  | zero =>
    intro value hlength
    have hnil : value = [] := eq_nil_of_length_eq_zero (Nat.le_zero.mp hlength)
    rw [hnil]
    rfl
  | succ fuel ih =>
    intro value hlength
    rw [cookieLoop]
    by_cases hmem : semicolon ∈ value
    · obtain ⟨before, after, rfl, hbefore⟩ := eq_append_cons_of_mem hmem
      have hp : (before ++ semicolon :: after).idxOf semicolon = before.length := by
        rw [idxOf_append_of_notMem hbefore, idxOf_cons_self, Nat.add_zero]
      have hrest : (before ++ semicolon :: after).drop (before.length + 1) = after := by
        rw [← drop_drop, drop_left]
        rfl
      have hshort : (stripSpaces after).length ≤ fuel := by
        have hle := (dropWhile_suffix (l := after) (· == space)).length_le
        rw [length_append, length_cons] at hlength
        rw [stripSpaces]
        omega
      have hne : before.length ≠ (before ++ semicolon :: after).length := by
        rw [length_append, length_cons]
        omega
      simp only [hp, if_neg hne, take_left', hrest]
      rw [cookiePairs_cut hbefore, ← ih _ hshort]
      rfl
    · simp only [idxOf_eq_length hmem, if_true]
      rw [cookiePairs_of_notMem hmem]

/-! ### Names -/

section Names

variable {lib : Library} {name : Bytes}

theorem lower_of_mem_commonHeaders (h : name ∈ commonHeaders) : lower name = name := by
  have hall : commonHeaders.all (fun name => name.all fun c => lowerByte c == c) = true := by
    decide +kernel
  apply lower_eq_self
  simpa using all_eq_true.mp hall name h

/-- **The name of a field is the name in lower case**, whether it is kept or computed. -/
theorem lowerHeader_eq (hprint : isASCIIPrint name = true) :
    lowerHeader lib name = some (lower name) := by
  rw [lowerHeader]
  cases hfound : commonLowerHeader.lookup name with
  | none =>
    show asciiToLower lib name = some (lower name)
    rw [asciiToLower, if_pos hprint, Strings.toLower_of_ascii (isASCII_of_print hprint)]
  | some lowered =>
    rcases GoMap.of_lookup_foldl_insert commonHeaders ∅ hfound with ⟨common, hmem, rfl, rfl⟩ | hnone
    · show some common = some (lower (canonicalHeaderKey common))
      rw [Http1.lower_canonicalHeaderKey, lower_of_mem_commonHeaders hmem]
    · cases hnone

@[simp] theorem writtenHeaders_append (fields fields' : List Field) :
    writtenHeaders lib (fields ++ fields') =
      writtenHeaders lib fields ++ writtenHeaders lib fields' := filterMap_append

theorem writtenHeaders_map (hprint : isASCIIPrint name = true) (values : List Bytes) :
    writtenHeaders lib (values.map (name, ·)) = values.map (lower name, ·) := by
  induction values with
  | nil => rfl
  | cons value values ih =>
    rw [map_cons, map_cons, ← ih, writtenHeaders, filterMap_cons, lowerHeader_eq hprint]
    rfl

/-- The names that the encoder writes before and after the fields of the map. -/
def leadingNames : List Bytes :=
  [":method", ":authority", ":scheme", ":path", ":protocol", "trailer", "content-length"].map ascii

def addedNames : List Bytes := ["accept-encoding", "user-agent"].map ascii

theorem writtenHeaders_of_names {fields : List Field}
    (h : ∀ field ∈ fields, field.1 ∈ leadingNames ++ addedNames) :
    writtenHeaders lib fields = fields := by
  have hall : (leadingNames ++ addedNames).all
      (fun name => isASCIIPrint name && lower name = name) = true := by
    decide
  induction fields with
  | nil => rfl
  | cons field fields ih =>
    have hname := all_eq_true.mp hall field.1 (h field mem_cons_self)
    rw [Bool.and_eq_true, decide_eq_true_eq] at hname
    rw [writtenHeaders, filterMap_cons, lowerHeader_eq hname.1, hname.2]
    show field :: writtenHeaders lib fields = field :: fields
    rw [ih fun field hfield => h field (mem_cons_of_mem _ hfield)]

end Names

theorem sublist_unless (c : Prop) [Decidable c] (fields : List Field) :
    (if c then [] else fields).Sublist fields := by
  split
  · exact nil_sublist _
  · exact .refl _

theorem sublist_if (c : Prop) [Decidable c] (fields : List Field) :
    (if c then fields else []).Sublist fields := by
  split
  · exact .refl _
  · exact nil_sublist _

theorem leading_names (request : Request) (target : Target) (trailers : Bytes) :
    ((pseudoHeaders request target ++ ownHeaders request trailers).map Prod.fst).Sublist
      leadingNames := by
  have hpseudo : (pseudoHeaders request target).Sublist
      ([(ascii ":method", if request.method = [] then ascii "GET" else request.method),
        (ascii ":authority", target.host)] ++
      [(ascii ":scheme", target.url.scheme), (ascii ":path", target.path)] ++
      [(ascii ":protocol", request.protocol)]) := by
    rw [pseudoHeaders]
    apply List.Sublist.append
    · apply List.Sublist.append
      · exact .refl _
      · exact sublist_unless _ _
    · exact sublist_unless _ _
  have hown : (ownHeaders request trailers).Sublist ([(ascii "trailer", trailers)] ++
      [(ascii "content-length", decimal request.actualContentLength.toNat)]) := by
    rw [ownHeaders]
    apply List.Sublist.append
    · exact sublist_unless _ _
    · exact sublist_if _ _
  exact (hpseudo.append hown).map Prod.fst

theorem added_names (param : EncodeHeadersParam) (didUA : Bool) :
    ((addedHeaders param didUA).map Prod.fst).Sublist addedNames := by
  have hadded := (sublist_if (param.addGzipHeader = true)
    [(ascii "accept-encoding", ascii "gzip")]).append
    (sublist_unless (didUA = true) [(ascii "user-agent", param.defaultUserAgent)])
  exact hadded.map Prod.fst

/-! ### The fields of the map -/

/-- The names that stand for something else on the connection. -/
def unsentHeaders : List Bytes :=
  ["host", "content-length", "connection", "proxy-connection", "transfer-encoding", "upgrade",
    "keep-alive"].map ascii

/-- A key without fields of its own; `:protocol` is a pseudo-header. -/
def isUnsent (key : Bytes) : Bool :=
  unsentHeaders.contains (lower key) || key == ascii ":protocol"

variable {key : Bytes}

theorem isUnsent_iff :
    isUnsent key = true ↔ lower key ∈ unsentHeaders ∨ key = ascii ":protocol" := by
  simp [isUnsent]

/-- The values that are sent for a key: none for a name that is not sent, the first one for
`user-agent` unless it is empty, the pairs for `cookie`. -/
def sentValues (key : Bytes) (values : List Bytes) : List Bytes :=
  if isUnsent key then []
  else if lower key = ascii "user-agent" then (values.take 1).filter (· ≠ [])
  else if lower key = ascii "cookie" then values.flatMap cookiePairs
  else values

/-- The fields of one key, under its name in lower case. -/
def sentFields (header : Header) (key : Bytes) : List Field :=
  (sentValues key (Header.values header key)).map (lower key, ·)

/-- The map has a user agent, in some spelling. -/
def hasUserAgent (header : Header) : Bool :=
  (header.range .stored).any (lower ·.1 = ascii "user-agent")

theorem asciiEqualFold_eq {name : Bytes} (hname : lower name = name) :
    asciiEqualFold key name = decide (lower key = name) := by
  rw [asciiEqualFold, hname, Bool.beq_eq_decide_eq]

theorem visitKey_eq (key : Bytes) (values : List Bytes) :
    visitKey key values =
      if lower key ∈ unsentHeaders then ([], false)
      else if lower key = ascii "user-agent" then
        (((values.take 1).filter (· ≠ [])).map (key, ·), true)
      else if lower key = ascii "cookie" then
        ((values.flatMap cookiePairs).map (ascii "cookie", ·), false)
      else if key = ascii ":protocol" then ([], false)
      else (values.map (key, ·), false) := by
  have hcrumbs : (values.flatMap fun value =>
      (cookieLoop value.length value).map (ascii "cookie", ·)) =
        (values.flatMap cookiePairs).map (ascii "cookie", ·) := by
    simp only [cookieLoop_eq _ _ (Nat.le_refl _), map_flatMap]
  have hagent : (if values.headD [] = [] then [] else (values.take 1).map (key, ·)) =
      ((values.take 1).filter (· ≠ [])).map (key, ·) := by
    cases values with
    | nil => rfl
    | cons first rest =>
      by_cases hfirst : first = []
      · simp [hfirst]
      · simp [hfirst]
  have hunsent : lower key ∈ unsentHeaders ↔
      (lower key = ascii "host" ∨ lower key = ascii "content-length") ∨
        ((((lower key = ascii "connection" ∨ lower key = ascii "proxy-connection") ∨
          lower key = ascii "transfer-encoding") ∨ lower key = ascii "upgrade") ∨
          lower key = ascii "keep-alive") := by
    simp [unsentHeaders, or_assoc]
  rw [visitKey, hcrumbs, hagent]
  simp (disch := decide) only [asciiEqualFold_eq, Bool.or_eq_true, decide_eq_true_eq, hunsent]
  by_cases hhost : lower key = ascii "host" ∨ lower key = ascii "content-length"
  · rw [if_pos hhost, if_pos (.inl hhost)]
  · rw [if_neg hhost]
    simp only [hhost, false_or]

theorem visitKey_isUserAgent (key : Bytes) (values : List Bytes) :
    (visitKey key values).2 = decide (lower key = ascii "user-agent") := by
  rw [visitKey_eq]
  by_cases hagent : lower key = ascii "user-agent"
  · rw [if_neg (by rw [hagent]; decide), if_pos hagent, decide_eq_true hagent]
  · rw [if_neg hagent, decide_eq_false hagent]
    split_ifs <;> rfl

/-- **What is written for a key.** -/
theorem writtenHeaders_visitKey {lib : Library} (hprint : isASCIIPrint key = true)
    (values : List Bytes) :
    writtenHeaders lib (visitKey key values).1 = (sentValues key values).map (lower key, ·) := by
  rw [visitKey_eq, sentValues]
  by_cases hunsent : lower key ∈ unsentHeaders
  · rw [if_pos hunsent, if_pos (isUnsent_iff.mpr (.inl hunsent))]
    rfl
  · rw [if_neg hunsent]
    by_cases hagent : lower key = ascii "user-agent"
    · have hprotocol : key ≠ ascii ":protocol" := by
        intro heq
        rw [heq] at hagent
        exact absurd hagent (by decide)
      rw [if_pos hagent, if_neg (by simp [isUnsent_iff, hunsent, hprotocol]), if_pos hagent]
      exact writtenHeaders_map hprint _
    · rw [if_neg hagent]
      by_cases hcookie : lower key = ascii "cookie"
      · have hprotocol : key ≠ ascii ":protocol" := by
          intro heq
          rw [heq] at hcookie
          exact absurd hcookie (by decide)
        rw [if_pos hcookie, if_neg (by simp [isUnsent_iff, hunsent, hprotocol]), if_neg hagent,
          if_pos hcookie,
          hcookie]
        exact writtenHeaders_map (by decide) _
      · rw [if_neg hcookie]
        by_cases hprotocol : key = ascii ":protocol"
        · rw [if_pos hprotocol, if_pos (isUnsent_iff.mpr (.inr hprotocol))]
          rfl
        · rw [if_neg hprotocol, if_neg (by simp [isUnsent_iff, hunsent, hprotocol]), if_neg hagent,
            if_neg hcookie]
          exact writtenHeaders_map hprint _

theorem foldl_visit (header : Header) (keys : List Bytes) : ∀ seen : List Field × Bool,
    keys.foldl (visit header) seen =
      (seen.1 ++ keys.flatMap fun key => (visitKey key (Header.values header key)).1,
        seen.2 || keys.any fun key => lower key = ascii "user-agent") := by
  induction keys with
  | nil => intro seen; simp
  | cons key keys ih =>
    intro seen
    rw [foldl_cons, ih, visit, flatMap_cons, any_cons, visitKey_isUserAgent]
    simp only [append_assoc, Bool.or_assoc]

/-! ## A run -/

section Run

variable {lib : Library} {orders : EncodeOrders} {param : EncodeHeadersParam}
  {out : EncodeHeadersResult × List Field}

theorem encodeHeaders_eq_ok (h : encodeHeaders lib orders param = .ok out) :
    ∃ target trailers, checkTarget lib param.request = .ok target ∧
      checkFields orders.toCheckOrders param.request = .ok trailers ∧
      ¬(param.peerMaxHeaderListSize > 0 ∧
        headerListSize (enumerateHeaders lib orders.counted param target trailers) >
          param.peerMaxHeaderListSize) ∧
      out.1 = ⟨param.request.actualContentLength != 0, trailers != []⟩ ∧
      out.2 = writtenHeaders lib (enumerateHeaders lib orders.written param target trailers) := by
  obtain ⟨result, fields⟩ := out
  obtain ⟨target, htarget, h⟩ := bind_eq_ok.mp h
  obtain ⟨trailers, htrailers, h⟩ := bind_eq_ok.mp h
  obtain ⟨hsize, h⟩ := guard_eq_ok.mp h
  rw [Except.ok.injEq, Prod.mk.injEq] at h
  exact ⟨target, trailers, htarget, htrailers, hsize, h.1.symm, h.2.symm⟩

theorem asciiKeys_of_checkFields {orders : CheckOrders} {request : Request} {trailers : Bytes}
    (h : checkFields orders request = .ok trailers) : AsciiKeys request.header := by
  intro e he
  exact isASCII_of_print (isASCIIPrint_of_valid (checkFields_eq_ok_iff.mp h).1 e he)

/-- The fields that the encoder writes itself, and between them those of the sorted keys. -/
def fieldSequence (lib : Library) (orders : KeyOrders) (param : EncodeHeadersParam)
    (target : Target) (trailers : Bytes) : List Field :=
  pseudoHeaders param.request target ++ ownHeaders param.request trailers ++
    (orderedHeaderKeys lib.toStrings orders param.request.header).flatMap
      (sentFields param.request.header) ++
    addedHeaders param (hasUserAgent param.request.header)

/-- **The fields that are written.** -/
theorem writtenHeaders_enumerateHeaders {checks : CheckOrders} {target : Target} {trailers : Bytes}
    (h : checkFields checks param.request = .ok trailers) (orders : KeyOrders) :
    writtenHeaders lib (enumerateHeaders lib orders param target trailers) =
      fieldSequence lib orders param target trailers := by
  have hperm := @orderedHeaderKeys_perm lib.toStrings param.request.header orders
  -- whether there is a user agent does not depend on the order of the keys
  have hagent : (orderedHeaderKeys lib.toStrings orders param.request.header).any
      (fun key => lower key = ascii "user-agent") = hasUserAgent param.request.header := by
    rw [hperm.any_eq, any_map]
    rfl
  -- the second pass keeps the encoder's own names, which are in lower case
  have hleading : writtenHeaders lib
      (pseudoHeaders param.request target ++ ownHeaders param.request trailers) =
        pseudoHeaders param.request target ++ ownHeaders param.request trailers := by
    apply writtenHeaders_of_names
    intro field hfield
    have hname := (leading_names param.request target trailers).subset
      (mem_map_of_mem hfield)
    exact mem_append_left _ hname
  have hadded : writtenHeaders lib (addedHeaders param (hasUserAgent param.request.header)) =
      addedHeaders param (hasUserAgent param.request.header) := by
    apply writtenHeaders_of_names
    intro field hfield
    have hname := (added_names param (hasUserAgent param.request.header)).subset
      (mem_map_of_mem hfield)
    exact mem_append_right _ hname
  have hmap : writtenHeaders lib
      ((orderedHeaderKeys lib.toStrings orders param.request.header).flatMap fun key =>
        (visitKey key (Header.values param.request.header key)).1) =
        (orderedHeaderKeys lib.toStrings orders param.request.header).flatMap
          (sentFields param.request.header) := by
    rw [writtenHeaders, filterMap_flatMap]
    apply flatMap_congr
    intro key hkey
    obtain ⟨e, he, rfl⟩ := mem_map.mp (hperm.mem_iff.mp hkey)
    exact writtenHeaders_visitKey (isASCIIPrint_of_valid (checkFields_eq_ok_iff.mp h).1 e he) _
  rw [enumerateHeaders, fieldSequence, foldl_visit, nil_append, Bool.false_or, hagent,
    writtenHeaders_append, writtenHeaders_append, hleading, hmap, hadded]

theorem encodeHeaders_of_checks {target : Target} {trailers : Bytes}
    (htarget : checkTarget lib param.request = .ok target)
    (htrailers : checkFields orders.toCheckOrders param.request = .ok trailers)
    (hunlimited : param.peerMaxHeaderListSize = 0) :
    ∃ out, encodeHeaders lib orders param = .ok out ∧
      out.2 = fieldSequence lib orders.written param target trailers := by
  rw [encodeHeaders, htarget, ok_bind, htrailers, ok_bind, if_neg (by simp [hunlimited]),
    writtenHeaders_enumerateHeaders htrailers]
  exact ⟨(_, _), rfl, rfl⟩

/-- **A request whose names are distinct is encoded in one way**, whatever the loops do. -/
theorem encodeHeaders_congr (hdistinct : NamesDistinct param.request.header)
    (h : encodeHeaders lib orders param = .ok out) (orders' : EncodeOrders) :
    encodeHeaders lib orders' param = .ok out := by
  obtain ⟨target, trailers, htarget, htrailers, hsize, hresult, hout⟩ := encodeHeaders_eq_ok h
  have hascii := asciiKeys_of_checkFields htrailers
  have hfields : ∀ keyOrders keyOrders' : KeyOrders,
      enumerateHeaders lib keyOrders param target trailers =
        enumerateHeaders lib keyOrders' param target trailers := by
    intro keyOrders keyOrders'
    rw [enumerateHeaders, enumerateHeaders,
      orderedHeaderKeys_congr hascii hdistinct keyOrders keyOrders']
  rw [encodeHeaders, htarget, ok_bind, checkFields_congr htrailers orders'.toCheckOrders, ok_bind,
    hfields orders'.counted orders.counted, hfields orders'.written orders.written, if_neg hsize,
    ← hresult, ← hout]

end Run

/-! ## The order of the fields -/

/-- The pseudo-headers of a request, with a scheme and a path unless it is a plain CONNECT. -/
def Leads (lib : Library) (request : Request) (fields : List Field) : Prop :=
  ∃ url host path, request.url = some url ∧
    punycodeHostPort lib (request.hostText url) = .ok host ∧
    request.checkPath url host = .ok path ∧
    fields = [(ascii ":method", if request.method = [] then ascii "GET" else request.method),
        (ascii ":authority", host)] ++
      (if request.isNormalConnect then []
        else [(ascii ":scheme", url.scheme), (ascii ":path", path)]) ++
      if request.protocol = [] then [] else [(ascii ":protocol", request.protocol)]

/-- **The order of an HTTP/2 request.** The pseudo-headers lead. Of the other fields, those of
the header map are the fields of each of its keys ONCE: the keys of the selected table in the
order of the table, then the unknown ones by their spelling, then `priority`. No loop over a map
changes any of it. -/
theorem encodeHeaders_inTableOrder {lib : Library} {orders : EncodeOrders}
    {param : EncodeHeadersParam} {out : EncodeHeadersResult × List Field}
    (hdistinct : NamesDistinct param.request.header)
    (hrun : encodeHeaders lib orders param = .ok out) :
    (∃ pseudo trailers known unknown trailing,
      Leads lib param.request pseudo ∧
      commaSeparatedTrailers .stored param.request.trailer = .ok trailers ∧
      out.2 = pseudo ++ ownHeaders param.request trailers ++
        (known ++ (unknown ++ trailing)).flatMap (sentFields param.request.header) ++
        addedHeaders param (hasUserAgent param.request.header) ∧
      (known ++ (unknown ++ trailing)).Perm ((param.request.header.range .stored).map Prod.fst) ∧
      InTableOrder param.request.header known unknown trailing) ∧
    ∀ orders', encodeHeaders lib orders' param = .ok out := by
  constructor
  · obtain ⟨target, trailers, htarget, htrailers, -, -, hout⟩ := encodeHeaders_eq_ok hrun
    obtain ⟨hurl, hhost, hpath⟩ := checkTarget_eq_ok htarget
    obtain ⟨known, unknown, trailing, hkeys, horder⟩ :=
      @orderedHeaderKeys_inTableOrder lib.toStrings param.request.header
        (asciiKeys_of_checkFields htrailers) hdistinct orders.written
    have hperm := @orderedHeaderKeys_perm lib.toStrings param.request.header orders.written
    rw [hkeys] at hperm
    have hleads : Leads lib param.request (pseudoHeaders param.request target) :=
      ⟨target.url, target.host, target.path, hurl, hhost, hpath, rfl⟩
    have htext : commaSeparatedTrailers .stored param.request.trailer = .ok trailers :=
      commaSeparatedTrailers_congr (checkFields_eq_ok_iff.mp htrailers).2.2 .stored
    have hfields := @writtenHeaders_enumerateHeaders lib param _ target _ htrailers orders.written
    rw [fieldSequence, hkeys, ← hout] at hfields
    exact ⟨pseudoHeaders param.request target, trailers, known, unknown, trailing, hleads, htext,
      hfields, hperm, horder⟩
  · exact encodeHeaders_congr hdistinct hrun

def plainLibrary : Library where
  unicodeToLower := id
  unicodeEqualFold := fun text text' => text == text'
  unicodePunycode := fun host => .error host

def storedEncode : EncodeOrders where
  header := .stored
  trailer := .stored
  trailerKeys := .stored
  counted := ⟨.stored, .stored⟩
  written := ⟨.stored, .stored⟩

def exampleURL : URL := ⟨ascii "https", [], ascii "/", false, [], ascii "a.test"⟩

def exampleParam (method : Bytes) (header : Header) (addGzipHeader : Bool) :
    EncodeHeadersParam where
  request := ⟨some exampleURL, method, [], header, ∅, 0⟩
  addGzipHeader := addGzipHeader
  peerMaxHeaderListSize := 0
  defaultUserAgent := ascii "Go"

def threeHeaders : Header :=
  (((∅ : Header).insert (ascii "Priority") [ascii "i"]).insert (ascii "X-B") [ascii "1"]).insert
    (ascii "Accept") [ascii "*/*"]

theorem encodeHeaders_inTableOrder_three :
    ∃ out, out.2 = [(":method", "GET"), (":authority", "a.test"), (":scheme", "https"),
        (":path", "/"), ("accept", "*/*"), ("x-b", "1"), ("priority", "i"),
        ("user-agent", "Go")].map (fun field => (ascii field.1, ascii field.2)) ∧
      ∀ orders, encodeHeaders plainLibrary orders
        (exampleParam (ascii "GET") threeHeaders false) = .ok out := by
  have htarget : checkTarget plainLibrary (exampleParam (ascii "GET") threeHeaders false).request =
      .ok ⟨exampleURL, ascii "a.test", ascii "/"⟩ := by
    decide +kernel
  have hfields : checkFields storedEncode.toCheckOrders
      (exampleParam (ascii "GET") threeHeaders false).request = .ok [] := by
    rfl
  obtain ⟨out, hrun, hout⟩ := encodeHeaders_of_checks htarget hfields rfl
  refine ⟨out, ?_, (encodeHeaders_inTableOrder (by decide) hrun).2⟩
  rw [hout]
  decide +kernel

/-- `B`, `a`: the order of the spellings is not the order of the names. -/
def spelledHeaders : Header :=
  ((∅ : Header).insert (ascii "a") [ascii "1"]).insert (ascii "B") [ascii "2"]

/-- A plain CONNECT has neither scheme nor path, and unknown names are not in ascending
order. -/
theorem encodeHeaders_connect_spelled :
    NamesDistinct spelledHeaders ∧
      ∃ out, encodeHeaders plainLibrary storedEncode
          (exampleParam (ascii "CONNECT") spelledHeaders false) = .ok out ∧
        ¬([":method", ":authority", ":scheme", ":path"].map ascii).IsPrefix (out.2.map Prod.fst) ∧
        ¬((out.2.map Prod.fst).filter fun name =>
          name ∉ leadingNames ∧ name ∉ tableFor spelledHeaders).Pairwise (· ≤ ·) := by
  apply And.intro (by decide +kernel)
  have htarget : checkTarget plainLibrary
      (exampleParam (ascii "CONNECT") spelledHeaders false).request =
        .ok ⟨exampleURL, ascii "a.test", []⟩ := by
    decide +kernel
  have hfields : checkFields storedEncode.toCheckOrders
      (exampleParam (ascii "CONNECT") spelledHeaders false).request = .ok [] := by
    rfl
  obtain ⟨out, hrun, hout⟩ := encodeHeaders_of_checks htarget hfields rfl
  apply Exists.intro out
  rw [hout]
  exact ⟨hrun, by decide +kernel, by decide +kernel⟩

/-! ## The trailing header -/

def PriorityLast (fields : List Field) : Prop :=
  fields.getLast?.map Prod.fst = some chromeTrailingHeader

/-- Fields whose names a table has stand in the order of the table. -/
def InRank (table : List Bytes) (fields : List Field) : Prop :=
  fields.Pairwise fun first second =>
    first.1 ∈ table → second.1 ∈ table → table.idxOf first.1 ≤ table.idxOf second.1

/-- The map has a value for `priority`. -/
def CarriesPriority (header : Header) : Prop :=
  ∃ e ∈ header.range .stored, lower e.1 = chromeTrailingHeader ∧ e.2 ≠ []

section Trailing

variable {header : Header}

theorem name_of_mem_sentFields {field : Field} (h : field ∈ sentFields header key) :
    field.1 = lower key := by
  obtain ⟨value, -, rfl⟩ := mem_map.mp h
  rfl

/-- `priority` has the last rank of both tables. -/
theorem idxOf_le_trailing {name : Bytes} (h : name ∈ tableFor header) :
    (tableFor header).idxOf name ≤ (tableFor header).idxOf chromeTrailingHeader := by
  have hlast : (tableFor header).idxOf chromeTrailingHeader + 1 = (tableFor header).length := by
    rw [tableFor]
    split
    · decide
    · decide
  have hlt := idxOf_lt_length_of_mem h
  omega

theorem idxOf_le_of_precedes {first second : Bytes} (h : Precedes header first second)
    (hfirst : lower first ∈ tableFor header) (hsecond : lower second ∈ tableFor header) :
    (tableFor header).idxOf (lower first) ≤ (tableFor header).idxOf (lower second) := by
  by_cases htrailing : lower second = chromeTrailingHeader
  · rw [htrailing]
    exact idxOf_le_trailing hfirst
  · rw [Precedes, ByGroup, groupOf_tabled htrailing hsecond] at h
    by_cases hlast : lower first = chromeTrailingHeader
    · -- nothing of the table comes after `priority`
      rw [groupOf_trailing hlast] at h
      rcases h with hlt | ⟨heq, -⟩
      · cases hlt
      · cases heq
    · rw [groupOf_tabled hlast hfirst] at h
      exact (h.resolve_left (Nat.lt_irrefl 0)).2

/-- After `priority` there is only `priority`. -/
theorem trailing_of_precedes {first second : Bytes} (h : Precedes header first second)
    (hfirst : lower first = chromeTrailingHeader) : lower second = chromeTrailingHeader := by
  rw [Precedes, ByGroup, groupOf_trailing hfirst] at h
  rcases groupOf_cases header second with ⟨-, -, hgroup⟩ | ⟨-, -, hgroup⟩ | ⟨htrailing, -⟩
  · rw [hgroup] at h
    simp at h
  · rw [hgroup] at h
    simp at h
  · exact htrailing

variable {keys : List Bytes}

theorem inRank_of_sorted (hsorted : keys.Pairwise (Precedes header)) :
    InRank (tableFor header) (keys.flatMap (sentFields header)) := by
  rw [InRank, pairwise_flatMap]
  constructor
  · intro key _
    apply pairwise_of_forall_mem_list
    intro field hfield field' hfield' _ _
    rw [name_of_mem_sentFields hfield, name_of_mem_sentFields hfield']
  · apply hsorted.imp
    intro first second hprecedes field hfield field' hfield'
    rw [name_of_mem_sentFields hfield, name_of_mem_sentFields hfield']
    exact idxOf_le_of_precedes hprecedes

theorem sentFields_trailing_ne_nil {e : Bytes × List Bytes} (he : e ∈ header.range .stored)
    (hname : lower e.1 = chromeTrailingHeader) (hvalues : e.2 ≠ []) :
    sentFields header e.1 ≠ [] := by
  have hlookup : Header.values header e.1 = e.2 := by
    rw [Header.values, GoMap.mem_range.mp he]
    rfl
  have hprotocol : e.1 ≠ ascii ":protocol" := by
    intro heq
    rw [heq] at hname
    exact absurd hname (by decide)
  have hsent : sentValues e.1 e.2 = e.2 := by
    rw [sentValues, hname, if_neg, if_neg (by decide), if_neg (by decide)]
    rw [isUnsent_iff, hname]
    simp only [hprotocol, or_false]
    decide
  rw [sentFields, hlookup, hsent]
  simpa using hvalues

/-- The last field of sorted keys is `priority`, if the map has it. -/
theorem priorityLast_of_sorted (hsorted : keys.Pairwise (Precedes header))
    (hperm : keys.Perm ((header.range .stored).map Prod.fst)) (hcarries : CarriesPriority header) :
    PriorityLast (keys.flatMap (sentFields header)) := by
  obtain ⟨e, he, hname, hvalues⟩ := hcarries
  have hmem : e.1 ∈ keys := hperm.mem_iff.mpr (mem_map_of_mem he)
  -- the last field belongs to the keys from this one on, and they are all `priority`
  obtain ⟨before, after, rfl⟩ := append_of_mem hmem
  have hafter : ∀ key ∈ e.1 :: after, lower key = chromeTrailingHeader := by
    intro key hkey
    rcases mem_cons.mp hkey with rfl | hkey
    · exact hname
    · have hcons := (pairwise_append.mp hsorted).2.1
      exact trailing_of_precedes ((pairwise_cons.mp hcons).1 key hkey) hname
  have hne : (e.1 :: after).flatMap (sentFields header) ≠ [] := by
    rw [flatMap_cons]
    simp [sentFields_trailing_ne_nil he hname hvalues]
  rw [PriorityLast, flatMap_append, getLast?_append_of_ne_nil _ hne, getLast?_eq_some_getLast hne]
  obtain ⟨key, hkey, hlast⟩ := mem_flatMap.mp (getLast_mem hne)
  rw [Option.map_some, name_of_mem_sentFields hlast, hafter key hkey]

end Trailing

theorem idxOf_leading (header : Header) {name : Bytes} (hname : name ∈ leadingNames)
    (htable : name ∈ tableFor header) : (tableFor header).idxOf name = 0 := by
  have hnavigation : ∀ name ∈ leadingNames, name ∈ chromeNavigationHeaderOrder →
      chromeNavigationHeaderOrder.idxOf name = 0 := by
    decide +kernel
  have hother : ∀ name ∈ leadingNames, name ∈ chromeHeaderOrder →
      chromeHeaderOrder.idxOf name = 0 := by
    decide +kernel
  revert htable
  rw [tableFor]
  split
  · exact hnavigation name hname
  · exact hother name hname

theorem addedHeaders_eq_nil_iff (param : EncodeHeadersParam) (didUA : Bool) :
    addedHeaders param didUA = [] ↔ param.addGzipHeader = false ∧ didUA = true := by
  rw [addedHeaders]
  cases param.addGzipHeader with
  | false => cases didUA <;> simp
  | true => simp

/-- What the encoder adds takes the last place. -/
theorem not_priorityLast_of_added {param : EncodeHeadersParam} {didUA : Bool} {front : List Field}
    (hadded : addedHeaders param didUA ≠ []) :
    ¬PriorityLast (front ++ addedHeaders param didUA) := by
  intro hlast
  rw [PriorityLast, getLast?_append_of_ne_nil _ hadded,
    getLast?_eq_some_getLast hadded, Option.map_some, Option.some.injEq] at hlast
  have hname := (added_names param didUA).subset (mem_map_of_mem (getLast_mem hadded))
  rw [hlast] at hname
  exact absurd hname (by decide)

/-- **`priority` stays last, and the fields of the table in their order, exactly if the encoder
adds nothing**: it was not asked for `accept-encoding`, and the map has a user agent. -/
theorem encodeHeaders_priority_last_iff {lib : Library} {orders : EncodeOrders}
    {param : EncodeHeadersParam} {out : EncodeHeadersResult × List Field}
    (hrun : encodeHeaders lib orders param = .ok out)
    (hcarries : CarriesPriority param.request.header) :
    (PriorityLast out.2 ∧ InRank (tableFor param.request.header) out.2) ↔
      (param.addGzipHeader = false ∧ hasUserAgent param.request.header = true) := by
  obtain ⟨target, trailers, -, htrailers, -, -, hout⟩ := encodeHeaders_eq_ok hrun
  rw [writtenHeaders_enumerateHeaders htrailers, fieldSequence] at hout
  rw [hout, ← addedHeaders_eq_nil_iff]
  have hsorted := @orderedHeaderKeys_sorted lib.toStrings param.request.header
    (asciiKeys_of_checkFields htrailers) orders.written
  have hperm := @orderedHeaderKeys_perm lib.toStrings param.request.header orders.written
  constructor
  · rintro ⟨hlast, -⟩
    by_contra hadded
    exact not_priorityLast_of_added hadded hlast
  · intro hadded
    rw [hadded, append_nil]
    have hpriority := priorityLast_of_sorted hsorted hperm hcarries
    constructor
    · -- the map's own fields are not empty, so they have the last one
      have hne : (orderedHeaderKeys lib.toStrings orders.written param.request.header).flatMap
          (sentFields param.request.header) ≠ [] := by
        intro hnil
        rw [hnil] at hpriority
        cases hpriority
      rw [PriorityLast, getLast?_append_of_ne_nil _ hne]
      exact hpriority
    · rw [InRank, pairwise_append]
      -- of the leading names only `content-length` may be in the table, at its start
      have hfirst : ∀ field ∈ pseudoHeaders param.request target ++
          ownHeaders param.request trailers, field.1 ∈ tableFor param.request.header →
          (tableFor param.request.header).idxOf field.1 = 0 := by
        intro field hfield
        exact idxOf_leading _ ((leading_names param.request target trailers).subset
          (mem_map_of_mem hfield))
      apply And.intro
      · apply pairwise_of_forall_mem_list
        intro field hfield field' _ htable _
        rw [hfirst field hfield htable]
        exact Nat.zero_le _
      · apply And.intro (inRank_of_sorted hsorted)
        intro field hfield field' _ htable _
        rw [hfirst field hfield htable]
        exact Nat.zero_le _

def priorityHeaders : Header :=
  ((∅ : Header).insert (ascii "Priority") [ascii "u=1, i"]).insert (ascii "User-Agent") [ascii "x"]

theorem carriesPriority_priorityHeaders : CarriesPriority priorityHeaders :=
  ⟨(ascii "Priority", [ascii "u=1, i"]), by decide, by decide, by decide⟩

/-- The request with these headers is encoded, with or without `accept-encoding`. -/
theorem encodeHeaders_priorityHeaders (addGzipHeader : Bool) :
    ∃ out, encodeHeaders plainLibrary storedEncode
        (exampleParam (ascii "GET") priorityHeaders addGzipHeader) = .ok out ∧
      out.2 = fieldSequence plainLibrary ⟨.stored, .stored⟩
        (exampleParam (ascii "GET") priorityHeaders addGzipHeader)
        ⟨exampleURL, ascii "a.test", ascii "/"⟩ [] := by
  have htarget : checkTarget plainLibrary
      (exampleParam (ascii "GET") priorityHeaders addGzipHeader).request =
        .ok ⟨exampleURL, ascii "a.test", ascii "/"⟩ := by
    rfl
  have hfields : checkFields storedEncode.toCheckOrders
      (exampleParam (ascii "GET") priorityHeaders addGzipHeader).request = .ok [] := by
    rfl
  exact encodeHeaders_of_checks htarget hfields rfl

theorem encodeHeaders_priority_last_plain :
    ∃ out, encodeHeaders plainLibrary storedEncode
        (exampleParam (ascii "GET") priorityHeaders false) = .ok out ∧
      PriorityLast out.2 ∧ InRank (tableFor priorityHeaders) out.2 := by
  obtain ⟨out, hrun, -⟩ := encodeHeaders_priorityHeaders false
  exact ⟨out, hrun, (encodeHeaders_priority_last_iff hrun carriesPriority_priorityHeaders).mpr
    ⟨rfl, by decide⟩⟩

/-- With the automatic header, `accept-encoding` comes after `priority`. -/
theorem encodeHeaders_gzip_after_priority :
    CarriesPriority priorityHeaders ∧
      ∃ out, encodeHeaders plainLibrary storedEncode
          (exampleParam (ascii "GET") priorityHeaders true) = .ok out ∧
        ¬PriorityLast out.2 := by
  apply And.intro carriesPriority_priorityHeaders
  obtain ⟨out, hrun, hout⟩ := encodeHeaders_priorityHeaders true
  apply Exists.intro out
  apply And.intro hrun
  rw [hout, fieldSequence]
  apply not_priorityLast_of_added
  rw [ne_eq, addedHeaders_eq_nil_iff]
  exact fun h => absurd h.1 (by decide)

end HeadlessClient.Http2
