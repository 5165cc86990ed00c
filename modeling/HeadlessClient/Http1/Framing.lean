import HeadlessClient.Http1.HeaderCase

/-!
# Http1 — where a server finds the end of a request

`WriteRequest` copies the body after the head and announces its length only if
`ContentLength` is positive or the caller's headers do. It compares the announced
length with nothing and never writes chunks. Whether a server takes exactly the body
for the body is thus a question about what the caller passes (`Request.Announces`).
-/

namespace HeadlessClient.Http1

open Base Wire List

/-! ## The fields of the lines -/

theorem splitField_fieldLine {name : Bytes} (h : (58 : UInt8) ∉ name) (value : Bytes) :
    splitField (fieldLine (name, value)) = some (name, trim value) := by
  have hline : fieldLine (name, value) = name ++ 58 :: 32 :: value := by
    rw [fieldLine, append_assoc]
    rfl
  have hname : ∀ c ∈ name, (c != 58) = true := by
    intro c hc
    rw [bne_iff_ne]
    exact fun heq => h (heq ▸ hc)
  rw [splitField, hline, if_pos (mem_append_right _ mem_cons_self),
    takeWhile_append_of_pos hname, dropWhile_append_of_pos hname]
  exact congrArg (fun n => some (n, trim value)) (append_nil name)

theorem fieldValues_fieldLines (name : Bytes) : ∀ fields : List (Bytes × Bytes),
    (∀ field ∈ fields, (58 : UInt8) ∉ field.1) →
      fieldValues name (fields.map fieldLine) =
        ((fields.filter fun field => lower field.1 = name).map Prod.snd).map trim := by
  intro fields h
  induction fields with
  | nil => rfl
  | cons field fields ih =>
    obtain ⟨hfield, hrest⟩ := forall_mem_cons.mp h
    have ih := ih hrest
    rw [fieldValues] at ih ⊢
    rw [map_cons, filterMap_cons, splitField_fieldLine hfield, ih, Option.bind_some]
    by_cases hname : lower field.1 = name
    · simp [hname]
    · simp [hname]

def Request.ColonFree (request : Request) : Prop :=
  ∀ field ∈ request.fields, (58 : UInt8) ∉ field.1

section Lines

variable {request : Request} {orders : Orders}

theorem Request.ColonFree.written (h : request.ColonFree) :
    ∀ field ∈ request.written orders, (58 : UInt8) ∉ field.1 := by
  intro field hfield hcolon
  have hin := (written_perm request orders).mem_iff.mp (mem_map_of_mem hfield)
  -- neither the canonical form nor the lower case moves a colon
  have hlower : (58 : UInt8) ∈ lower (canonicalHeaderKey field.1) := by
    rw [lower_canonicalHeaderKey]
    exact mem_map_of_mem hcolon
  obtain ⟨c, hc, heq⟩ := mem_map.mp hlower
  rw [(lowerByte_eq_iff (by decide)).mp heq] at hc
  exact h _ hin hc

theorem fieldValues_headerLines (h : request.ColonFree) {name : Bytes}
    (hhost : lower (ascii "Host") ≠ name) :
    fieldValues name (request.headerLines orders) =
      (request.valuesSent orders name).map trim := by
  have hline : fieldValues name [request.hostLine] = [] := by
    have hfield := fieldValues_fieldLines name [(ascii "Host", request.hostText)] (by simp; decide)
    rw [filter_cons_of_neg (by simpa using hhost)] at hfield
    exact hfield
  rw [headerLines_written, fieldValues, filterMap_append, Request.valuesSent,
    ← fieldValues_fieldLines name _ h.written, fieldValues]
  split
  · exact congrArg (· ++ _) hline
  · rfl

end Lines

/-! ## Codings -/

theorem endsChunked_append (codings more : List Bytes) (h : more ≠ []) :
    endsChunked (codings ++ more) = endsChunked more := by
  rw [endsChunked, endsChunked, getLast?_append_of_ne_nil _ h]

/-- The loop may visit any entry last. -/
theorem exists_range_append {header : Header} {e : Bytes × List Bytes}
    (he : e ∈ header.range .stored) : ∃ order entries, header.range order = entries ++ [e] := by
  obtain ⟨pair, hpair, rfl⟩ := mem_map.mp he
  obtain ⟨before, after, hentries⟩ := append_of_mem hpair
  have hbefore : header.entries = (before ++ [pair]) ++ after := by
    rw [append_assoc]
    exact hentries
  refine ⟨⟨fun l => l.drop (before ++ [pair]).length ++ l.take (before ++ [pair]).length,
    fun l => perm_append_comm.trans (.of_eq (take_append_drop _ l))⟩,
    (after ++ before).map fun e => (e.1, e.2), ?_⟩
  rw [GoMap.range, hbefore]
  dsimp only
  rw [drop_left, take_left, ← append_assoc, map_append]
  rfl

theorem endsChunked_flatMap : ∀ {entries : List (Bytes × List Bytes)},
    entries.flatMap Prod.snd ≠ [] →
      (∀ e ∈ entries, e.2 ≠ [] → endsChunked (e.2.map trim) = true) →
        endsChunked ((entries.flatMap Prod.snd).map trim) = true := by
  intro entries hsome hall
  induction entries with
  | nil => exact absurd rfl hsome
  | cons e entries ih =>
    obtain ⟨he, hrest⟩ := forall_mem_cons.mp hall
    rw [flatMap_cons] at hsome ⊢
    by_cases hnil : entries.flatMap Prod.snd = []
    · rw [hnil, append_nil] at hsome ⊢
      exact he hsome
    · rw [map_append, endsChunked_append _ _ (by rwa [ne_eq, map_eq_nil_iff])]
      exact ih hnil hrest

/-- **The last coding is `chunked` in every order iff it is under every spelling.** -/
theorem endsChunked_spelled_iff {header : Header} {name : Bytes} :
    (∀ order, endsChunked (((spelled header order name).flatMap Prod.snd).map trim) = true) ↔
      (spelled header .stored name).flatMap Prod.snd ≠ [] ∧
        ∀ e ∈ spelled header .stored name, e.2 ≠ [] → endsChunked (e.2.map trim) = true := by
  constructor
  · intro h
    refine ⟨fun hnil => ?_, fun e he hvalues => ?_⟩
    · have hstored := h .stored
      rw [hnil] at hstored
      cases hstored
    · obtain ⟨hin, hname⟩ := mem_spelled.mp he
      obtain ⟨order, entries, hrange⟩ := exists_range_append hin
      have hlast := h order
      rw [spelled, hrange, filter_append, filter_cons_of_pos (by simpa using hname), filter_nil,
        flatMap_append, flatMap_singleton, map_append,
        endsChunked_append _ _ (by rwa [ne_eq, map_eq_nil_iff])] at hlast
      exact hlast
  · rintro ⟨hsome, hall⟩ order
    have hperm := @spelled_perm header order .stored name
    refine endsChunked_flatMap (fun hnil => hsome ?_) fun e he => hall e (hperm.mem_iff.mp he)
    have hvalues := hperm.flatMap_right Prod.snd
    rw [hnil] at hvalues
    exact hvalues.nil_eq.symm

/-! ## Lengths -/

theorem digit_decimal {n : Nat} : ∀ c ∈ decimal n, isBlank c = false ∧
    digit c = some (c.toNat - 48) ∧ c.toNat - 48 < 10 := by
  have hbyte : ∀ c : UInt8, 48 ≤ c.toNat ∧ c.toNat ≤ 57 → isBlank c = false ∧
      digit c = some (c.toNat - 48) ∧ c.toNat - 48 < 10 := forall_byte (by decide +kernel)
  exact fun c hc => hbyte c (digit_of_mem_decimal hc)

theorem trim_eq_self {text : Bytes} (h : ∀ c ∈ text, isBlank c = false) : trim text = text := by
  have hdrop : ∀ l : Bytes, (∀ c ∈ l, isBlank c = false) → l.dropWhile isBlank = l := by
    intro l hl
    cases l with
    | nil => rfl
    | cons c l => exact dropWhile_cons_of_neg (by simp [hl c mem_cons_self])
  rw [trim, hdrop _ h, hdrop _ (by simpa using h), reverse_reverse]

/-- The decimal digits are read back as the number. -/
theorem number_decimal (n : Nat) : number 10 (trim (decimal n)) = some n := by
  have hfold : ∀ (text : Bytes) (m : Nat),
      (∀ c ∈ text, digit c = some (c.toNat - 48) ∧ c.toNat - 48 < 10) →
        text.foldlM (fun n c => (digit c).bind fun d =>
            if d < 10 then some (n * 10 + d) else none) m =
          some (text.foldl (fun v d => v * 10 + (d.toNat - 48)) m) := by
    intro text
    induction text with
    | nil => intro m _; rfl
    | cons c text ih =>
      intro m h
      obtain ⟨⟨hdigit, hlt⟩, hrest⟩ := forall_mem_cons.mp h
      rw [foldlM_cons, hdigit, Option.bind_some, if_pos hlt]
      exact ih _ hrest
  have hvalue : digitsValue (decimal n) = n := digitsValue_decimalLoop _ n (Nat.lt_succ_self n)
  have hne : decimal n ≠ [] := by
    intro hnil
    rw [hnil] at hvalue
    subst hvalue
    cases hnil
  rw [trim_eq_self fun c hc => (digit_decimal c hc).1, number, if_neg hne,
    hfold _ _ fun c hc => (digit_decimal c hc).2]
  exact congrArg some hvalue

/-- The default is set: `ContentLength` is positive and `Get` finds no length. -/
def Request.SetsLength (request : Request) : Prop :=
  request.contentLength > 0 ∧ request.header.get (ascii "Content-Length") = []

def Request.callerLengths (request : Request) : List Bytes :=
  request.callerValues (lower (ascii "Content-Length"))

def Request.callerCodings (request : Request) : List Bytes :=
  request.callerValues (lower (ascii "Transfer-Encoding"))

/-- The caller's lengths under the keys that `Set` does not replace. -/
def Request.otherLengths (request : Request) : List Bytes :=
  ((spelled request.header .stored (lower (ascii "Content-Length"))).filter
    (·.1 ≠ ascii "Content-Length")).flatMap Prod.snd

/-- The lengths that are sent, up to their order. -/
def Request.lengths (request : Request) : List Bytes :=
  (spelled request.sentHeader .stored (lower (ascii "Content-Length"))).flatMap Prod.snd

section Lengths

variable {request : Request}

theorem get_contentLength : request.header.get (ascii "Content-Length") =
    (((spelled request.header .stored (lower (ascii "Content-Length"))).filter
      (·.1 = ascii "Content-Length")).flatMap Prod.snd).headD [] := by
  have hkey : canonicalHeaderKey (ascii "Content-Length") = ascii "Content-Length" := by decide
  rw [Header.get, hkey, lookup_of_spelled]

theorem lengths_of_pos (hpos : request.contentLength > 0) : request.lengths =
    if request.header.get (ascii "Content-Length") = [] then
      decimal request.contentLength.toNat :: request.otherLengths
    else request.callerLengths := by
  rw [Request.lengths, spelled_sent_contentLength hpos, spelled_setDefault, lookup_of_spelled,
    spelled_keepAlive (by decide) (by decide), get_contentLength]
  simp only [firstEmpty, decide_eq_true_eq]
  split
  · rfl
  · rfl

theorem lengths_of_setsLength (h : request.SetsLength) :
    request.lengths = decimal request.contentLength.toNat :: request.otherLengths := by
  rw [lengths_of_pos h.1, if_pos h.2]

theorem lengths_of_not_setsLength (h : ¬request.SetsLength) :
    request.lengths = request.callerLengths := by
  by_cases hpos : request.contentLength > 0
  · rw [lengths_of_pos hpos, if_neg fun hget => h ⟨hpos, hget⟩]
  · rw [Request.lengths, spelled_sent_of_not_handles]
    · rfl
    rintro (hname | hname | ⟨-, hpos'⟩)
    · exact absurd hname (by decide)
    · exact absurd hname (by decide)
    · exact hpos hpos'

theorem lengths_eq_nil_iff : request.lengths = [] ↔
    request.contentLength ≤ 0 ∧ request.callerLengths = [] := by
  by_cases hset : request.SetsLength
  · rw [lengths_of_setsLength hset]
    refine iff_of_false (cons_ne_nil _ _) fun h => ?_
    exact absurd hset.1 (not_lt.mpr h.1)
  · rw [lengths_of_not_setsLength hset]
    refine ⟨fun hnil => ⟨?_, hnil⟩, And.right⟩
    by_contra hpos
    refine hset ⟨not_le.mp hpos, ?_⟩
    -- `Get` finds nothing where there are no values at all
    rw [Request.callerLengths, Request.callerValues, flatMap_eq_nil_iff] at hnil
    rw [get_contentLength, flatMap_eq_nil_iff.mpr fun e he => hnil e (mem_of_mem_filter he)]
    rfl

end Lengths

/-- A body of `n` bytes is all of the text iff the text has `n` bytes. -/
theorem readBody_length_all {n : Nat} {body : Bytes} :
    (∃ content, readBody (.length n) body = some (content, [])) ↔ n = body.length := by
  rw [readBody]
  constructor
  · rintro ⟨content, h⟩
    by_cases hn : n ≤ body.length
    · rw [if_pos hn] at h
      simp only [Option.some.injEq, Prod.mk.injEq, List.drop_eq_nil_iff] at h
      exact Nat.le_antisymm hn h.2
    · rw [if_neg hn] at h
      cases h
  · rintro rfl
    exact ⟨body, by simp⟩

/-! ## What the caller announces -/

/-- **What the caller passes announces exactly these bytes.** -/
inductive Request.Announces (request : Request) (data : Bytes) : Prop where
  /-- `ContentLength` is their number and the headers say nothing. -/
  | declared (set : request.SetsLength) (length : request.contentLength = data.length)
      (lengths : request.otherLengths = []) (codings : request.callerCodings = [])
  /-- The only `Content-Length` among the headers is their number. -/
  | named (unset : ¬request.SetsLength) (value : Bytes)
      (lengths : request.callerLengths = [value])
      (length : number 10 (trim value) = some data.length) (codings : request.callerCodings = [])
  /-- The caller has coded them: `Transfer-Encoding` ends in `chunked`, under every key that
  is a spelling of it and has values, and they are one body in chunks. -/
  | chunked (length : request.contentLength ≤ 0) (lengths : request.callerLengths = [])
      (codings : request.callerCodings ≠ [])
      (last : ∀ e ∈ spelled request.header .stored (lower (ascii "Transfer-Encoding")),
        e.2 ≠ [] → endsChunked (e.2.map trim) = true)
      (chunks : ∃ content, readBody .chunked data = some (content, []))
  /-- There are none, and nothing is said. -/
  | nothing (length : request.contentLength ≤ 0) (lengths : request.callerLengths = [])
      (codings : request.callerCodings = []) (empty : data = [])

section Announces

variable {request : Request} {data : Bytes}

theorem fieldValues_lengths (h : request.ColonFree) (orders : Orders) :
    (fieldValues (ascii "content-length") (request.headerLines orders)).Perm
      (request.lengths.map trim) := by
  have hvalues := @fieldValues_headerLines request orders h (lower (ascii "Content-Length"))
    (by decide)
  rw [valuesSent_eq (by decide) (by decide)] at hvalues
  refine (Perm.of_eq hvalues).trans (Perm.map _ ?_)
  exact (spelled_perm orders.header .stored _).flatMap_right _

theorem fieldValues_lengths_eq_nil (h : request.ColonFree) (orders : Orders) :
    fieldValues (ascii "content-length") (request.headerLines orders) = [] ↔
      request.contentLength ≤ 0 ∧ request.callerLengths = [] := by
  rw [← lengths_eq_nil_iff, ← length_eq_zero_iff, (fieldValues_lengths h orders).length_eq,
    length_map, length_eq_zero_iff]

theorem fieldValues_codings (h : request.ColonFree) (orders : Orders) :
    fieldValues (ascii "transfer-encoding") (request.headerLines orders) =
      ((spelled request.sentHeader orders.header (lower (ascii "Transfer-Encoding"))).flatMap
        Prod.snd).map trim := by
  have hvalues := @fieldValues_headerLines request orders h (lower (ascii "Transfer-Encoding"))
    (by decide)
  rw [valuesSent_eq (by decide) (by decide)] at hvalues
  exact hvalues

theorem spelled_sent_codings :
    spelled request.sentHeader .stored (lower (ascii "Transfer-Encoding")) =
      spelled request.header .stored (lower (ascii "Transfer-Encoding")) :=
  spelled_sent_of_not_handles (not_handles (by decide))

theorem fieldValues_codings_eq_nil (h : request.ColonFree) (orders : Orders) :
    fieldValues (ascii "transfer-encoding") (request.headerLines orders) = [] ↔
      request.callerCodings = [] := by
  have hperm := (@spelled_perm request.sentHeader orders.header .stored
    (lower (ascii "Transfer-Encoding"))).flatMap_right Prod.snd
  rw [fieldValues_codings h, map_eq_nil_iff, Request.callerCodings, Request.callerValues,
    ← spelled_sent_codings, ← length_eq_zero_iff, hperm.length_eq, length_eq_zero_iff]

/-- The bytes are one whole body under the framing that the lines announce. -/
def Framed (lines : List Bytes) (data : Bytes) : Prop :=
  ∃ framing content, requestFraming lines = some framing ∧
    readBody framing data = some (content, [])

theorem announces_of_framed (h : request.ColonFree)
    (hall : ∀ orders, Framed (request.headerLines orders) data) : request.Announces data := by
  have hcodings := fieldValues_codings_eq_nil h storedOrders
  have hlengths := fieldValues_lengths_eq_nil h storedOrders
  obtain ⟨framing, content, hframing, hbody⟩ := hall storedOrders
  rcases requestFraming_eq_some.mp hframing with
    ⟨hte, hcl, rfl⟩ | ⟨hte, value, n, hcl, hnumber, rfl⟩ | ⟨hcl, hlast, rfl⟩
  · obtain ⟨hzero, hcl⟩ := hlengths.mp hcl
    have hlen := readBody_length_all.mp ⟨content, hbody⟩
    exact .nothing hzero hcl (hcodings.mp hte) (eq_nil_of_length_eq_zero hlen.symm)
  · have hperm := fieldValues_lengths h storedOrders
    rw [hcl, singleton_perm, eq_comm, map_eq_singleton_iff] at hperm
    obtain ⟨text, htext, rfl⟩ := hperm
    obtain rfl := readBody_length_all.mp ⟨content, hbody⟩
    by_cases hset : request.SetsLength
    · rw [lengths_of_setsLength hset, cons.injEq] at htext
      obtain ⟨rfl, hother⟩ := htext
      rw [number_decimal, Option.some.injEq] at hnumber
      have hpos := hset.1
      exact .declared hset (by omega) hother (hcodings.mp hte)
    · rw [lengths_of_not_setsLength hset] at htext
      exact .named hset text htext hnumber (hcodings.mp hte)
  · obtain ⟨hzero, hcl⟩ := hlengths.mp hcl
    -- there are codings, so no order of the loop leads to another framing
    have hsome : request.callerCodings ≠ [] := by
      intro hnil
      rw [hcodings.mpr hnil] at hlast
      cases hlast
    have hevery : ∀ order, endsChunked (((spelled request.sentHeader order
        (lower (ascii "Transfer-Encoding"))).flatMap Prod.snd).map trim) = true := by
      intro order
      obtain ⟨framing', content', hframing', -⟩ := hall ⟨order, .stored⟩
      rw [← fieldValues_codings h ⟨order, .stored⟩]
      rcases requestFraming_eq_some.mp hframing' with ⟨hte, -⟩ | ⟨hte, -⟩ | ⟨-, hlast', -⟩
      · exact absurd ((fieldValues_codings_eq_nil h _).mp hte) hsome
      · exact absurd ((fieldValues_codings_eq_nil h _).mp hte) hsome
      · exact hlast'
    have hspelled := (endsChunked_spelled_iff.mp hevery).2
    rw [spelled_sent_codings] at hspelled
    exact .chunked hzero hcl hsome hspelled ⟨content, hbody⟩

theorem framed_of_announces (h : request.ColonFree) (hannounces : request.Announces data)
    (orders : Orders) : Framed (request.headerLines orders) data := by
  have hcodings := fieldValues_codings_eq_nil h orders
  have hlengths := fieldValues_lengths_eq_nil h orders
  have hperm := fieldValues_lengths h orders
  obtain ⟨content, hall⟩ := readBody_length_all.mpr (show data.length = data.length from rfl)
  cases hannounces with
  | declared hset hlength hother hte =>
    rw [lengths_of_setsLength hset, hother, map_singleton, perm_singleton] at hperm
    have hnumber := number_decimal request.contentLength.toNat
    rw [hlength, Int.toNat_natCast] at hperm hnumber
    exact ⟨_, content, requestFraming_eq_some.mpr
      (.inr (.inl ⟨hcodings.mpr hte, _, _, hperm, hnumber, rfl⟩)), hall⟩
  | named hset value hvalue hnumber hte =>
    rw [lengths_of_not_setsLength hset, hvalue, map_singleton, perm_singleton] at hperm
    exact ⟨_, content, requestFraming_eq_some.mpr
      (.inr (.inl ⟨hcodings.mpr hte, _, _, hperm, hnumber, rfl⟩)), hall⟩
  | chunked hzero hcl hsome hspelled hchunks =>
    obtain ⟨content, hbody⟩ := hchunks
    have hevery := (@endsChunked_spelled_iff request.sentHeader
      (lower (ascii "Transfer-Encoding"))).mpr
      (by rw [spelled_sent_codings]; exact ⟨hsome, hspelled⟩)
    refine ⟨_, content, requestFraming_eq_some.mpr
      (.inr (.inr ⟨hlengths.mpr ⟨hzero, hcl⟩, ?_, rfl⟩)), hbody⟩
    rw [fieldValues_codings h]
    exact hevery orders.header
  | nothing hzero hcl hte hdata =>
    subst hdata
    exact ⟨_, [], requestFraming_eq_some.mpr
      (.inl ⟨hcodings.mpr hte, hlengths.mpr ⟨hzero, hcl⟩, rfl⟩), rfl⟩

theorem readRequest_head_iff {orders : Orders} (hclean : request.Clean) :
    (∀ next, readRequest (request.head orders ++ data ++ next) = some (data, next)) ↔
      Framed (request.headerLines orders) data := by
  have hcut := @Request.Clean.cutBlock request orders hclean []
  rw [append_nil] at hcut
  rw [readRequest_eq_iff]
  constructor
  · rintro ⟨lines, framing, content, hlines, hframing, hbody⟩
    rw [hcut] at hlines
    cases hlines
    exact ⟨framing, content, hframing, hbody⟩
  · rintro ⟨framing, content, hframing, hbody⟩
    exact ⟨_, framing, content, hcut, hframing, hbody⟩

end Announces

theorem reliable_ok {request : Request} {body : Body} (hbody : request.body = some body)
    (hreads : body.fails = false) (orders : Orders) :
    (writeRequest orders reliable request).ok = true := by
  simp [writeRequest, Writer.write, Writer.accepts, reliable, hbody, hreads]

/-- **A server delimits exactly the body, whatever follows, iff the caller announces it.** For
every request that breaks no line and has a body that is read to its end, over all orders of
the loops and all writers that take the request. -/
theorem writeRequest_body_delimited_iff {request : Request} {body : Body}
    (hbody : request.body = some body) (hreads : body.fails = false) (hclean : request.Clean)
    (hcolon : request.ColonFree) :
    (∀ orders writer, (writeRequest orders writer request).ok = true → ∀ next,
        readRequest ((writeRequest orders writer request).bytes ++ next) =
          some (body.data, next)) ↔
      request.Announces body.data := by
  have hbytes : request.bodyBytes = body.data := by
    rw [Request.bodyBytes, hbody]
    rfl
  constructor
  · intro h
    refine announces_of_framed hcolon fun orders => (readRequest_head_iff hclean).mp ?_
    have hok := reliable_ok hbody hreads orders
    have hall := h orders reliable hok
    rw [writeRequest_ok hok, hbytes] at hall
    exact hall
  · intro hannounces orders writer hok
    rw [writeRequest_ok hok, hbytes]
    exact (readRequest_head_iff hclean).mpr (framed_of_announces hcolon hannounces orders)

/-- `POST https://a/` with a body. -/
def postRequest (contentLength : Int) (data : Bytes) : Request where
  method := ascii "POST"
  url := ⟨ascii "https", [], ascii "/", false, [], ascii "a"⟩
  host := []
  header := ∅
  contentLength := contentLength
  body := some ⟨data, false⟩
  close := false

theorem writeRequest_body_delimited_three_bytes :
    (writeRequest storedOrders reliable (postRequest 3 (ascii "abc"))).ok = true ∧
      readRequest ((writeRequest storedOrders reliable (postRequest 3 (ascii "abc"))).bytes ++
        ascii "GET") = some (ascii "abc", ascii "GET") := by
  have hbody : (postRequest 3 (ascii "abc")).body = some ⟨ascii "abc", false⟩ := rfl
  have hcolon : ∀ field ∈ (postRequest 3 (ascii "abc")).fields, (58 : UInt8) ∉ field.1 := by
    decide +kernel
  have hok : (writeRequest storedOrders reliable (postRequest 3 (ascii "abc"))).ok = true := by
    decide +kernel
  refine ⟨hok, (writeRequest_body_delimited_iff hbody rfl ?_ hcolon).mpr ?_ _ _ hok _⟩
  · exact ⟨by decide, by decide, by decide, by decide +kernel⟩
  · exact .declared ⟨by decide, by decide⟩ rfl (by decide) (by decide)

/-- A body of unknown length (`ContentLength` 0 or -1) is announced by nothing:
the server takes it for the start of the next request. -/
theorem writeRequest_body_not_announced :
    ((writeRequest storedOrders reliable (postRequest 0 (ascii "abc"))).ok = true ∧
      readRequest (writeRequest storedOrders reliable (postRequest 0 (ascii "abc"))).bytes
        = some ([], ascii "abc")) ∧
    ((writeRequest storedOrders reliable (postRequest (-1) (ascii "abc"))).ok = true ∧
      readRequest (writeRequest storedOrders reliable (postRequest (-1) (ascii "abc"))).bytes
        = some ([], ascii "abc")) := by
  decide +kernel

end HeadlessClient.Http1
