import HeadlessClient.Transport.RoundTrip

/-!
# Transport — what `RoundTrip` does to the caller's request

`http.RoundTripper` asks that the request be left alone. Behind its first block
the transport keeps to that on every path: it writes to objects of its own
(`Extends`, `send_extends`). The FIRST BLOCK sets headers in the caller's map;
`roundTrip_unchanged_iff` says for which requests this does not show.
-/

namespace HeadlessClient.Transport

open Base Http1 List

/-! ## Behind the first block -/

/-- Nothing has been written to the requests and the header maps of `h`. -/
structure Extends (h h' : Heap) : Prop where
  requests : h.requests <+: h'.requests
  headers : h.headers <+: h'.headers

namespace Extends

variable {h h' h'' : Heap}

theorem refl (h : Heap) : Extends h h := ⟨prefix_refl _, prefix_refl _⟩

theorem trans (first : Extends h h') (second : Extends h' h'') : Extends h h'' :=
  ⟨first.requests.trans second.requests, first.headers.trans second.headers⟩

theorem closeBody (h : Heap) (p : RequestRef) : Extends h (h.closeBody p) := by
  unfold Heap.closeBody
  split
  · exact ⟨prefix_refl _, prefix_refl _⟩
  · exact refl h

theorem afterExchange (h : Heap) (p : RequestRef) (taken : Bool) :
    Extends h (h.afterExchange p taken) := by
  have hnew : Extends h { h with headers := h.headers ++ [(h.view p).sentHeader] } :=
    ⟨prefix_refl _, prefix_append _ _⟩
  cases taken with
  | false => exact hnew
  | true => exact hnew.trans (closeBody _ _)

theorem roundTripOnNew (dialed : Dialed) (h : Heap) (p : RequestRef) :
    ∃ res, roundTripOnNew dialed p h = .ok res ∧ Extends h res.1 := by
  cases dialed with
  | dialError | handshakeError | newClientConnError => exact ⟨_, rfl, refl h⟩
  | clientConn result => exact ⟨_, rfl, closeBody h p⟩
  | conn link => exact ⟨_, link.roundTrip_eq p h, afterExchange h p _⟩

theorem roundTripOnIdle (idle : Idle) (h : Heap) (p : RequestRef) :
    ∃ res, roundTripOnIdle idle p h = .ok res ∧ Extends h res.1 := by
  cases idle with
  | none => exact ⟨_, rfl, refl h⟩
  | clientConn result => exact ⟨_, rfl, closeBody h p⟩
  | conn link =>
    exact ⟨_, roundTripOnIdle_conn link p h, afterExchange h p _⟩

theorem newBody (h : Heap) (new : NewBody) : Extends h (h.newBody new).1 := by
  cases new <;> exact ⟨prefix_refl _, prefix_refl _⟩

end Extends

/-- `Clone` and the assignment to its `Body` write to new objects. -/
theorem Heap.setBody_clone (h : Heap) (p : RequestRef) (body : BodyRef) :
    ((h.clone p).1.setBody (h.clone p).2 body, (h.clone p).2)
      = ({ requests := h.requests ++
             [{ h.request p with
                header := (h.newHeader (h.header (h.request p).header)).2, body := body }]
           headers := h.headers ++ (h.header (h.request p).header).toList
           bodies := h.bodies }, h.requests.length) := by
  unfold Heap.clone
  cases h.header (h.request p).header <;>
    simp [Heap.newHeader, Heap.newRequest, Heap.setBody, modify_length_append]

theorem Extends.replayableRequest (h : Heap) (p : RequestRef) :
    Extends h (replayableRequest p h).1 := by
  unfold Transport.replayableRequest
  split
  · exact .refl h
  · exact .refl h
  · exact .refl h
  · exact .refl h
  · rename_i new _ _
    have hclone := congrArg Prod.fst ((h.newBody new).1.setBody_clone p (h.newBody new).2)
    dsimp only at hclone ⊢
    rw [hclone]
    exact (Extends.newBody h new).trans ⟨prefix_append _ _, prefix_append _ _⟩

/-- **Behind its first block `RoundTrip` returns, and leaves the requests and
the header maps alone.** -/
theorem send_extends (env : Env) (h : Heap) (p : RequestRef) {url : URL}
    (hurl : (h.request p).url = some url) : ∃ res, send env p h = .ok res ∧ Extends h res.1 := by
  obtain ⟨⟨h₁, attempt⟩, hidle, hext⟩ := Extends.roundTripOnIdle (env.idle (URL.address url)) h p
  have hnew := fun q h => Extends.roundTripOnNew (env.dial (URL.address url)) h q
  simp only [send, hurl, hidle, ok_bind]
  cases attempt with
  | none =>
    obtain ⟨res, hres, hext'⟩ := hnew p h₁
    exact ⟨res, hres, hext.trans hext'⟩
  | some result =>
    cases result with
    | some response => exact ⟨_, rfl, hext⟩
    | none =>
      have hreplay := Extends.replayableRequest h₁ p
      obtain ⟨⟨h₂, q⟩, hq⟩ : ∃ x, replayableRequest p h₁ = x := ⟨_, rfl⟩
      rw [hq] at hreplay
      simp only [hq]
      cases q with
      | none => exact ⟨_, rfl, hext.trans hreplay⟩
      | some q =>
        obtain ⟨res, hres, hext'⟩ := hnew q h₂
        exact ⟨res, hres, (hext.trans hreplay).trans hext'⟩

/-! ## The first block -/

def CallerRequest.withHeader (r : CallerRequest) (header : Header) : CallerRequest :=
  { r with header := some header }

section WithHeader

variable (r : CallerRequest) (header : Header)

@[simp] theorem heap_requests : r.heap.requests =
    [{ method := r.method, url := r.url, host := r.host, header := r.header.map fun _ => 0,
       contentLength := r.contentLength, close := r.close,
       body := ((⟨[], r.header.toList, []⟩ : Heap).newBody r.body).2, getBody := r.getBody,
       redirects := r.redirects }] := rfl

@[simp] theorem heap_headers : r.heap.headers = r.header.toList := by
  unfold CallerRequest.heap
  cases r.body <;> rfl

@[simp] theorem heap_header : r.heap.header (r.heap.request 0).header = r.header := by
  simp only [Heap.header, Heap.request, heap_requests, heap_headers]
  cases r.header <;> rfl

@[simp] theorem heap_headerOf : (r.withHeader header).heap.headerOf 0 = header := by
  rw [Heap.headerOf, heap_header]
  rfl

theorem heap_setHeader (key value : Bytes) :
    (r.withHeader header).heap.setHeader (some 0) key value
      = .ok (r.withHeader (header.set key value)).heap := by
  unfold CallerRequest.withHeader CallerRequest.heap
  cases r.body <;> rfl

theorem heap_setHeaderIf (c : Bool) (key value : Bytes) :
    (r.withHeader header).heap.setHeaderIf c (some 0) key value
      = .ok (r.withHeader (if c then header.set key value else header)).heap := by
  cases c with
  | false => rfl
  | true => exact heap_setHeader r header key value

end WithHeader

namespace RoundTripper

variable (t : RoundTripper)

/-- What the first block makes of a header map before it looks at
`Sec-Fetch-Site`. -/
def defaults (header : Header) : Header :=
  let header :=
    if header.get (ascii "Accept-Encoding") = [] then
      header.set (ascii "Accept-Encoding") chromeAcceptEncoding
    else header
  if (header.lookup (ascii "User-Agent")).isNone ∧ t.userAgent ≠ [] then
    header.set (ascii "User-Agent") t.userAgent
  else header

/-- `Sec-Fetch-Site` as the first block leaves it. -/
def withSecFetchSite (r : CallerRequest) (header : Header) : Except RuntimeError Header :=
  if (header.lookup (ascii "Sec-Fetch-Site")).isSome then do
    let site ← secFetchSiteForRequest t.lib ⟨r.url, some header⟩ r.redirects
    .ok (header.set (ascii "Sec-Fetch-Site") site.text)
  else .ok header

/-- The request after the first block. -/
def prepared (r : CallerRequest) : Except RuntimeError CallerRequest :=
  if t.callerOwnsHeaders then .ok r
  else
    match r.header with
    | none => .error .nilMapWrite
    | some header => r.withHeader <$> t.withSecFetchSite r (t.defaults header)

theorem setSecFetchSite_eq (r : CallerRequest) (header : Header) :
    t.setSecFetchSite 0 (r.withHeader header).heap
      = (fun header => (r.withHeader header).heap) <$> t.withSecFetchSite r header := by
  unfold setSecFetchSite withSecFetchSite
  rw [heap_headerOf]
  by_cases hsome : (header.lookup (ascii "Sec-Fetch-Site")).isSome = true
  · rw [if_pos hsome, if_pos hsome, heap_header]
    have hcell : ((r.withHeader header).heap.request 0).url = r.url ∧
        ((r.withHeader header).heap.request 0).redirects = r.redirects := ⟨rfl, rfl⟩
    rw [hcell.1, hcell.2]
    change (secFetchSiteForRequest t.lib ⟨r.url, some header⟩ r.redirects >>= _) = _
    cases secFetchSiteForRequest t.lib ⟨r.url, some header⟩ r.redirects with
    | error e => rfl
    | ok site => exact heap_setHeader r header _ _
  · rw [if_neg hsome, if_neg hsome]
    rfl

/-- **The first block writes to the caller's header map**, and panics if there
is none. -/
theorem setHeaders_eq (r : CallerRequest) :
    t.setHeaders 0 r.heap = CallerRequest.heap <$> t.prepared r := by
  unfold setHeaders prepared
  split_ifs with howns
  · rfl
  · cases hheader : r.header with
    | none =>
      have hempty : r.heap.headerOf 0 = ∅ := by
        rw [Heap.headerOf, heap_header, hheader]
        rfl
      have hnil : (r.heap.request 0).header = none := by
        simp [Heap.request, hheader]
      rw [hempty, hnil]
      rfl
    | some header =>
      have hheap : r.heap = (r.withHeader header).heap := by
        rw [CallerRequest.withHeader, ← hheader]
      have hm : ((r.withHeader header).heap.request 0).header = some 0 := rfl
      simp only [hheap, hm, heap_headerOf, heap_setHeaderIf, ok_bind, decide_eq_true_eq]
      rw [setSecFetchSite_eq]
      change (fun header => (r.withHeader header).heap) <$> t.withSecFetchSite r (t.defaults header)
        = CallerRequest.heap <$> (r.withHeader <$> t.withSecFetchSite r (t.defaults header))
      cases t.withSecFetchSite r (t.defaults header) <;> rfl

end RoundTripper

/-! ## The frame -/

/-- The caller's request is as the caller passed it: method, URL and host, and
under every key of the header map what was there. -/
structure Unchanged (r : CallerRequest) (h : Heap) : Prop where
  method : (h.request 0).method = r.method
  url : (h.request 0).url = r.url
  host : (h.request 0).host = r.host
  header : ∀ key, (h.header (h.request 0).header).map (·.lookup key) = r.header.map (·.lookup key)

/-- There is nothing left for the first block to write. -/
structure RoundTripper.Settled (t : RoundTripper) (r : CallerRequest) (header : Header) : Prop where
  map : r.header = some header
  acceptEncoding : header.get (ascii "Accept-Encoding") ≠ []
  userAgent : (header.lookup (ascii "User-Agent")).isSome ∨ t.userAgent = []
  secFetchSite : ∀ values, header.lookup (ascii "Sec-Fetch-Site") = some values →
    ∃ site, secFetchSiteForRequest t.lib ⟨r.url, r.header⟩ r.redirects = .ok site ∧
      values = [site.text]

variable {r : CallerRequest}

theorem Extends.caller {h : Heap} (hext : Extends r.heap h) :
    h.request 0 = r.heap.request 0 ∧ h.header (h.request 0).header = r.header := by
  have hcell : h.request 0 = r.heap.request 0 := by
    obtain ⟨more, hmore⟩ := hext.requests
    simp [Heap.request, ← hmore]
  refine ⟨hcell, ?_⟩
  obtain ⟨more, hmore⟩ := hext.headers
  rw [hcell]
  rw [heap_headers] at hmore
  cases hheader : r.header with
  | none => simp [Heap.header, Heap.request, hheader]
  | some header => simp [Heap.header, Heap.request, hheader, ← hmore]

/-- The first block writes to nothing but the header map. -/
structure CallerRequest.SameButHeader (r r' : CallerRequest) : Prop where
  method : r'.method = r.method
  url : r'.url = r.url
  host : r'.host = r.host
  body : r'.body = r.body
  getBody : r'.getBody = r.getBody

theorem prepared_same {t : RoundTripper} {r' : CallerRequest} (h : t.prepared r = .ok r') :
    r.SameButHeader r' := by
  unfold RoundTripper.prepared at h
  split at h
  · cases h
    exact ⟨rfl, rfl, rfl, rfl, rfl⟩
  · split at h
    · cases h
    · obtain ⟨header, -, rfl⟩ := map_eq_ok.mp h
      exact ⟨rfl, rfl, rfl, rfl, rfl⟩

/-- **`RoundTrip` returns iff its first block does and there is a URL**; what the
caller sees of its request is what the first block has made of it. -/
theorem roundTrip_unchanged {t : RoundTripper} {env : Env} :
    (∃ res, t.roundTrip env r = .ok res ∧ Unchanged r res.1) ↔
      r.url.isSome ∧ ∃ r', t.prepared r = .ok r' ∧
        ∀ key, r'.header.map (·.lookup key) = r.header.map (·.lookup key) := by
  simp only [RoundTripper.roundTrip, t.setHeaders_eq]
  cases hprep : t.prepared r with
  | error e => simp
  | ok r' =>
    have hfields := prepared_same hprep
    change (∃ res, send env 0 r'.heap = _ ∧ _) ↔ _
    rw [← hfields.url]
    cases hurl : r'.url with
    | none =>
      have hpanic : send env 0 r'.heap = .error .nilDereference := by
        simp [send, Heap.request, hurl]
      simp [hpanic]
    | some url =>
      have hcell : (r'.heap.request 0).url = some url := hurl
      obtain ⟨res, hres, hext⟩ := send_extends env _ 0 hcell
      obtain ⟨hsame, hheader⟩ := hext.caller
      have hcontents : Unchanged r res.1 ↔
          ∀ key, r'.header.map (·.lookup key) = r.header.map (·.lookup key) := by
        constructor
        · intro h key
          rw [← h.header key, hheader]
        · intro h
          refine ⟨?_, ?_, ?_, fun key => by rw [hheader]; exact h key⟩
          · rw [hsame, ← hfields.method]
            rfl
          · rw [hsame, ← hfields.url]
            rfl
          · rw [hsame, ← hfields.host]
            rfl
      rw [hres]
      simp [hcontents]

section Contents

variable (t : RoundTripper) (r : CallerRequest) (header : Header)

theorem lookup_set (key value key' : Bytes) (hkey : canonicalHeaderKey key = key) :
    (header.set key value).lookup key' =
      if key' = key then some [value] else header.lookup key' := by
  rw [Header.set, hkey]
  split_ifs with h
  · rw [h, AList.lookup_insert]
  · rw [AList.lookup_insert_ne h]

/-- The keys that only the `Sec-Fetch-Site` step writes to, or does not write to. -/
theorem lookup_withSecFetchSite {header' : Header} (h : t.withSecFetchSite r header = .ok header')
    {key : Bytes} (hkey : key ≠ ascii "Sec-Fetch-Site") :
    header'.lookup key = header.lookup key := by
  unfold RoundTripper.withSecFetchSite at h
  split at h
  · obtain ⟨site, -, h⟩ := bind_eq_ok.mp h
    cases h
    rw [lookup_set _ _ _ _ (by decide), if_neg hkey]
  · cases h
    rfl

theorem defaults_eq_self (hencoding : header.get (ascii "Accept-Encoding") ≠ [])
    (hagent : (header.lookup (ascii "User-Agent")).isSome ∨ t.userAgent = []) :
    t.defaults header = header := by
  have hskip : ¬((header.lookup (ascii "User-Agent")).isNone ∧ t.userAgent ≠ []) := by
    rintro ⟨hnone, hne⟩
    rcases hagent with hsome | hempty
    · rw [Option.isNone_iff_eq_none] at hnone
      rw [hnone] at hsome
      cases hsome
    · exact hne hempty
  simp only [RoundTripper.defaults, if_neg hencoding, if_neg hskip]

theorem defaults_settled
    (hsame : ∀ key ≠ ascii "Sec-Fetch-Site", (t.defaults header).lookup key = header.lookup key) :
    header.get (ascii "Accept-Encoding") ≠ [] ∧
      ((header.lookup (ascii "User-Agent")).isSome ∨ t.userAgent = []) := by
  have hencoding : header.get (ascii "Accept-Encoding") ≠ [] := by
    intro hempty
    have hwritten := hsame (ascii "Accept-Encoding") (by decide)
    have hlookup : (t.defaults header).lookup (ascii "Accept-Encoding")
        = some [chromeAcceptEncoding] := by
      simp only [RoundTripper.defaults, if_pos hempty]
      split
      · rw [lookup_set _ _ _ _ (by decide), if_neg (by decide), lookup_set _ _ _ _ (by decide),
          if_pos rfl]
      · rw [lookup_set _ _ _ _ (by decide), if_pos rfl]
    rw [hlookup] at hwritten
    have hkey : canonicalHeaderKey (ascii "Accept-Encoding") = ascii "Accept-Encoding" := by decide
    rw [Header.get, hkey, ← hwritten] at hempty
    exact absurd hempty (by decide)
  refine ⟨hencoding, ?_⟩
  by_contra hagent
  rw [not_or, Option.not_isSome_iff_eq_none] at hagent
  have hwritten := hsame (ascii "User-Agent") (by decide)
  have hset : (header.lookup (ascii "User-Agent")).isNone ∧ t.userAgent ≠ [] := by
    simp [hagent.1, hagent.2]
  simp only [RoundTripper.defaults, if_neg hencoding, if_pos hset] at hwritten
  rw [lookup_set _ _ _ _ (by decide), if_pos rfl, hagent.1] at hwritten
  cases hwritten

end Contents

/-- **The first block leaves the header map alone** iff the caller owns it or
nothing is left to write. -/
theorem prepared_same_iff (t : RoundTripper) (r : CallerRequest) :
    (∃ r', t.prepared r = .ok r' ∧
        ∀ key, r'.header.map (·.lookup key) = r.header.map (·.lookup key)) ↔
      t.callerOwnsHeaders = true ∨ ∃ header, t.Settled r header := by
  unfold RoundTripper.prepared
  by_cases howns : t.callerOwnsHeaders = true
  · simp [howns]
  · rw [if_neg howns]
    constructor
    · rintro ⟨r', hprep, hsame⟩
      cases hmap : r.header with
      | none => rw [hmap] at hprep; cases hprep
      | some header =>
        rw [hmap] at hprep hsame
        obtain ⟨header', hsite, rfl⟩ := map_eq_ok.mp hprep
        have hlookup : ∀ key, header'.lookup key = header.lookup key := fun key =>
          Option.some.inj (hsame key)
        have hdefaults := defaults_settled t header fun key hkey => by
          rw [← lookup_withSecFetchSite t r _ hsite hkey, hlookup]
        rw [defaults_eq_self t header hdefaults.1 hdefaults.2] at hsite
        refine .inr ⟨header, hmap, hdefaults.1, hdefaults.2, fun values hvalues => ?_⟩
        have hpresent : (header.lookup (ascii "Sec-Fetch-Site")).isSome = true := by
          rw [hvalues]; rfl
        rw [RoundTripper.withSecFetchSite, if_pos hpresent] at hsite
        obtain ⟨site, hcomputed, heq⟩ := bind_eq_ok.mp hsite
        cases heq
        refine ⟨site, by rw [hmap]; exact hcomputed, ?_⟩
        have hnow := hlookup (ascii "Sec-Fetch-Site")
        rw [lookup_set _ _ _ _ (by decide), if_pos rfl, hvalues] at hnow
        exact (Option.some.inj hnow).symm
    · rintro (howns' | ⟨header, hmap, hencoding, hagent, hsite⟩)
      · exact absurd howns' howns
      · rw [hmap]
        simp only [defaults_eq_self t header hencoding hagent]
        rw [hmap] at hsite
        cases hvalues : header.lookup (ascii "Sec-Fetch-Site") with
        | none =>
          refine ⟨r.withHeader header, ?_, fun key => rfl⟩
          simp [RoundTripper.withSecFetchSite, hvalues, Functor.map, Except.map]
        | some values =>
          obtain ⟨site, hok, rfl⟩ := hsite values hvalues
          refine ⟨r.withHeader (header.set (ascii "Sec-Fetch-Site") site.text), ?_, fun key => ?_⟩
          · simp [RoundTripper.withSecFetchSite, hvalues, hok, Functor.map, Except.map]
          · change some ((header.set _ _).lookup key) = some (header.lookup key)
            rw [lookup_set _ _ _ _ (by decide)]
            by_cases hkey : key = ascii "Sec-Fetch-Site"
            · rw [if_pos hkey, hkey, hvalues]
            · rw [if_neg hkey]

/-- **`RoundTrip` returns with the caller's request as it was** iff the request
has a URL and either the caller owns its headers, or the header map exists, holds
an encoding and a user agent (or the profile has none) and any `Sec-Fetch-Site`
it holds is the one the transport computes. -/
theorem roundTrip_unchanged_iff (t : RoundTripper) (env : Env) (r : CallerRequest) :
    (∃ res, t.roundTrip env r = .ok res ∧ Unchanged r res.1) ↔
      r.url.isSome ∧ (t.callerOwnsHeaders = true ∨ ∃ header, t.Settled r header) := by
  rw [roundTrip_unchanged, prepared_same_iff]

/-- A profile whose request meets a network that does not answer. -/
def sampleTripper : RoundTripper :=
  ⟨⟨fun _ => none, fun _ => [], fun text => text, fun _ => none⟩, false, ascii "Chrome"⟩

def unreachable : Env := ⟨fun _ => .none, fun _ => .dialError⟩

def sampleRequest (header : Option Header) (body : NewBody) : CallerRequest where
  method := ascii "POST"
  url := some ⟨ascii "https", [], ascii "/", false, [], ascii "example.com"⟩
  host := []
  header := header
  contentLength := 1
  close := false
  body := body
  getBody := .nil
  redirects := []

/-- An empty header map comes back with two headers in it; a nil map stops the
program. -/
theorem roundTrip_writes_header :
    ((sampleTripper.roundTrip unreachable (sampleRequest (some ∅) .nil)).map fun res =>
        (res.1.header (res.1.request 0).header).map fun header =>
          (header.lookup (ascii "Accept-Encoding"), header.lookup (ascii "User-Agent")))
      = .ok (some (some [chromeAcceptEncoding], some [ascii "Chrome"])) ∧
    (sampleTripper.roundTrip unreachable (sampleRequest none .nil)).map (fun res => res.2)
      = .error .nilMapWrite := by
  decide +kernel

end HeadlessClient.Transport
