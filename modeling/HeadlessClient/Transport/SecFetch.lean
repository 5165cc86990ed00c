import HeadlessClient.Base.Runtime
import HeadlessClient.Http1.Request

/-!
# Transport — the `Sec-Fetch-Site` header

`secfetch.go`: how far a request's initiator is from its target, and the worst
of these distances over a chain of redirects.

Parsing and printing of URLs (`net/url`), lower case and the public suffix list
are LIBRARY functions, whatever they compute; the host and the port of a parsed
URL are taken apart as `net/url` does it.
-/

namespace HeadlessClient.Transport

open Base Http1

/-! ## Hosts and ports -/

/-- The text before and after the last `c`. -/
def splitLast (c : UInt8) : Bytes → Option (Bytes × Bytes)
  | [] => none
  | x :: rest =>
    match splitLast c rest with
    | some (before, after) => some (x :: before, after)
    | none => if x = c then some ([], rest) else none

def colon : UInt8 := 58

def openBracket : UInt8 := 91

def closeBracket : UInt8 := 93

/-- `validOptionalPort` for the text after a colon. -/
def validOptionalPort (port : Bytes) : Bool := port.all isDigit

/-- `splitHostPort` of `net/url`. -/
def splitHostPort (hostPort : Bytes) : Bytes × Bytes :=
  let (host, port) :=
    match splitLast colon hostPort with
    | some (host, port) => if validOptionalPort port then (host, port) else (hostPort, [])
    | none => (hostPort, [])
  if host.head? = some openBracket ∧ host.getLast? = some closeBracket then
    ((host.drop 1).dropLast, port)
  else (host, port)

end HeadlessClient.Transport

namespace HeadlessClient.Http1.URL

open Base Transport

/-- `(*url.URL).Hostname`. -/
def hostname (url : URL) : Bytes := (splitHostPort url.host).1

/-- `(*url.URL).Port`. -/
def port (url : URL) : Bytes := (splitHostPort url.host).2

end HeadlessClient.Http1.URL

namespace HeadlessClient.Transport

open Base Http1

/-- The functions of other packages; `none` is an error. -/
structure Library where
  /-- `url.Parse`. -/
  parse : Bytes → Option URL
  /-- `(*url.URL).String`. -/
  string : URL → Bytes
  /-- `strings.ToLower`. -/
  toLower : Bytes → Bytes
  /-- `publicsuffix.EffectiveTLDPlusOne`. -/
  effectiveTLDPlusOne : Bytes → Option Bytes

/-! ## One request -/

inductive Site where
  | none
  | sameOrigin
  | sameSite
  | crossSite
deriving DecidableEq, Repr

def Site.text : Site → Bytes
  | .none => ascii "none"
  | .sameOrigin => ascii "same-origin"
  | .sameSite => ascii "same-site"
  | .crossSite => ascii "cross-site"

/-- `secFetchSiteDistance`; `none` is not in the map and has the zero value. -/
def Site.distance : Site → Nat
  | .none => 0
  | .sameOrigin => 0
  | .sameSite => 1
  | .crossSite => 2

def networkSchemeDefaultPorts : List (Bytes × Bytes) :=
  [("http", "80"), ("https", "443"), ("ws", "80"), ("wss", "443"), ("ftp", "21")].map
    fun (scheme, port) => (ascii scheme, ascii port)

def hasNetworkHost (parsed : URL) : Bool := parsed.scheme != [] && parsed.hostname != []

section Library

variable (lib : Library)

def originScheme (parsed : URL) : Bytes := lib.toLower parsed.scheme

def originHost (parsed : URL) : Bytes := lib.toLower parsed.hostname

def originPort (parsed : URL) : Bytes :=
  if parsed.port ≠ [] then parsed.port
  else (networkSchemeDefaultPorts.lookup (originScheme lib parsed)).getD []

def sameOrigin (initiator target : URL) : Bool :=
  originScheme lib initiator == originScheme lib target &&
    originHost lib initiator == originHost lib target &&
    originPort lib initiator == originPort lib target

def sameSite (initiator target : URL) : Bool :=
  if originScheme lib initiator ≠ originScheme lib target then false
  else if originHost lib initiator = originHost lib target then true
  else if (networkSchemeDefaultPorts.lookup (originScheme lib initiator)).isNone then false
  else
    match lib.effectiveTLDPlusOne (originHost lib target),
        lib.effectiveTLDPlusOne (originHost lib initiator) with
    | some targetSite, some initiatorSite =>
      targetSite != [] && initiatorSite != [] && initiatorSite == targetSite
    | _, _ => false

def secFetchSite (initiator target : Bytes) : Site :=
  if initiator = [] then .none
  else
    match lib.parse initiator, lib.parse target with
    | some initiatorURL, some targetURL =>
      if !hasNetworkHost initiatorURL || !hasNetworkHost targetURL then .crossSite
      else if sameOrigin lib initiatorURL targetURL then .sameOrigin
      else if sameSite lib initiatorURL targetURL then .sameSite
      else .crossSite
    | _, _ => .crossSite

/-! ## A chain of redirects -/

/-- What `secFetchSiteForRequest` reads of a request; `none` is nil. -/
structure Hop where
  url : Option URL
  header : Option Header

/-- `header.Get`, which reads a nil map as an empty one. -/
def Hop.get (hop : Hop) (key : Bytes) : Bytes := Header.get (hop.header.getD ∅) key

def requestInitiator (request : Hop) : Bytes :=
  let origin := request.get (ascii "Origin")
  if origin ≠ [] then origin
  else
    match lib.parse (request.get (ascii "Referer")) with
    | some referer =>
      if hasNetworkHost referer then referer.scheme ++ ascii "://" ++ referer.host else []
    | none => []

/-- One round of the loop over the chain. -/
def worseSite (initiator : Bytes) (worstSite : Site) (hop : Hop) : Except RuntimeError Site :=
  match hop.url with
  | none => .error .nilDereference
  | some url =>
    let site := secFetchSite lib initiator (lib.string url)
    .ok (if site.distance > worstSite.distance then site else worstSite)

/-- `secFetchSiteForRequest`; `redirects` are the requests that led here, the
latest first. -/
def secFetchSiteForRequest (request : Hop) (redirects : List Hop) : Except RuntimeError Site :=
  if request.url.isNone then .ok .crossSite
  else
    let redirectChain := request :: redirects
    let initiator := requestInitiator lib (redirectChain.getLastD request)
    if initiator = [] then .ok .none
    else redirectChain.foldlM (worseSite lib initiator) .sameOrigin

end Library

/-- The field `Response` of a request, "the redirect response which caused this
request to be created": nil, a response without a request, or a response with the
request it answers and that request's own `Response`. -/
inductive RedirectResponse where
  | nil
  | withoutRequest
  | answering (request : Hop) (response : RedirectResponse)

/-- The loop that walks from response to request to response. -/
def RedirectResponse.requests : RedirectResponse → List Hop
  | .nil => []
  | .withoutRequest => []
  | .answering request response => request :: response.requests

/-- The request the chain of `request` started with. -/
def RedirectResponse.firstRequest : RedirectResponse → Hop → Hop
  | .nil, request => request
  | .withoutRequest, request => request
  | .answering earlier response, _ => response.firstRequest earlier

theorem RedirectResponse.getLastD_requests (response : RedirectResponse) (request : Hop) :
    (request :: response.requests).getLastD request = response.firstRequest request := by
  induction response generalizing request with
  | nil => rfl
  | withoutRequest => rfl
  | answering earlier response ih =>
    rw [firstRequest, ← ih, requests, List.getLastD_cons, List.getLastD_cons, List.getLastD_cons]

/-! ## What a chain of redirects decides

The headline is `secFetchSiteForRequest_farthest`: the initiator is that of the
FIRST request, no later hop can replace it, and the value is the farthest of its
relations to the hops. -/

/-- `site` is one of `sites`, and none of them is farther. -/
structure Farthest (sites : List Site) (site : Site) : Prop where
  mem : site ∈ sites
  farthest : ∀ s ∈ sites, s.distance ≤ site.distance

section Chain

variable (lib : Library)

theorem secFetchSite_ne_none {initiator : Bytes} (h : initiator ≠ []) (target : Bytes) :
    secFetchSite lib initiator target ≠ .none := by
  rw [secFetchSite, if_neg h]
  split
  · split_ifs <;> simp
  · simp

def relations (initiator : Bytes) (urls : List URL) : List Site :=
  urls.map fun url => secFetchSite lib initiator (lib.string url)

theorem none_notMem_relations {initiator : Bytes} (h : initiator ≠ []) (urls : List URL) :
    Site.none ∉ relations lib initiator urls := by
  intro hmem
  obtain ⟨url, -, hurl⟩ := List.mem_map.mp hmem
  exact secFetchSite_ne_none lib h _ hurl

variable {urls : List URL}

/-- The loop over the chain keeps the farther of what it holds and the hop's
relation. -/
theorem foldlM_worseSite (initiator : Bytes) {hops : List Hop}
    (hurls : hops.map Hop.url = urls.map some) (worst : Site) :
    ∃ site, hops.foldlM (worseSite lib initiator) worst = .ok site ∧
      Farthest (worst :: relations lib initiator urls) site := by
  induction hops generalizing urls worst with
  | nil =>
    have hnil : urls = [] := by simpa using hurls.symm
    subst hnil
    exact ⟨worst, rfl, by simp [relations], by simp [relations]⟩
  | cons hop hops ih =>
    cases urls with
    | nil => simp at hurls
    | cons url urls =>
      simp only [List.map_cons, List.cons.injEq] at hurls
      obtain ⟨hurl, hrest⟩ := hurls
      -- the round of `hop`, then the rest of the loop from what it left
      obtain ⟨site, hrun, hfar⟩ := ih hrest
        (if (secFetchSite lib initiator (lib.string url)).distance > worst.distance then
          secFetchSite lib initiator (lib.string url) else worst)
      refine ⟨site, ?_, ?_, ?_⟩
      · rw [List.foldlM_cons, worseSite, hurl]
        exact hrun
      · have hmem := hfar.mem
        simp only [relations, List.map_cons, List.mem_cons] at hmem ⊢
        split at hmem <;> tauto
      · have hmax := hfar.farthest _ List.mem_cons_self
        intro s hs
        simp only [relations, List.map_cons, List.mem_cons] at hs
        rcases hs with rfl | rfl | hs
        · split at hmax <;> omega
        · split at hmax <;> omega
        · exact hfar.farthest s (List.mem_cons_of_mem _ hs)

theorem Farthest.mono {sites sites' : List Site} {site site' : Site} (h : Farthest sites site)
    (h' : Farthest sites' site') (hsub : sites ⊆ sites') : site.distance ≤ site'.distance :=
  h'.farthest _ (hsub h.mem)

/-- What starts at `same-origin`, which is closest, is decided by the relations
alone. -/
theorem Farthest.of_sameOrigin {sites : List Site} {site : Site} (hne : sites ≠ [])
    (hnone : Site.none ∉ sites) (h : Farthest (.sameOrigin :: sites) site) :
    Farthest sites site := by
  refine ⟨?_, fun s hs => h.farthest s (List.mem_cons_of_mem _ hs)⟩
  rcases List.mem_cons.mp h.mem with rfl | hmem
  · obtain ⟨s, hs⟩ := List.exists_mem_of_ne_nil sites hne
    have hle := h.farthest s (List.mem_cons_of_mem _ hs)
    cases s with
    | none => exact absurd hs hnone
    | sameOrigin => exact hs
    | sameSite => simp [Site.distance] at hle
    | crossSite => simp [Site.distance] at hle
  · exact hmem

/-- `secFetchSiteForRequest` on a chain whose requests have URLs. -/
theorem secFetchSiteForRequest_eq {request : Hop} {redirects : List Hop}
    (hurls : (request :: redirects).map Hop.url = urls.map some) :
    ∃ site, secFetchSiteForRequest lib request redirects = .ok site ∧
      if requestInitiator lib ((request :: redirects).getLastD request) = [] then site = .none
      else Farthest (relations lib
        (requestInitiator lib ((request :: redirects).getLastD request)) urls) site := by
  cases urls with
  | nil => simp at hurls
  | cons url urls =>
    have hurl : request.url = some url := by
      simp only [List.map_cons, List.cons.injEq] at hurls
      exact hurls.1
    rw [secFetchSiteForRequest, hurl]
    simp only [Option.isNone_some, Bool.false_eq_true, if_false]
    by_cases hinit : requestInitiator lib ((request :: redirects).getLastD request) = []
    · rw [if_pos hinit]
      exact ⟨.none, rfl, if_pos hinit ▸ rfl⟩
    · rw [if_neg hinit]
      obtain ⟨site, hrun, hfar⟩ := foldlM_worseSite lib _ hurls .sameOrigin
      refine ⟨site, hrun, ?_⟩
      rw [if_neg hinit]
      exact hfar.of_sameOrigin (by simp [relations]) (none_notMem_relations lib hinit _)

/-- `secFetchSiteForRequest` by the first request of the chain. -/
theorem secFetchSiteForRequest_chain {request : Hop} {response : RedirectResponse}
    (hurls : (request :: response.requests).map Hop.url = urls.map some) :
    ∃ site, secFetchSiteForRequest lib request response.requests = .ok site ∧
      (site = .none ↔ requestInitiator lib (response.firstRequest request) = []) ∧
      (requestInitiator lib (response.firstRequest request) ≠ [] → Farthest
        (relations lib (requestInitiator lib (response.firstRequest request)) urls) site) := by
  obtain ⟨site, hrun, hsite⟩ := secFetchSiteForRequest_eq lib hurls
  rw [response.getLastD_requests] at hsite
  refine ⟨site, hrun, ?_⟩
  split_ifs at hsite with hinit
  · exact ⟨⟨fun _ => hinit, fun _ => hsite⟩, fun h => absurd hinit h⟩
  · refine ⟨⟨fun hnone => ?_, fun h => absurd h hinit⟩, fun _ => hsite⟩
    rw [hnone] at hsite
    exact absurd hsite.mem (none_notMem_relations lib hinit urls)

/-- **The value is decided by the first initiator and the farthest hop.** Over a
chain of requests with URLs it is `none` iff the first request has no initiator,
and otherwise the farthest of the initiator's relations to the hops; one more
redirect keeps `none` and never moves any other value closer, whatever the new
request's own headers say. -/
theorem secFetchSiteForRequest_farthest (request : Hop) (response : RedirectResponse)
    (urls : List URL) (hurls : (request :: response.requests).map Hop.url = urls.map some) :
    ∃ site, secFetchSiteForRequest lib request response.requests = .ok site ∧
      (site = .none ↔ requestInitiator lib (response.firstRequest request) = []) ∧
      (requestInitiator lib (response.firstRequest request) ≠ [] → Farthest
        (relations lib (requestInitiator lib (response.firstRequest request)) urls) site) ∧
      ∀ (next : Hop) (url : URL), next.url = some url →
        ∃ site', secFetchSiteForRequest lib next
            (RedirectResponse.answering request response).requests = .ok site' ∧
          (site' = .none ↔ site = .none) ∧ site.distance ≤ site'.distance := by
  obtain ⟨site, hrun, hnone, hfar⟩ := secFetchSiteForRequest_chain lib hurls
  refine ⟨site, hrun, hnone, hfar, ?_⟩
  intro next url hurl
  have hurls' : (next :: (RedirectResponse.answering request response).requests).map Hop.url
      = (url :: urls).map some := by
    rw [RedirectResponse.requests, List.map_cons, List.map_cons, hurl]
    exact congrArg _ hurls
  obtain ⟨site', hrun', hnone', hfar'⟩ := secFetchSiteForRequest_chain lib hurls'
  -- the chain still starts with the same request
  rw [RedirectResponse.firstRequest] at hnone' hfar'
  refine ⟨site', hrun', hnone'.trans hnone.symm, ?_⟩
  by_cases hinit : requestInitiator lib (response.firstRequest request) = []
  · rw [hnone.mpr hinit, hnone'.mpr hinit]
  · exact (hfar hinit).mono (hfar' hinit) (List.subset_cons_self _ _)

end Chain

/-- The library on `https` URLs in lower case whose hosts are under `example.com`. -/
def exampleLibrary : Library where
  parse text :=
    if (ascii "https://").isPrefixOf text then
      let (host, path) := (text.drop 8).span (· ≠ 47)
      some ⟨ascii "https", [], path, false, [], host⟩
    else some ⟨[], [], text, false, [], []⟩
  string url := url.scheme ++ ascii "://" ++ url.host ++ url.escapedPath
  toLower text := text
  effectiveTLDPlusOne host :=
    if (ascii "example.com").isSuffixOf host then some (ascii "example.com") else none

def exampleURL (host : String) : URL := ⟨ascii "https", [], ascii "/", false, [], ascii host⟩

/-- A request of a page of `example.com` to its own origin. -/
def exampleHop : Hop :=
  ⟨some (exampleURL "example.com"),
    some ((∅ : Header).insert (ascii "Origin") [ascii "https://example.com"])⟩

theorem secFetchSiteForRequest_farthest_subdomain :
    ∃ site, secFetchSiteForRequest exampleLibrary ⟨some (exampleURL "api.example.com"), none⟩
        [exampleHop] = .ok site ∧
      Farthest [.sameSite, .sameOrigin] site := by
  obtain ⟨site, hrun, -, hfar, -⟩ := secFetchSiteForRequest_farthest exampleLibrary
    ⟨some (exampleURL "api.example.com"), none⟩ (.answering exampleHop .nil)
    [exampleURL "api.example.com", exampleURL "example.com"] rfl
  have hsites : relations exampleLibrary (requestInitiator exampleLibrary exampleHop)
      [exampleURL "api.example.com", exampleURL "example.com"] = [.sameSite, .sameOrigin] := by
    decide +kernel
  exact ⟨site, hrun, hsites ▸ hfar (by decide +kernel)⟩

end HeadlessClient.Transport
