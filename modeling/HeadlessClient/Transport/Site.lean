import HeadlessClient.Transport.SecFetch
import HeadlessClient.Wire.LetterCase

/-!
# Transport — origins and sites

What `SecFetchSite` decides, as relations between URLs. Two URLs are of one ORIGIN
if they have the same scheme, host and port; they are of one SITE if they have the
same scheme, and the same host or the same registrable domain. The registrable
domain is a PARTIAL function, and hosts without one are of a site of their own.

Both relations are pulled back from a relation that is plainly an equivalence:
equality of origins (`sameOrigin_iff`), and `SameKey` (`sameSite_iff`), which holds
of any partial function whatsoever.
-/

namespace HeadlessClient.Transport

open Base Http1 Wire List

/-! ## Values with a key -/

section Key

variable {α κ : Type}

/-- One value, or two with one key. -/
def SameKey (key : α → Option κ) (a b : α) : Prop :=
  a = b ∨ ∃ k, key a = some k ∧ key b = some k

/-- **A value without a key is alone in its class**, so nothing can join two
classes. -/
theorem sameKey_equivalence (key : α → Option κ) : Equivalence (SameKey key) where
  refl _ := .inl rfl
  symm h := by
    rcases h with rfl | ⟨k, ha, hb⟩
    · exact .inl rfl
    · exact .inr ⟨k, hb, ha⟩
  trans h h' := by
    rcases h with rfl | ⟨k, ha, hb⟩
    · exact h'
    · rcases h' with rfl | ⟨k', hb', hc⟩
      · exact .inr ⟨k, ha, hb⟩
      · rw [hb] at hb'
        cases hb'
        exact .inr ⟨k, ha, hc⟩

end Key

/-! ## The two relations -/

section Library

variable (lib : Library)

/-- What `sameOrigin` compares. -/
def origin (parsed : URL) : Bytes × Bytes × Bytes :=
  (originScheme lib parsed, originHost lib parsed, originPort lib parsed)

variable {initiator target : URL}

theorem sameOrigin_iff :
    sameOrigin lib initiator target = true ↔ origin lib initiator = origin lib target := by
  simp [sameOrigin, origin, and_assoc]

def standard (scheme : Bytes) : Bool := (networkSchemeDefaultPorts.lookup scheme).isSome

/-- The registrable domain of a host, if the code asks for it and there is one. -/
def registrableDomain (place : Bytes × Bytes) : Option (Bytes × Bytes) :=
  if standard place.1 then
    match lib.effectiveTLDPlusOne place.2 with
    | some site => if site = [] then none else some (place.1, site)
    | none => none
  else none

theorem registrableDomain_eq_some {place : Bytes × Bytes} {site : Bytes × Bytes} :
    registrableDomain lib place = some site ↔
      standard place.1 = true ∧ site.1 = place.1 ∧ site.2 ≠ [] ∧
        lib.effectiveTLDPlusOne place.2 = some site.2 := by
  obtain ⟨scheme, domain⟩ := site
  rw [registrableDomain]
  split_ifs with hstandard
  · cases hdomain : lib.effectiveTLDPlusOne place.2 with
    | none => simp
    | some found =>
      by_cases hempty : found = []
      · simp only [hempty]
        constructor
        · intro h
          cases h
        · rintro ⟨-, -, hne, hfound⟩
          cases hfound
          exact absurd rfl hne
      · simp only [if_neg hempty, Option.some.injEq, Prod.mk.injEq]
        constructor
        · rintro ⟨rfl, rfl⟩
          exact ⟨hstandard, rfl, hempty, rfl⟩
        · rintro ⟨-, rfl, -, rfl⟩
          exact ⟨rfl, rfl⟩
  · simp [hstandard]

def place (parsed : URL) : Bytes × Bytes := (originScheme lib parsed, originHost lib parsed)

theorem sameSite_iff :
    sameSite lib initiator target = true ↔
      SameKey (registrableDomain lib) (place lib initiator) (place lib target) := by
  rw [sameSite]
  by_cases hscheme : originScheme lib initiator = originScheme lib target
  · rw [if_neg (not_not.mpr hscheme)]
    by_cases hhost : originHost lib initiator = originHost lib target
    · rw [if_pos hhost]
      exact ⟨fun _ => .inl (by rw [place, place, hscheme, hhost]), fun _ => rfl⟩
    · rw [if_neg hhost]
      have hne : place lib initiator ≠ place lib target := fun h => hhost (Prod.mk.inj h).2
      rw [SameKey, or_iff_right hne]
      simp only [registrableDomain_eq_some, place, ← hscheme]
      have hnone : (networkSchemeDefaultPorts.lookup (originScheme lib initiator)).isNone
          = !standard (originScheme lib initiator) := (Option.not_isSome _).symm
      rw [hnone]
      by_cases hstandard : standard (originScheme lib initiator) = true
      · rw [if_neg (by simp [hstandard])]
        constructor
        · intro h
          split at h
          · next targetSite initiatorSite htarget hinitiator =>
              simp only [Bool.and_eq_true, bne_iff_ne, beq_iff_eq] at h
              obtain ⟨⟨-, hne⟩, rfl⟩ := h
              exact ⟨(originScheme lib initiator, initiatorSite),
                ⟨hstandard, rfl, hne, hinitiator⟩, hstandard, rfl, hne, htarget⟩
          · cases h
        · rintro ⟨⟨_, site⟩, ⟨-, -, hne, hinitiator⟩, -, -, -, htarget⟩
          rw [htarget, hinitiator]
          simpa using hne
      · rw [if_pos (by simp [hstandard])]
        simp [hstandard]
  · rw [if_pos hscheme]
    constructor
    · intro h
      cases h
    · rintro (h | ⟨site, hinitiator, htarget⟩)
      · exact absurd (Prod.mk.inj h).1 hscheme
      · have h := ((registrableDomain_eq_some lib).mp hinitiator).2.1
        have h' := ((registrableDomain_eq_some lib).mp htarget).2.1
        exact absurd (h.symm.trans h') hscheme

/-- **What is of one origin is of one site.** -/
theorem sameSite_of_sameOrigin (h : sameOrigin lib initiator target = true) :
    sameSite lib initiator target = true := by
  have horigin := (sameOrigin_iff lib).mp h
  have hscheme : originScheme lib initiator = originScheme lib target := (Prod.mk.inj horigin).1
  have hhost : originHost lib initiator = originHost lib target :=
    (Prod.mk.inj (Prod.mk.inj horigin).2).1
  exact (sameSite_iff lib).mpr (.inl (by rw [place, place, hscheme, hhost]))

/-- A text that is a URL with a scheme and a host. -/
structure NetworkURL where
  text : Bytes
  url : URL
  text_ne_nil : text ≠ []
  parsed : lib.parse text = some url
  network : hasNetworkHost url = true

variable {lib}

/-- `SecFetchSite` between such texts: one of three values. -/
theorem secFetchSite_network (a b : NetworkURL lib) :
    secFetchSite lib a.text b.text =
      if sameOrigin lib a.url b.url then .sameOrigin
      else if sameSite lib a.url b.url then .sameSite
      else .crossSite := by
  rw [secFetchSite, if_neg a.text_ne_nil, a.parsed, b.parsed]
  simp [a.network, b.network]

/-- `same-origin`. -/
def OneOrigin (a b : NetworkURL lib) : Prop := secFetchSite lib a.text b.text = .sameOrigin

/-- `same-origin` or `same-site`. -/
def OneSite (a b : NetworkURL lib) : Prop :=
  secFetchSite lib a.text b.text = .sameOrigin ∨ secFetchSite lib a.text b.text = .sameSite

theorem oneOrigin_iff {a b : NetworkURL lib} :
    OneOrigin a b ↔ origin lib a.url = origin lib b.url := by
  rw [OneOrigin, secFetchSite_network, ← sameOrigin_iff]
  by_cases horigin : sameOrigin lib a.url b.url = true
  · simp [horigin]
  · rw [if_neg horigin]
    by_cases hsite : sameSite lib a.url b.url = true
    · simp [hsite, horigin]
    · simp [hsite, horigin]

theorem oneSite_iff {a b : NetworkURL lib} :
    OneSite a b ↔ SameKey (registrableDomain lib) (place lib a.url) (place lib b.url) := by
  rw [OneSite, secFetchSite_network, ← sameSite_iff]
  by_cases horigin : sameOrigin lib a.url b.url = true
  · simp [horigin, sameSite_of_sameOrigin lib horigin]
  · rw [if_neg horigin]
    by_cases hsite : sameSite lib a.url b.url = true
    · simp [hsite]
    · simp [hsite]

theorem oneOrigin_equivalence : Equivalence (@OneOrigin lib) where
  refl _ := oneOrigin_iff.mpr rfl
  symm h := oneOrigin_iff.mpr (oneOrigin_iff.mp h).symm
  trans h h' := oneOrigin_iff.mpr ((oneOrigin_iff.mp h).trans (oneOrigin_iff.mp h'))

theorem oneSite_equivalence : Equivalence (@OneSite lib) where
  refl _ := oneSite_iff.mpr ((sameKey_equivalence _).refl _)
  symm h := oneSite_iff.mpr ((sameKey_equivalence _).symm (oneSite_iff.mp h))
  trans h h' :=
    oneSite_iff.mpr ((sameKey_equivalence _).trans (oneSite_iff.mp h) (oneSite_iff.mp h'))

end Library

/-! ## Spelling

The host of a URL is a name without a colon or an address in brackets, and a port
may follow it. -/

variable {c : UInt8} {text host : Bytes}

theorem splitLast_eq_none (h : c ∉ text) : splitLast c text = none := by
  induction text with
  | nil => rfl
  | cons x rest ih =>
    obtain ⟨hx, hrest⟩ := not_or.mp (mt mem_cons.mpr h)
    rw [splitLast, ih hrest]
    exact if_neg (Ne.symm hx)

theorem splitLast_append (before : Bytes) {after : Bytes} (h : c ∉ after) :
    splitLast c (before ++ c :: after) = some (before, after) := by
  induction before with
  | nil =>
    rw [nil_append, splitLast, splitLast_eq_none h]
    exact if_pos rfl
  | cons x before ih => rw [cons_append, splitLast, ih]

theorem exists_splitLast (h : c ∈ text) : ∃ found, splitLast c text = some found := by
  induction text with
  | nil => cases h
  | cons x rest ih =>
    rw [splitLast]
    cases hrest : splitLast c rest with
    | some found => exact ⟨_, rfl⟩
    | none =>
      rcases mem_cons.mp h with rfl | hmem
      · exact ⟨_, if_pos rfl⟩
      · obtain ⟨found, hfound⟩ := ih hmem
        rw [hrest] at hfound
        cases hfound

theorem eq_of_splitLast {before after : Bytes} (h : splitLast c text = some (before, after)) :
    text = before ++ c :: after ∧ c ∉ after := by
  induction text generalizing before with
  | nil => cases h
  | cons x rest ih =>
    rw [splitLast] at h
    cases hrest : splitLast c rest with
    | some found =>
      obtain ⟨b, a⟩ := found
      rw [hrest] at h
      cases h
      obtain ⟨htext, hnot⟩ := ih hrest
      exact ⟨by rw [htext]; rfl, hnot⟩
    | none =>
      rw [hrest] at h
      dsimp only at h
      split at h
      · next hx =>
          cases h
          refine ⟨by rw [hx]; rfl, ?_⟩
          intro hmem
          obtain ⟨found, hfound⟩ := exists_splitLast hmem
          rw [hrest] at hfound
          cases hfound
      · cases h

/-- The host subcomponent of a URL. -/
def IsHost (host : Bytes) : Prop :=
  colon ∉ host ∨ ∃ address, host = openBracket :: (address ++ [closeBracket])

def withPort (host : Bytes) : Option Bytes → Bytes
  | none => host
  | some port => host ++ colon :: port

def unbracketed (host : Bytes) : Bytes :=
  if host.head? = some openBracket ∧ host.getLast? = some closeBracket then
    (host.drop 1).dropLast
  else host

theorem colon_notMem_port {port : Bytes} (h : validOptionalPort port = true) : colon ∉ port := by
  intro hmem
  have hdigit := all_eq_true.mp h colon hmem
  exact absurd hdigit (by decide)

theorem splitLast_host (h : IsHost host) :
    splitLast colon host = none ∨ ∃ before after, splitLast colon host = some (before, after) ∧
      validOptionalPort after = false := by
  rcases h with hcolon | ⟨address, rfl⟩
  · exact .inl (splitLast_eq_none hcolon)
  · cases hsplit : splitLast colon (openBracket :: (address ++ [closeBracket])) with
    | none => exact .inl rfl
    | some found =>
      obtain ⟨before, after⟩ := found
      refine .inr ⟨before, after, rfl, ?_⟩
      obtain ⟨htext, -⟩ := eq_of_splitLast hsplit
      -- what follows the colon ends with the bracket
      have hlast := congrArg List.getLast? htext
      rw [← cons_append, getLast?_concat] at hlast
      cases after with
      | nil =>
        simp [colon, closeBracket] at hlast
      | cons c after =>
        rw [getLast?_append, getLast?_cons_cons] at hlast
        have hmem : closeBracket ∈ c :: after := by
          cases hl : (c :: after).getLast? with
          | none => simp at hl
          | some d =>
            rw [hl] at hlast
            cases hlast
            exact mem_of_getLast? hl
        apply Bool.eq_false_iff.mpr
        intro hvalid
        exact absurd (all_eq_true.mp hvalid _ hmem) (by decide)

theorem splitHostPort_without {hostPort : Bytes}
    (h : splitLast colon hostPort = none ∨ ∃ before after,
      splitLast colon hostPort = some (before, after) ∧ validOptionalPort after = false) :
    splitHostPort hostPort = (unbracketed hostPort, []) := by
  rw [splitHostPort, unbracketed]
  rcases h with hnone | ⟨before, after, hsome, hinvalid⟩
  · rw [hnone]
    dsimp only
    split <;> rfl
  · rw [hsome]
    dsimp only
    rw [hinvalid, if_neg Bool.false_ne_true]
    split <;> rfl

theorem splitHostPort_with {port : Bytes} (h : validOptionalPort port = true) :
    splitHostPort (host ++ colon :: port) = (unbracketed host, port) := by
  rw [splitHostPort, unbracketed, splitLast_append host (colon_notMem_port h)]
  dsimp only
  rw [if_pos h]
  split <;> rfl

/-- **The host and the port are found again**, whether the port is written or not. -/
theorem splitHostPort_withPort {port : Option Bytes} (hhost : IsHost host)
    (hport : validOptionalPort (port.getD []) = true) :
    splitHostPort (withPort host port) = (unbracketed host, port.getD []) := by
  cases port with
  | none => exact splitHostPort_without (splitLast_host hhost)
  | some port => exact splitHostPort_with hport

theorem unbracketed_recased {host' : Bytes} (h : Recased host host') :
    Recased (unbracketed host) (unbracketed host') := by
  have hhead := h.head? (d := openBracket) (by decide)
  have hlast := h.getLast? (d := closeBracket) (by decide)
  simp only [unbracketed, hhead, hlast]
  split
  · exact (h.drop 1).dropLast
  · exact h

/-- The port is left out, or it is the default port of the scheme. -/
def DefaultPort (scheme : Bytes) (port : Option Bytes) : Prop :=
  port.getD [] = [] ∨ networkSchemeDefaultPorts.lookup scheme = some (port.getD [])

/-- Two URLs that differ in the letter case of the scheme and of the host, and in
whether the default port is written. -/
structure Respelled (lib : Library) (u v : URL) : Prop where
  scheme : Recased u.scheme v.scheme
  host : ∃ host host' port port', IsHost host ∧ IsHost host' ∧ Recased host host' ∧
    validOptionalPort (port.getD []) = true ∧ validOptionalPort (port'.getD []) = true ∧
    u.host = withPort host port ∧ v.host = withPort host' port' ∧
    (port = port' ∨
      DefaultPort (originScheme lib u) port ∧ DefaultPort (originScheme lib u) port')

/-- `strings.ToLower` does not tell apart texts that differ in case. -/
def CaseBlind (lib : Library) : Prop :=
  ∀ text text', Recased text text' → lib.toLower text = lib.toLower text'

/-- **Spelling does not change the origin.** -/
theorem origin_respelled {lib : Library} (hlib : CaseBlind lib) {u v : URL}
    (h : Respelled lib u v) : origin lib u = origin lib v := by
  obtain ⟨host, host', port, port', hhost, hhost', hrecased, hport, hport', hu, hv, hports⟩ :=
    h.host
  have hscheme : originScheme lib u = originScheme lib v := hlib _ _ h.scheme
  have hsplit := splitHostPort_withPort hhost hport
  have hsplit' := splitHostPort_withPort hhost' hport'
  have hname : originHost lib u = originHost lib v := by
    apply hlib
    rw [URL.hostname, URL.hostname, hu, hv, hsplit, hsplit']
    exact unbracketed_recased hrecased
  have hsame : originPort lib u = originPort lib v := by
    have hportu : u.port = port.getD [] := by
      rw [URL.port, hu, hsplit]
    have hportv : v.port = port'.getD [] := by
      rw [URL.port, hv, hsplit']
    rw [originPort, originPort, hportu, hportv, ← hscheme]
    rcases hports with rfl | ⟨hdefault, hdefault'⟩
    · rfl
    · -- either text stands for the default port
      have hresolve : ∀ p : Option Bytes, DefaultPort (originScheme lib u) p →
          (if p.getD [] ≠ [] then p.getD []
            else (networkSchemeDefaultPorts.lookup (originScheme lib u)).getD [])
          = (networkSchemeDefaultPorts.lookup (originScheme lib u)).getD [] := by
        intro p hp
        rcases hp with hempty | hwritten
        · rw [if_neg (not_not.mpr hempty)]
        · rw [hwritten]
          split <;> rfl
      rw [hresolve port hdefault, hresolve port' hdefault']
  rw [origin, origin, hscheme, hname, hsame]

/-- **Origin and site are equivalence relations.** For every partial function in the
place of the registrable domain, on URLs with a scheme and a host; the site is the
coarser of the two; and no spelling of either URL matters. -/
theorem secFetchSite_equivalences (lib : Library) (hlib : CaseBlind lib) :
    Equivalence (@OneOrigin lib) ∧ Equivalence (@OneSite lib) ∧
    (∀ a b : NetworkURL lib,
      sameOrigin lib a.url b.url = true → sameSite lib a.url b.url = true) ∧
    (∀ a b : NetworkURL lib, OneOrigin a b → OneSite a b) ∧
    ∀ a a' b b' : NetworkURL lib, Respelled lib a.url a'.url → Respelled lib b.url b'.url →
      (OneOrigin a b ↔ OneOrigin a' b') ∧ (OneSite a b ↔ OneSite a' b') := by
  refine ⟨oneOrigin_equivalence, oneSite_equivalence, ?_, ?_, ?_⟩
  · intro a b h
    exact sameSite_of_sameOrigin lib h
  · intro a b h
    exact .inl h
  · intro a a' b b' ha hb
    have horigin := origin_respelled hlib ha
    have horigin' := origin_respelled hlib hb
    have hplace : place lib a.url = place lib a'.url := by
      simp only [origin, Prod.mk.injEq] at horigin
      rw [place, place, horigin.1, horigin.2.1]
    have hplace' : place lib b.url = place lib b'.url := by
      simp only [origin, Prod.mk.injEq] at horigin'
      rw [place, place, horigin'.1, horigin'.2.1]
    constructor
    · rw [oneOrigin_iff, oneOrigin_iff, horigin, horigin']
    · rw [oneSite_iff, oneSite_iff, hplace, hplace']

/-- `exampleLibrary` with the lower case of ASCII texts. -/
def foldingLibrary : Library := { exampleLibrary with toLower := lower }

theorem caseBlind_foldingLibrary : CaseBlind foldingLibrary := fun _ _ h => h

/-- `https://` and a host. -/
def httpsURL (host : String) : URL := ⟨ascii "https", [], [], false, [], ascii host⟩

def loudURL : NetworkURL foldingLibrary where
  text := ascii "https://WWW.Example.com:443"
  url := httpsURL "WWW.Example.com:443"
  text_ne_nil := by decide
  parsed := by decide +kernel
  network := by decide +kernel

def plainURL : NetworkURL foldingLibrary where
  text := ascii "https://www.example.com"
  url := httpsURL "www.example.com"
  text_ne_nil := by decide
  parsed := by decide +kernel
  network := by decide +kernel

def apiURL : NetworkURL foldingLibrary where
  text := ascii "https://api.example.com"
  url := httpsURL "api.example.com"
  text_ne_nil := by decide
  parsed := by decide +kernel
  network := by decide +kernel

/-- `WWW.Example.com:443` for `www.example.com`: one spelling is as good as another. -/
theorem secFetchSite_equivalences_spelling :
    Equivalence (@OneSite foldingLibrary) ∧ (OneSite loudURL apiURL ↔ OneSite plainURL apiURL) := by
  obtain ⟨-, hsite, -, -, hspelling⟩ :=
    secFetchSite_equivalences foldingLibrary caseBlind_foldingLibrary
  have hloud : Respelled foldingLibrary loudURL.url plainURL.url := by
    refine ⟨rfl, ascii "WWW.Example.com", ascii "www.example.com", some (ascii "443"), none,
      .inl (by decide), .inl (by decide), by decide, by decide, by decide, rfl, rfl, .inr ⟨?_, ?_⟩⟩
    · exact .inr (by decide +kernel)
    · exact .inl rfl
  have hapi : Respelled foldingLibrary apiURL.url apiURL.url :=
    ⟨rfl, ascii "api.example.com", ascii "api.example.com", none, none, .inl (by decide),
      .inl (by decide), rfl, rfl, rfl, rfl, rfl, .inl rfl⟩
  exact ⟨hsite, (hspelling loudURL plainURL apiURL apiURL hloud hapi).2⟩

end HeadlessClient.Transport
