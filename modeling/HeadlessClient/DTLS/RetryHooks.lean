import HeadlessClient.DTLS.Hooks
import HeadlessClient.DTLS.Retry

/-!
# DTLS — a retry through the Chrome hooks

The client rebuilds its hello from the snapshot of the one it SENT and then runs
the hook again. The hook was made for a fresh hello: on one that it has already
disguised it shuffles the shuffled list once more, adds a second pair of GREASE
extensions, and mimicry drops the share that the server asked for unless Chrome
would have sent it. The check compares extension by extension, in order.

So `flight3Generate` succeeds exactly when the hook SPARES the rebuilt hello
(`flight3Generate_succeeds_iff`): no GREASE, no share lost, and a shuffle that
keeps the compared extensions in order.
-/

namespace HeadlessClient.DTLS

open Base Wire List

/-! ## The rebuilt hello -/

/-- The hello that `buildClientHelloRetry` makes of an accepted one. -/
def MessageClientHello.retried (m : MessageClientHello) (request : RetryRequest)
    (publicKey : UInt16 → Bytes) : MessageClientHello :=
  { m with
    extensions := buildRetryExtensions m.extensions request (request.freshShare publicKey) }

section Rebuild

variable {m : MessageClientHello} {request : RetryRequest} {publicKey : UInt16 → Bytes}

theorem RetryRequest.freshShare_eq (h : request.hasSelectedGroup) :
    request.freshShare publicKey =
      some ⟨request.selectedGroup, publicKey request.selectedGroup⟩ := by
  rw [RetryRequest.freshShare, if_pos h]

theorem buildClientHelloRetry_snapshot (hm : m.Canonical) (hacc : m.Accepted)
    (hvalid : request.valid) (hkey : ∀ group, publicKey group ≠ []) :
    buildClientHelloRetry m.snapshot request (request.freshShare publicKey) =
      .ok (m.retried request publicKey) := by
  have hfits : ¬(request.hasSelectedGroup ∧
      ¬freshShareFits request (request.freshShare publicKey)) := by
    rintro ⟨hsel, hno⟩
    rw [RetryRequest.freshShare_eq hsel] at hno
    simp [freshShareFits, hkey] at hno
  rw [buildClientHelloRetry, if_neg (not_not.mpr hvalid), if_neg hfits,
    clientHelloFromSnapshot_snapshot hm hacc]
  rfl

theorem acceptable_retried (hacc : m.Accepted) (hp : request.Permitted m) :
    Acceptable (m.retried request publicKey).extensions := by
  refine acceptable_buildRetryExtensions hacc.acceptable fun hsel => ?_
  obtain ⟨groups, hgroups, hin⟩ := hp.group hsel
  exact ⟨_, groups, RetryRequest.freshShare_eq hsel, hgroups, hin⟩

theorem canonical_retried (hm : m.Canonical) (hp : request.Permitted m)
    (hshare : request.hasSelectedGroup →
      (retryKeyShare (request.freshShare publicKey)).Stable) :
    (m.retried request publicKey).Canonical := by
  refine { hm with stable := fun v hv => ?_ }
  rcases mem_buildRetryExtensions.mp hv with ⟨hin, -, -⟩ | ⟨hset, rfl⟩ | ⟨hset, rfl⟩
  · exact hm.stable v hin
  · exact hshare hset
  · exact hp.cookie hset

theorem le_marshalListSize {values : List Value} {v : Value} (hv : v ∈ values) :
    2 + (4 + v.marshalSize) ≤ marshalListSize values := by
  induction values with
  | nil => simp at hv
  | cons w rest ih =>
    simp only [marshalListSize, map_cons, sum_cons] at ih ⊢
    rcases mem_cons.mp hv with rfl | hin
    · omega
    · have := ih hin
      omega

theorem stable_freshShare (hkey : ∀ group, publicKey group ≠ [])
    (hfits : (m.retried request publicKey).Fits) (hsel : request.hasSelectedGroup) :
    (retryKeyShare (request.freshShare publicKey)).Stable := by
  have hin : retryKeyShare (request.freshShare publicKey) ∈
      (m.retried request publicKey).extensions :=
    mem_buildRetryExtensions.mpr (.inr (.inl ⟨hsel, rfl⟩))
  have hle := le_marshalListSize hin
  have hmax : marshalListSize (m.retried request publicKey).extensions ≤ 2 + 0xffff := hfits
  rw [RetryRequest.freshShare_eq hsel] at hle ⊢
  simp only [retryKeyShare, Option.toList, Value.marshalSize, map_cons, map_nil,
    sum_cons, sum_nil] at hle
  have hwrite := (@ClientKeyShare.marshalKeyShareEntries_eq_ok
    [⟨request.selectedGroup, publicKey request.selectedGroup⟩] _).mpr
    ⟨follows_keyShares.mpr ⟨?_, by simp, by simp⟩, rfl, ?_⟩
  · have hdata := congrArg (· >>= fun entries => Except.ok (vec 2 entries)) hwrite
    exact stable_clientKeyShare hdata
  · simp only [mem_singleton, forall_eq]
    exact ⟨hkey _, by omega⟩
  · simp only [flatMap_cons, flatMap_nil, append_nil, KeyShareEntry.put,
      length_append, length_putUint16, length_vec]
    omega

theorem marshalData_of_validated {x : MessageClientHello} (h : validatedClientHello m = .ok x)
    {v : Value} (hv : v ∈ m.extensions) : ∃ data, v.marshalData = .ok data := by
  unfold validatedClientHello at h
  split at h
  · cases h
  · rename_i hcodec
    obtain ⟨body, hbody, -⟩ := bind_eq_ok.mp hcodec
    rw [MessageClientHello.marshal, fail_guard, fail_guard, fail_guard, bind_eq_ok] at hbody
    obtain ⟨-, -, -, bytes, hlist, -⟩ := hbody
    exact marshalData_of_marshalList hlist hv

theorem cidsMatch_retried {cfg : HandshakeConfig} (h : cfg.CIDsMatch m.extensions) :
    cfg.CIDsMatch (m.retried request publicKey).extensions := by
  intro hset hgen cid hcid
  have htype : (Value.connectionID cid).extensionType ∉ retryTypes :=
    show typeConnectionID ∉ retryTypes by decide
  exact h hset hgen cid ((mem_buildRetryExtensions_of_untouched htype).mp hcid)

theorem permitsRRC_retried {cfg : HandshakeConfig} (h : cfg.PermitsRRC m.extensions) :
    cfg.PermitsRRC (m.retried request publicKey).extensions := by
  refine h.imp_right fun hnone v hv htype => ?_
  exact hnone v ((mem_buildRetryExtensions_of_untouched
    (by rw [htype]; decide)).mp hv) htype

/-- **Without a hook the rebuilt hello passes the check.** -/
theorem authorises_retried : request.Authorises m (m.retried request publicKey) where
  head := rfl
  share hsel := ⟨publicKey request.selectedGroup, mem_buildRetryExtensions.mpr
    (.inr (.inl ⟨hsel, by rw [RetryRequest.freshShare_eq hsel]; rfl⟩))⟩
  cookie hset := mem_buildRetryExtensions.mpr (.inr (.inr ⟨hset, rfl⟩))
  rest := by rw [MessageClientHello.retried, filter_buildRetryExtensions]

theorem mimicked_retried (h : Mimicked m)
    (hbrowser : request.hasSelectedGroup → browserGroup request.selectedGroup) :
    Mimicked (m.retried request publicKey) := by
  refine ⟨fun v hv => ?_, ?_, h.suites⟩
  · rcases mem_buildRetryExtensions.mp hv with ⟨hin, -, -⟩ | ⟨hset, rfl⟩ | ⟨hset, rfl⟩
    · exact h.values v hin
    · rw [RetryRequest.freshShare_eq hset]
      simp [retryKeyShare, mimicValue, hbrowser hset]
    · rfl
  · obtain ⟨v, hv, htype⟩ := h.modes
    exact ⟨v, (mem_buildRetryExtensions_of_untouched (by rw [htype]; decide)).mpr hv, htype⟩

end Rebuild

/-! ## The disguise of the rebuilt hello -/

/-- The permutation with which the hook shuffles a hello. -/
def MessageClientHello.shuffle (m : MessageClientHello) (g : Generator) :
    Equiv.Perm (Fin m.extensions.length) :=
  g.permutation (newSource m.random) m.extensions.length

/-- The shuffle, where there is one, does not disturb a rebuilt hello. -/
structure Profile.KeepsOrder (p : Profile) (g : Generator) (request : RetryRequest)
    (second : MessageClientHello) : Prop where
  /-- The compared extensions stay in order. -/
  order : p.dtlsShuffle → ∀ i j, i < j →
    request.compares (second.extensions.get (second.shuffle g i)).extensionType →
    request.compares (second.extensions.get (second.shuffle g j)).extensionType →
    second.shuffle g i < second.shuffle g j
  /-- `pre_shared_key` stays at the end. -/
  pskLast : p.dtlsShuffle → ∀ i : Fin second.extensions.length,
    (second.extensions.get (second.shuffle g i)).extensionType = typePreSharedKey →
    ¬i.val + 1 < second.extensions.length

/-- The hook leaves a rebuilt hello as the server asked for it. -/
structure Profile.Spares (p : Profile) (g : Generator) (request : RetryRequest)
    (second : MessageClientHello) : Prop extends p.KeepsOrder g request second where
  /-- No second pair of GREASE extensions. -/
  grease : p.dtlsGREASE = false
  /-- Mimicry does not drop the fresh share. -/
  share : p.dtls13Mimic → request.hasSelectedGroup → browserGroup request.selectedGroup
  /-- The extensions fit into their block, the cookie included. -/
  fits : second.Fits

section Disguise

variable {p : Profile} {g : Generator} {request : RetryRequest} {m : MessageClientHello}

theorem disguise_perm (hg : p.dtlsGREASE = false) (extensions : List Value) (source : Source) :
    (p.disguise g extensions source).Perm extensions := by
  obtain ⟨inner, hperm, ⟨-, hlist⟩ | ⟨hyes, -⟩⟩ := disguise_cases p g extensions source
  · rw [hlist]
    exact hperm
  · rw [hg] at hyes
    cases hyes

/-- Without GREASE the compared extensions keep their order iff the shuffle is
increasing on them. -/
theorem filter_disguise_iff (hg : p.dtlsGREASE = false)
    (hnodup : (m.extensions.map (·.extensionType)).Nodup) (q : UInt16 → Bool) :
    ((p.disguise g m.extensions (newSource m.random)).filter (q ·.extensionType)).map Value.toRaw =
        (m.extensions.filter (q ·.extensionType)).map Value.toRaw ↔
      (p.dtlsShuffle → ∀ i j, i < j →
        q (m.extensions.get (m.shuffle g i)).extensionType →
        q (m.extensions.get (m.shuffle g j)).extensionType → m.shuffle g i < m.shuffle g j) := by
  have hraws : (m.extensions.map Value.toRaw).Nodup := by
    refine List.Nodup.of_map Raw.typ ?_
    rw [map_map]
    exact hnodup
  cases hs : p.dtlsShuffle with
  | false => simp [disguise_plain hs hg]
  | true =>
    rw [disguise_shuffle hs hg]
    simp only [forall_const]
    exact filter_permute_eq_iff hraws (m.shuffle g) (q ·.extensionType)

theorem pskLast_disguise_iff (hg : p.dtlsGREASE = false)
    (hlast : typePreSharedKey ∉ (m.extensions.map (·.extensionType)).dropLast) :
    typePreSharedKey ∉
        ((p.disguise g m.extensions (newSource m.random)).map (·.extensionType)).dropLast ↔
      (p.dtlsShuffle → ∀ i : Fin m.extensions.length,
        (m.extensions.get (m.shuffle g i)).extensionType = typePreSharedKey →
        ¬i.val + 1 < m.extensions.length) := by
  cases hs : p.dtlsShuffle with
  | false => simpa [disguise_plain hs hg] using hlast
  | true =>
    rw [disguise_shuffle hs hg]
    simp only [forall_const]
    have hmem := @mem_dropLast_permute _ _ (·.extensionType) m.extensions (m.shuffle g)
      typePreSharedKey
    rw [MessageClientHello.shuffle] at hmem
    rw [hmem]
    exact ⟨fun h i htype hlt => h ⟨i, hlt, htype⟩, fun h ⟨i, hlt, htype⟩ => h i htype hlt⟩

theorem marshalListSize_perm {as bs : List Value} (h : as.Perm bs) :
    marshalListSize as = marshalListSize bs := by
  rw [marshalListSize, marshalListSize, (h.map _).sum_nat]

end Disguise

/-! ## The second hello passes -/

section Retry

variable {p : Profile} {g : Generator} {request : RetryRequest} {hello : MessageClientHello}
  {publicKey : UInt16 → Bytes} {cfg : HandshakeConfig}

/-- The third flight succeeds iff the rebuilt hello and its hooked form are
accepted and the changes are authorised. -/
theorem flight3Generate_eq_ok (hm : hello.Canonical) (hacc : hello.Accepted)
    (hcids : cfg.CIDsMatch hello.extensions) (hrrc : cfg.PermitsRRC hello.extensions)
    (hook : cfg.clientHelloMessageHook = p.clientHelloHook g)
    (hp : request.Permitted hello) (hkey : ∀ group, publicKey group ≠ [])
    (hsecond : (hello.retried request publicKey).Canonical) :
    (∃ out, flight3Generate publicKey hello.snapshot request cfg = .ok out) ↔
      (hello.retried request publicKey).Fits ∧
      (hooked (p.clientHelloHook g) (hello.retried request publicKey)).Accepted ∧
      request.Authorises hello
        (hooked (p.clientHelloHook g) (hello.retried request publicKey)) := by
  have hcanon := canonical_hooked p g hsecond
  have hpermits : cfg.PermitsRRC
      (hooked (p.clientHelloHook g) (hello.retried request publicKey)).extensions :=
    permitsRRC_hooked (permitsRRC_retried hrrc)
  have hmatch : cfg.CIDsMatch
      (hooked (p.clientHelloHook g) (hello.retried request publicKey)).extensions :=
    cidsMatch_hooked (cidsMatch_retried hcids)
  rw [← hook] at hcanon hpermits hmatch ⊢
  have hfinal :=
    fun x s => Flight.finalizeClientHello_eq_ok (x := x) (s := s) hsecond hcanon hpermits
  rw [flight3Generate, buildClientHelloRetry_snapshot hm hacc hp.valid hkey, ok_bind]
  constructor
  · rintro ⟨out, h⟩
    obtain ⟨x, s, hx, h⟩ := step_ok h
    obtain ⟨⟨hfirst, hhook, -⟩, rfl, rfl⟩ := (hfinal x s).mp hx
    obtain ⟨hcheck, -⟩ := check_bind_eq_ok.mp h
    have hauth := (validateClientHelloRetry_eq_ok hcanon hhook.acceptable.shape.nodup).mp hcheck
    exact ⟨hfirst.fits, hhook, hauth.2⟩
  · rintro ⟨hfits, hhook, hauth⟩
    have hx := (hfinal _ _).mpr ⟨⟨⟨hfits, acceptable_retried hacc hp⟩, hhook, hmatch⟩, rfl, rfl⟩
    have hcheck := (validateClientHelloRetry_eq_ok hcanon hhook.acceptable.shape.nodup).mpr
      ⟨hp.valid, hauth⟩
    exact ⟨_, by rw [hx, ok_bind, check_bind_eq_ok]; exact ⟨hcheck, rfl⟩⟩

variable {second : MessageClientHello}

/-- A hook that only rearranges the second hello passes iff the order survives. -/
theorem rearranged_passes_iff (hok : Acceptable second.extensions)
    (hauth : request.Authorises hello second) (hg : p.dtlsGREASE = false)
    (hmimicked : p.dtls13Mimic → Mimicked second) (hfits : second.Fits) :
    ((hooked (p.clientHelloHook g) second).Accepted ∧
      request.Authorises hello (hooked (p.clientHelloHook g) second)) ↔
      p.KeepsOrder g request second := by
  have hperm := disguise_perm (g := g) hg second.extensions (newSource second.random)
  have horder := filter_disguise_iff (g := g) hg hok.shape.nodup request.compares
  have hpsk := pskLast_disguise_iff (g := g) hg hok.shape.pskLast
  rw [hooked_of_mimicked hok.shape.nodup hmimicked]
  constructor
  · rintro ⟨hhook, hsame⟩
    exact ⟨horder.mp (hsame.rest.trans hauth.rest.symm), hpsk.mp hhook.acceptable.shape.pskLast⟩
  · intro hkeeps
    refine ⟨⟨?_, hok.perm hperm.symm (hpsk.mpr hkeeps.pskLast)⟩, ?_⟩
    · change marshalListSize (p.disguise g second.extensions (newSource second.random)) ≤ 2 + 0xffff
      rw [marshalListSize_perm hperm]
      exact hfits
    · refine ⟨hauth.head, fun hsel => ?_, fun hset => ?_, ?_⟩
      · obtain ⟨key, hin⟩ := hauth.share hsel
        exact ⟨key, hperm.mem_iff.mpr hin⟩
      · exact hperm.mem_iff.mpr (hauth.cookie hset)
      · exact (horder.mpr hkeeps.order).trans hauth.rest

/-- The check finds a second pair of GREASE extensions. -/
theorem grease_of_authorised (hplain : request.Authorises hello second)
    (h : request.Authorises hello (hooked (p.clientHelloHook g) second)) :
    p.dtlsGREASE = false := by
  by_contra hno
  have hp : p.dtlsGREASE = true := by simpa using hno
  have hcompared : ∀ value ∈ greaseValues, request.compares value := by
    intro value hvalue
    have hother : greaseValues.all fun v =>
        v ≠ typePadding ∧ v ≠ typeKeyShare ∧ v ≠ typeCookie := by decide
    obtain ⟨h1, h2, h3⟩ := of_decide_eq_true (all_eq_true.mp hother value hvalue)
    simp [RetryRequest.compares, RetryRequest.replaces, h1, h2, h3]
  have hlonger := length_filter_lt_of_grease hp g second.extensions (newSource second.random)
    hcompared
  have hrest := congrArg List.length (h.rest.trans hplain.rest.symm)
  rw [hooked_eq, length_map, length_map] at hrest
  exact absurd hrest (Nat.ne_of_gt hlonger)

/-- The check misses a share that mimicry has dropped. -/
theorem browserGroup_of_authorised (hmimic : p.dtls13Mimic = true)
    (hnodup : (second.extensions.map (·.extensionType)).Nodup)
    (h : request.Authorises hello (hooked (p.clientHelloHook g) second))
    (hsel : request.hasSelectedGroup) : browserGroup request.selectedGroup := by
  obtain ⟨key, hin⟩ := h.share hsel
  have hfixed := (mimicked_hooked hmimic g hnodup).values _ hin
  by_contra hno
  simp [mimicValue, hno] at hfixed

end Retry

/-! ## The result -/

/-- A generator that shuffles nothing and always draws 0. -/
def orderly : Generator where
  permutation _ n := Equiv.refl (Fin n)
  intn _ _ := 0
  intn_lt _ _ h := h

/-- A generator that turns every list round. -/
def reversing : Generator := { orderly with permutation _ _ := Fin.revPerm }

/-- A DTLS 1.3 hello with one share for three groups. -/
def sampleHello : MessageClientHello where
  version := 0xfefd
  random := ⟨0, Vector.replicate 28 0⟩
  sessionID := []
  cookie := []
  cipherSuiteIDs := [4865]
  compressionMethods := [0]
  extensions := [.supportedGroups [x25519MLKEM768Group, x25519Group, 0x0017],
    .clientKeyShare [⟨x25519MLKEM768Group, [1]⟩], .signatureAlgorithms [0x0403],
    .offeredVersions [version1_3]]

/-- A client without connection IDs and RRC. -/
def sampleConfig : HandshakeConfig where
  clientHelloMessageHook := none
  connectionIDGenerator := false
  receiveCIDLength := 0
  enableRRC := false

def sampleSent (p : Profile) (g : Generator) : MessageClientHello :=
  hooked (p.clientHelloHook g) sampleHello

def cookieRequest : MessageServerHello := ⟨some 4865, [.selectedVersion version1_3, .cookie [7]]⟩

/-- A HelloRetryRequest for P-256, which Chrome sends no share for. -/
def p256Request : MessageServerHello :=
  ⟨some 4865, [.selectedVersion version1_3, .retryKeyShare 0x0017]⟩

/-- **A retry survives the hook exactly when the hook spares the rebuilt hello.**
For every profile, every seeded generator, every configuration, every hello sent
through the hook and every valid HelloRetryRequest: rebuilding the hello, running
the same hook and checking the result succeeds iff the profile has no GREASE,
mimicry keeps the share, the extensions fit and the shuffle keeps the order. -/
theorem flight3Generate_succeeds_iff (p : Profile) (g : Generator) (cfg : HandshakeConfig)
    (publicKey : UInt16 → Bytes) (hkey : ∀ group, publicKey group ≠ [])
    (base hello : MessageClientHello) (initial : ClientHelloSnapshot)
    (hfirst : Flight.finalizeClientHello base (cfg.hookedBy p g) = .ok (hello, initial))
    (hrr : MessageServerHello) (raws : List Raw)
    (hdecoded : decodeRawExtensions raws .helloRetryRequest = .ok hrr.extensions)
    (request : RetryRequest) (hvalid : validateHelloRetryRequest initial hrr = .ok request) :
    (∃ out, flight3Generate publicKey initial request (cfg.hookedBy p g) = .ok out) ↔
      p.Spares g request (hello.retried request publicKey) := by
  obtain ⟨hm, hacc, rfl, hcids, hrrc, -⟩ := Flight.finalizeClientHello_spec hfirst
  have hp := permitted_of_validate hm hacc hdecoded hvalid
  have hok := @acceptable_retried _ _ publicKey hacc hp
  have hpasses := fun hsecond => flight3Generate_eq_ok (p := p) (g := g) hm hacc hcids hrrc rfl hp
    hkey hsecond
  have hmimicked : (p.dtls13Mimic → request.hasSelectedGroup → browserGroup request.selectedGroup) →
      p.dtls13Mimic → Mimicked (hello.retried request publicKey) := fun hbrowser hmimic =>
    mimicked_retried (mimicked_of_finalize hmimic hfirst) (hbrowser hmimic)
  constructor
  · rintro ⟨out, hout⟩
    -- the codec has written the rebuilt hello, so its share is stable
    have hsecond : (hello.retried request publicKey).Canonical := by
      refine canonical_retried hm hp fun hsel => ?_
      have hbuilt := hout
      rw [flight3Generate, buildClientHelloRetry_snapshot hm hacc hp.valid hkey, ok_bind] at hbuilt
      obtain ⟨x, s, hx, -⟩ := step_ok hbuilt
      obtain ⟨-, -, -, -, -, y, -, hy, -⟩ := Flight.finalizeClientHello_spec hx
      obtain ⟨data, hdata⟩ := marshalData_of_validated hy
        (mem_buildRetryExtensions.mpr (.inr (.inl ⟨hsel, rfl⟩)))
      exact stable_clientKeyShare hdata
    obtain ⟨hfits, hhook, hauth⟩ := (hpasses hsecond).mp ⟨out, hout⟩
    have hg := grease_of_authorised authorises_retried hauth
    have hbrowser : p.dtls13Mimic → request.hasSelectedGroup →
        browserGroup request.selectedGroup := fun hmimic =>
      browserGroup_of_authorised hmimic hok.shape.nodup hauth
    have hkeeps := (rearranged_passes_iff hok authorises_retried hg (hmimicked hbrowser) hfits).mp
      ⟨hhook, hauth⟩
    exact ⟨hkeeps, hg, hbrowser, hfits⟩
  · intro hspares
    have hsecond : (hello.retried request publicKey).Canonical :=
      canonical_retried hm hp (stable_freshShare hkey hspares.fits)
    have hboth := (rearranged_passes_iff hok authorises_retried hspares.grease
      (hmimicked hspares.share) hspares.fits).mpr hspares.toKeepsOrder
    exact (hpasses hsecond).mpr ⟨hspares.fits, hboth⟩

/-- A mimicking profile answers a request for X25519 with a cookie, as long as
its shuffle changes nothing. -/
theorem flight3Generate_succeeds_x25519 :
    ∃ out, flight3Generate (fun _ => [9]) (sampleSent ⟨true, false, true⟩ orderly).snapshot
      { cipherSuiteID := 4865, selectedGroup := x25519Group, cookie := [7], hasSelectedGroup := true
        hasCookie := true, valid := true }
      (sampleConfig.hookedBy ⟨true, false, true⟩ orderly) = .ok out :=
  (flight3Generate_succeeds_iff ⟨true, false, true⟩ orderly sampleConfig (fun _ => [9])
    (fun _ => cons_ne_nil _ _) sampleHello (sampleSent ⟨true, false, true⟩ orderly)
    (sampleSent ⟨true, false, true⟩ orderly).snapshot (by decide +kernel)
    ⟨some 4865, [.selectedVersion version1_3, .retryKeyShare x25519Group, .cookie [7]]⟩
    [⟨typeSupportedVersions, [0xfe, 0xfc]⟩, ⟨typeKeyShare, [0x00, 0x1d]⟩, ⟨typeCookie, [0, 1, 7]⟩]
    (by decide +kernel) _ (by decide +kernel)).mpr
    ⟨⟨by decide +kernel, by decide +kernel⟩, rfl, by decide, by decide +kernel⟩

/-- **Each flag alone breaks a retry.** The GREASE values of the first hello come
again and are duplicates; a shuffle that turns the list round turns it back; and
mimicry drops the P-256 share. In all three the first hello was sent, and the
HelloRetryRequest was found valid. -/
theorem flight3Generate_fails_for_each_flag :
    (Flight.finalizeClientHello sampleHello (sampleConfig.hookedBy ⟨false, true, false⟩ orderly) =
        .ok (sampleSent ⟨false, true, false⟩ orderly,
          (sampleSent ⟨false, true, false⟩ orderly).snapshot) ∧
      validateHelloRetryRequest (sampleSent ⟨false, true, false⟩ orderly).snapshot cookieRequest =
        .ok { cipherSuiteID := 4865, cookie := [7], hasCookie := true, valid := true } ∧
      flight3Generate (fun _ => [9]) (sampleSent ⟨false, true, false⟩ orderly).snapshot
        { cipherSuiteID := 4865, cookie := [7], hasCookie := true, valid := true }
        (sampleConfig.hookedBy ⟨false, true, false⟩ orderly) =
        .error (invalidHook (.extension 0x0a0a .clientHello (.sentinel .duplicateExtension)
          .illegalParameter))) ∧
    (Flight.finalizeClientHello sampleHello (sampleConfig.hookedBy ⟨true, false, false⟩ reversing) =
        .ok (sampleSent ⟨true, false, false⟩ reversing,
          (sampleSent ⟨true, false, false⟩ reversing).snapshot) ∧
      validateHelloRetryRequest (sampleSent ⟨true, false, false⟩ reversing).snapshot
          cookieRequest =
        .ok { cipherSuiteID := 4865, cookie := [7], hasCookie := true, valid := true } ∧
      flight3Generate (fun _ => [9]) (sampleSent ⟨true, false, false⟩ reversing).snapshot
        { cipherSuiteID := 4865, cookie := [7], hasCookie := true, valid := true }
        (sampleConfig.hookedBy ⟨true, false, false⟩ reversing) =
        .error (invalidRetry (.sentinel .retryChangedExtensions))) ∧
    (Flight.finalizeClientHello sampleHello (sampleConfig.hookedBy ⟨false, false, true⟩ orderly) =
        .ok (sampleSent ⟨false, false, true⟩ orderly,
          (sampleSent ⟨false, false, true⟩ orderly).snapshot) ∧
      validateHelloRetryRequest (sampleSent ⟨false, false, true⟩ orderly).snapshot p256Request =
        .ok { cipherSuiteID := 4865, selectedGroup := 0x0017, hasSelectedGroup := true
              valid := true } ∧
      flight3Generate (fun _ => [9]) (sampleSent ⟨false, false, true⟩ orderly).snapshot
        { cipherSuiteID := 4865, selectedGroup := 0x0017, hasSelectedGroup := true, valid := true }
        (sampleConfig.hookedBy ⟨false, false, true⟩ orderly) =
        .error (invalidRetry (.sentinel .retryWrongKeyShare))) := by
  decide +kernel

end HeadlessClient.DTLS
