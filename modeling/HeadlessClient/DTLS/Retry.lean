import HeadlessClient.DTLS.ClientHello

/-!
# DTLS — HelloRetryRequest

`internal/negotiation/retry.go`: which HelloRetryRequests are valid, how the
second ClientHello is built from the snapshot of the first one, and how the
result is checked after the hook has run.

A hello that the codec accepts comes back from its snapshot unchanged
(`clientHelloFromSnapshot_snapshot`). So `buildClientHelloRetry` edits the hello
that was sent: the edited list is acceptable again (`acceptable_retry`), and its
COMPARED extensions are those of the first hello in the same order
(`filter_buildRetryExtensions`). `validateClientHelloRetry` accepts exactly the
hellos that differ from the first one as the request authorises
(`validateClientHelloRetry_eq_ok`). Between the two stands the hook.
-/

namespace HeadlessClient.DTLS

open Base Wire List

/-! ## The request -/

structure RetryRequest where
  cipherSuiteID : UInt16
  selectedGroup : UInt16 := 0
  cookie : Bytes := []
  hasSelectedGroup : Bool := false
  hasCookie : Bool := false
  valid : Bool := false
deriving DecidableEq, Repr

/-- The fields of a `MessageServerHello` that a HelloRetryRequest is read for. -/
structure MessageServerHello where
  cipherSuiteID : Option UInt16
  extensions : List Value
deriving DecidableEq, Repr

def invalidHelloRetryRequest (e : Error) : Error :=
  .negotiation .invalidHelloRetryRequest e .illegalParameter

def invalidRetry (e : Error) : Error := .negotiation .invalidClientHello e .illegalParameter

def clientHelloFromSnapshot (snapshot : ClientHelloSnapshot) : Except Error MessageClientHello :=
  if ¬snapshot.valid then fail .invalidClientHello
  else
    match MessageClientHello.unmarshal snapshot.body with
    | .error e => .error (.within "snapshot ClientHello" e)
    | .ok clientHello => .ok clientHello

/-- The loop body of `retryRequest`. -/
def RetryRequest.read (request : RetryRequest) : Value → RetryRequest
  | .retryKeyShare group => { request with selectedGroup := group, hasSelectedGroup := true }
  | .cookie cookie => { request with cookie, hasCookie := true }
  | _ => request

def retryRequest (cipherSuiteID : UInt16) (values : List Value) : RetryRequest :=
  values.foldl RetryRequest.read { cipherSuiteID }

def validateRetrySelectedGroup (initial : MessageClientHello) (request : RetryRequest) :
    Except Error Unit :=
  let groups := (initial.extensions.filterMap Value.supportedGroups?).getLast?.getD []
  let shares := (initial.extensions.filterMap Value.clientKeyShare?).getLast?.getD []
  if ¬request.hasSelectedGroup then .ok ()
  else if request.selectedGroup ∉ groups then
    .error (invalidHelloRetryRequest (.about .retryGroupNotOffered request.selectedGroup))
  else if shares.any (·.group = request.selectedGroup) then
    .error (invalidHelloRetryRequest (.about .retryGroupAlreadyShared request.selectedGroup))
  else .ok ()

def helloRetryRequestChangesClientHello (initial : ClientHelloSnapshot) (request : RetryRequest) :
    Except Error Bool :=
  if request.hasSelectedGroup then .ok true
  else if ¬request.hasCookie then .ok false
  else
    match Cookie.marshalData request.cookie with
    | .error e => .error (invalidHelloRetryRequest e)
    | .ok payload =>
      match initial.extension typeCookie with
      | none => .ok true
      | some initialCookie => .ok (initialCookie.data ≠ payload)

/-- The checks of `ValidateHelloRetryRequest` on the decoded first hello. -/
def checkHelloRetryRequest (initial : ClientHelloSnapshot) (initialHello : MessageClientHello)
    (cipherSuiteID : UInt16) (values : List Value) : Except Error RetryRequest :=
  if cipherSuiteID ∉ initialHello.cipherSuiteIDs then
    .error (invalidHelloRetryRequest (.about .retryCipherSuiteNotOffered cipherSuiteID))
  else do
    let request := retryRequest cipherSuiteID values
    validateRetrySelectedGroup initialHello request
    let changed ← helloRetryRequestChangesClientHello initial request
    if ¬changed then .error (invalidHelloRetryRequest (.sentinel .retryNoEffect))
    else .ok { request with valid := true }

def validateHelloRetryRequest (initial : ClientHelloSnapshot) (hrr : MessageServerHello) :
    Except Error RetryRequest :=
  match hrr.cipherSuiteID with
  | none => .error (invalidHelloRetryRequest (.sentinel .retryMissingInitial))
  | some cipherSuiteID =>
    if ¬initial.valid then .error (invalidHelloRetryRequest (.sentinel .retryMissingInitial))
    else
      match clientHelloFromSnapshot initial with
      | .error e => .error (invalidHelloRetryRequest e)
      | .ok initialHello =>
        checkHelloRetryRequest initial initialHello cipherSuiteID hrr.extensions

/-! ## Building the second hello -/

/-- What `retryExtensionReplacement` decides about a value. -/
inductive Replacement where
  | keep
  | replace (value : Value)
  | discard
deriving DecidableEq, Repr

/-- `retryKeyShare`; the caller has checked that there is a share. -/
def retryKeyShare (share : Option KeyShareEntry) : Value := .clientKeyShare share.toList

@[simp] theorem extensionType_retryKeyShare (share : Option KeyShareEntry) :
    (retryKeyShare share).extensionType = typeKeyShare := rfl

@[simp] theorem Value.extensionType_cookie (c : Bytes) :
    (Value.cookie c).extensionType = typeCookie := rfl

def retryExtensionReplacement (value : Value) (request : RetryRequest)
    (freshShare : Option KeyShareEntry) : Replacement :=
  if value.extensionType = typeEarlyData then .discard
  else if value.extensionType = typeKeyShare ∧ request.hasSelectedGroup then
    .replace (retryKeyShare freshShare)
  else if value.extensionType = typeCookie ∧ request.hasCookie then
    .replace (.cookie request.cookie)
  else .keep

/-- What the loop of `buildRetryExtensions` appends for a value. -/
def Replacement.result (value : Value) : Replacement → Option Value
  | keep => some value
  | replace replacement => some replacement
  | discard => none

/-- It sets `keyShareApplied`. -/
def Replacement.appliesKeyShare : Replacement → Bool
  | replace replacement => replacement.extensionType = typeKeyShare
  | _ => false

/-- It sets `cookieApplied`. -/
def Replacement.appliesCookie : Replacement → Bool
  | replace replacement => replacement.extensionType ≠ typeKeyShare
  | _ => false

/-- The values that `insertMissingRetryExtensions` inserts. -/
def missingRetryExtensions (request : RetryRequest) (freshShare : Option KeyShareEntry)
    (keyShareApplied cookieApplied : Bool) : List Value :=
  (if request.hasSelectedGroup ∧ ¬keyShareApplied then [retryKeyShare freshShare] else []) ++
    (if request.hasCookie ∧ ¬cookieApplied then [.cookie request.cookie] else [])

/-- They go to the end, or before a trailing `pre_shared_key`. -/
def insertMissingRetryExtensions (values insert : List Value) : List Value :=
  if insert.length = 0 then values
  else
    let insertAt :=
      if values.getLast?.any (·.extensionType = typePreSharedKey) then values.length - 1
      else values.length
    values.take insertAt ++ insert ++ values.drop insertAt

def buildRetryExtensions (initial : List Value) (request : RetryRequest)
    (freshShare : Option KeyShareEntry) : List Value :=
  let replacement (value : Value) := retryExtensionReplacement value request freshShare
  insertMissingRetryExtensions
    (initial.filterMap fun value => (replacement value).result value)
    (missingRetryExtensions request freshShare
      (initial.any fun value => (replacement value).appliesKeyShare)
      (initial.any fun value => (replacement value).appliesCookie))

/-- A share for the selected group, with a key. -/
def freshShareFits (request : RetryRequest) (freshShare : Option KeyShareEntry) : Bool :=
  match freshShare with
  | none => false
  | some share => share.group = request.selectedGroup ∧ share.keyExchange.length ≠ 0

def buildClientHelloRetry (initial : ClientHelloSnapshot) (request : RetryRequest)
    (freshShare : Option KeyShareEntry) : Except Error MessageClientHello :=
  if ¬request.valid then .error (invalidRetry (.sentinel .retryUnvalidatedRequest))
  else if request.hasSelectedGroup ∧ ¬freshShareFits request freshShare then
    .error (invalidRetry (.sentinel .retryMissingFreshShare))
  else
    match clientHelloFromSnapshot initial with
    | .error e => .error (invalidRetry e)
    | .ok clientHello =>
      .ok { clientHello with
        extensions := buildRetryExtensions clientHello.extensions request freshShare }

/-! ## Checking the second hello -/

def clientKeyShares (snapshot : ClientHelloSnapshot) : Except Error (List KeyShareEntry) :=
  match snapshot.extension typeKeyShare with
  | none => .ok []
  | some raw => ClientKeyShare.unmarshalData raw.data

def validateRetryKeyShare (retry : ClientHelloSnapshot) (request : RetryRequest) :
    Except Error Unit :=
  let wrong := .error (invalidRetry (.sentinel .retryWrongKeyShare))
  if ¬request.hasSelectedGroup then .ok ()
  else
    match clientKeyShares retry with
    | .ok [share] => if share.group = request.selectedGroup then .ok () else wrong
    | _ => wrong

def validateRetryCookie (retry : ClientHelloSnapshot) (request : RetryRequest) :
    Except Error Unit :=
  let mismatch := .error (invalidRetry (.within
    "ClientHello2 did not echo the HelloRetryRequest cookie" (.sentinel .cookieMismatch)))
  if ¬request.hasCookie then .ok ()
  else
    match retry.extension typeCookie, Cookie.marshalData request.cookie with
    | some cookie, .ok payload => if cookie.data = payload then .ok () else mismatch
    | _, _ => mismatch

def comparableRetryExtensions (values : List Raw) (initial : Bool) (request : RetryRequest) :
    List Raw :=
  values.filter fun value =>
    ¬(value.typ = typePadding ∨ (value.typ = typeEarlyData ∧ initial) ∨
      (value.typ = typeKeyShare ∧ request.hasSelectedGroup) ∨
      (value.typ = typeCookie ∧ request.hasCookie))

def retryExtensionsMatch (initial retry : ClientHelloSnapshot) (request : RetryRequest) : Bool :=
  comparableRetryExtensions initial.extensions true request =
    comparableRetryExtensions retry.extensions false request

def validateRetryClientHello (initial retry : ClientHelloSnapshot) (request : RetryRequest) :
    Except Error Unit :=
  if initial.body.take initial.extensionOffset ≠ retry.body.take retry.extensionOffset then
    .error (invalidRetry (.sentinel .retryChangedFields))
  else do
    validateRetryKeyShare retry request
    validateRetryCookie retry request
    if retryExtensionsMatch initial retry request then .ok ()
    else .error (invalidRetry (.sentinel .retryChangedExtensions))

def validateClientHelloRetry (initial retry : ClientHelloSnapshot) (request : RetryRequest) :
    Except Error Unit :=
  if ¬initial.valid ∨ ¬retry.valid ∨ ¬request.valid then
    .error (invalidRetry (.sentinel .retryMissingSnapshot))
  else validateRetryClientHello initial retry request

/-! ## The third flight -/

/-- The `freshShare` of `flight3Generate`. `publicKey` is what
`elliptic.GenerateKeypair` returns for a group. -/
def RetryRequest.freshShare (request : RetryRequest) (publicKey : UInt16 → Bytes) :
    Option KeyShareEntry :=
  if request.hasSelectedGroup then some ⟨request.selectedGroup, publicKey request.selectedGroup⟩
  else none

/-- `flight3Generate`, from the rebuilding to the check of the second hello. -/
def flight3Generate (publicKey : UInt16 → Bytes) (initial : ClientHelloSnapshot)
    (request : RetryRequest) (cfg : HandshakeConfig) :
    Except Error (MessageClientHello × ClientHelloSnapshot) := do
  let clientHello ← buildClientHelloRetry initial request (request.freshShare publicKey)
  let (clientHello, snapshot) ← Flight.finalizeClientHello clientHello cfg
  validateClientHelloRetry initial snapshot request
  .ok (clientHello, snapshot)

/-! ## Valid requests -/

variable {m : MessageClientHello} {request : RetryRequest}

/-- **The snapshot of an accepted hello decodes to the hello.** -/
theorem clientHelloFromSnapshot_snapshot (hm : m.Canonical) (hacc : m.Accepted) :
    clientHelloFromSnapshot m.snapshot = .ok m := by
  have hbody := (MessageClientHello.marshal_eq_ok hm).mpr ⟨hacc.fits, rfl⟩
  have hback : MessageClientHello.unmarshal m.snapshot.body = .ok m :=
    (MessageClientHello.unmarshal_marshal hm hbody).mpr ⟨hacc.acceptable, rfl⟩
  simp [clientHelloFromSnapshot, m.valid_snapshot, hback]

/-- A cookie that was read stands in the list, or was there before. -/
theorem foldl_read_cookie {values : List Value}
    (h : (values.foldl RetryRequest.read request).hasCookie) :
    (request.hasCookie ∧ (values.foldl RetryRequest.read request).cookie = request.cookie) ∨
      .cookie (values.foldl RetryRequest.read request).cookie ∈ values := by
  induction values generalizing request with
  | nil => exact .inl ⟨h, rfl⟩
  | cons v rest ih =>
    rw [foldl_cons] at h ⊢
    rcases ih h with ⟨hbefore, hsame⟩ | hin
    · rw [hsame]
      cases v with
      | cookie c => exact .inr (by simp [RetryRequest.read])
      | _ => exact .inl ⟨hbefore, rfl⟩
    · exact .inr (mem_cons_of_mem v hin)

theorem decodeExtensions_mem {context : ExtensionContext} {raws : List Raw} {values : List Value}
    (h : decodeExtensions context raws = .ok values) {v : Value} (hv : v ∈ values) :
    ∃ raw, decodeExtension context raw = .ok v := by
  induction raws generalizing values with
  | nil =>
    cases h
    simp at hv
  | cons raw rest ih =>
    rw [decodeExtensions, bind_eq_ok] at h
    obtain ⟨w, hw, hrest⟩ := h
    obtain ⟨ws, hws, hvalues⟩ := bind_eq_ok.mp hrest
    cases hvalues
    rcases mem_cons.mp hv with rfl | hin
    · exact ⟨raw, hw⟩
    · exact ih hws hin

/-- What a validated request promises about the first hello. -/
structure RetryRequest.Permitted (request : RetryRequest) (m : MessageClientHello) : Prop where
  valid : request.valid
  group : request.hasSelectedGroup →
    ∃ groups, .supportedGroups groups ∈ m.extensions ∧ request.selectedGroup ∈ groups
  cookie : request.hasCookie → (Value.cookie request.cookie).Stable

theorem validateRetrySelectedGroup_eq_ok (hnodup : (m.extensions.map (·.extensionType)).Nodup)
    (h : validateRetrySelectedGroup m request = .ok ()) (hsel : request.hasSelectedGroup) :
    ∃ groups, .supportedGroups groups ∈ m.extensions ∧ request.selectedGroup ∈ groups := by
  rw [validateRetrySelectedGroup, skip_eq_ok, not_not, guard_eq_ok, not_not] at h
  obtain ⟨hin, -⟩ := h hsel
  cases hgroups : (collectExtensionDependencies m.extensions).groups with
  | none =>
    change _ ∈ (collectExtensionDependencies m.extensions).groups.getD [] at hin
    simp [hgroups] at hin
  | some groups =>
    change _ ∈ (collectExtensionDependencies m.extensions).groups.getD [] at hin
    rw [hgroups] at hin
    exact ⟨groups, (collect_groups hnodup).mp hgroups, hin⟩

/-- **A valid request asks for an offered group and for a cookie that can be
sent back.** The extensions of the request come from the wire. -/
theorem permitted_of_validate (hm : m.Canonical) (hacc : m.Accepted) {hrr : MessageServerHello}
    {raws : List Raw} (hdecoded : decodeRawExtensions raws .helloRetryRequest = .ok hrr.extensions)
    (h : validateHelloRetryRequest m.snapshot hrr = .ok request) : request.Permitted m := by
  rw [decodeRawExtensions, check_bind_eq_ok, bind_eq_ok] at hdecoded
  obtain ⟨-, values, hvalues, hlast⟩ := hdecoded
  obtain ⟨-, heq⟩ := check_bind_eq_ok.mp hlast
  cases heq
  unfold validateHelloRetryRequest at h
  split at h
  · cases h
  · rename_i cipherSuiteID _
    rw [guard_eq_ok, clientHelloFromSnapshot_snapshot hm hacc] at h
    obtain ⟨-, h⟩ := h
    change checkHelloRetryRequest m.snapshot m cipherSuiteID hrr.extensions = .ok request at h
    rw [checkHelloRetryRequest, guard_eq_ok, check_bind_eq_ok, bind_eq_ok] at h
    obtain ⟨-, hgroup, changed, -, h⟩ := h
    obtain ⟨-, h⟩ := guard_eq_ok.mp h
    cases h
    refine ⟨rfl, validateRetrySelectedGroup_eq_ok hacc.acceptable.shape.nodup hgroup, ?_⟩
    intro hcookie
    rcases foldl_read_cookie hcookie with ⟨hbefore, -⟩ | hin
    · cases hbefore
    · obtain ⟨raw, hraw⟩ := decodeExtensions_mem hvalues hin
      exact stable_retryCookie hraw

/-! ## The edited extensions -/

section Edit

variable {request : RetryRequest} {freshShare : Option KeyShareEntry} {initial : List Value}

def RetryRequest.replaces (request : RetryRequest) (typ : UInt16) : Bool :=
  (typ = typeKeyShare ∧ request.hasSelectedGroup) ∨ (typ = typeCookie ∧ request.hasCookie)

/-- The types that `comparableRetryExtensions` keeps. -/
def RetryRequest.compares (request : RetryRequest) (typ : UInt16) : Bool :=
  typ ≠ typePadding ∧ ¬request.replaces typ

/-- The replacement of a value that is not discarded. -/
def RetryRequest.substitute (request : RetryRequest) (freshShare : Option KeyShareEntry)
    (value : Value) : Value :=
  if value.extensionType = typeKeyShare ∧ request.hasSelectedGroup then retryKeyShare freshShare
  else if value.extensionType = typeCookie ∧ request.hasCookie then .cookie request.cookie
  else value

theorem extensionType_substitute (v : Value) :
    (request.substitute freshShare v).extensionType = v.extensionType := by
  unfold RetryRequest.substitute
  split
  · rename_i h
    exact h.1.symm
  · split
    · rename_i h
      exact h.1.symm
    · rfl

variable {v : Value}

theorem substitute_of_not_replaces (h : request.replaces v.extensionType = false) :
    request.substitute freshShare v = v := by
  simp only [RetryRequest.replaces, decide_eq_false_iff_not, not_or] at h
  rw [RetryRequest.substitute, if_neg h.1, if_neg h.2]

theorem result_retryExtensionReplacement (v : Value) :
    (retryExtensionReplacement v request freshShare).result v =
      if v.extensionType = typeEarlyData then none
      else some (request.substitute freshShare v) := by
  unfold retryExtensionReplacement RetryRequest.substitute
  split
  · rfl
  · split
    · rfl
    · split
      · rfl
      · rfl

theorem filterMap_result (initial : List Value) :
    (initial.filterMap fun v => (retryExtensionReplacement v request freshShare).result v) =
      (initial.filter (·.extensionType ≠ typeEarlyData)).map (request.substitute freshShare) := by
  induction initial with
  | nil => rfl
  | cons v rest ih =>
    rw [filterMap_cons, result_retryExtensionReplacement, ih]
    by_cases hearly : v.extensionType = typeEarlyData
    · simp [hearly]
    · simp [hearly]

theorem applies_retryExtensionReplacement (v : Value) :
    ((retryExtensionReplacement v request freshShare).appliesKeyShare ↔
      request.hasSelectedGroup ∧ v.extensionType = typeKeyShare) ∧
    ((retryExtensionReplacement v request freshShare).appliesCookie ↔
      request.hasCookie ∧ v.extensionType = typeCookie) := by
  unfold retryExtensionReplacement
  split
  · rename_i hearly
    simp [Replacement.appliesKeyShare, Replacement.appliesCookie, hearly, typeEarlyData,
      typeKeyShare, typeCookie]
  · split
    · rename_i hshare
      simp [Replacement.appliesKeyShare, Replacement.appliesCookie, hshare, typeCookie,
        typeKeyShare]
    · rename_i hshare
      split
      · rename_i hcookie
        simp [Replacement.appliesKeyShare, Replacement.appliesCookie, hcookie, typeCookie,
          typeKeyShare]
      · rename_i hcookie
        simp only [Replacement.appliesKeyShare, Replacement.appliesCookie, Bool.false_eq_true,
          false_iff]
        exact ⟨fun h => hshare h.symm, fun h => hcookie h.symm⟩

theorem unapplied_iff {f : Value → Bool} {set : Prop} {typ : UInt16}
    (h : ∀ v, f v ↔ set ∧ v.extensionType = typ) :
    (set ∧ ¬initial.any f) ↔ set ∧ ∀ v ∈ initial, v.extensionType ≠ typ := by
  simp +contextual [h]

/-- What was asked for and has no place in the first hello. -/
def RetryRequest.missing (request : RetryRequest) (freshShare : Option KeyShareEntry)
    (initial : List Value) : List Value :=
  (if request.hasSelectedGroup ∧ ∀ v ∈ initial, v.extensionType ≠ typeKeyShare
    then [retryKeyShare freshShare] else []) ++
  (if request.hasCookie ∧ ∀ v ∈ initial, v.extensionType ≠ typeCookie
    then [.cookie request.cookie] else [])

theorem buildRetryExtensions_eq :
    buildRetryExtensions initial request freshShare =
      insertMissingRetryExtensions
        ((initial.filter (·.extensionType ≠ typeEarlyData)).map (request.substitute freshShare))
        (request.missing freshShare initial) := by
  simp only [buildRetryExtensions, missingRetryExtensions, filterMap_result, RetryRequest.missing,
    unapplied_iff fun v => (applies_retryExtensionReplacement v).1,
    unapplied_iff fun v => (applies_retryExtensionReplacement v).2]

theorem insertMissingRetryExtensions_perm (values insert : List Value) :
    (insertMissingRetryExtensions values insert).Perm (values ++ insert) := by
  unfold insertMissingRetryExtensions
  split
  · rename_i hnil
    rw [eq_nil_of_length_eq_zero hnil, append_nil]
  · obtain ⟨n, hn⟩ : ∃ n, (if values.getLast?.any (·.extensionType = typePreSharedKey)
        then values.length - 1 else values.length) = n := ⟨_, rfl⟩
    simp only [hn]
    calc values.take n ++ insert ++ values.drop n
        _ = values.take n ++ (insert ++ values.drop n) := append_assoc ..
        _ |>.Perm (values.take n ++ (values.drop n ++ insert)) :=
            List.Perm.append_left _ perm_append_comm
        _ = values ++ insert := by rw [← append_assoc, take_append_drop]

theorem filter_insertMissingRetryExtensions {values insert : List Value} {p : Value → Bool}
    (h : ∀ v ∈ insert, p v = false) :
    (insertMissingRetryExtensions values insert).filter p = values.filter p := by
  have hnone : insert.filter p = [] := by
    rw [filter_eq_nil_iff]
    intro v hv
    simp [h v hv]
  unfold insertMissingRetryExtensions
  split
  · rfl
  · rw [filter_append, filter_append, hnone, append_nil, ← filter_append, take_append_drop]

/-- Nothing is inserted behind `pre_shared_key`. -/
theorem pskLast_insertMissingRetryExtensions {values insert : List Value}
    (hvalues : typePreSharedKey ∉ (values.map (·.extensionType)).dropLast)
    (hinsert : ∀ v ∈ insert, v.extensionType ≠ typePreSharedKey) :
    typePreSharedKey ∉
      ((insertMissingRetryExtensions values insert).map (·.extensionType)).dropLast := by
  have hnew : typePreSharedKey ∉ insert.map (·.extensionType) := by
    intro hin
    obtain ⟨v, hv, htype⟩ := mem_map.mp hin
    exact hinsert v hv htype
  unfold insertMissingRetryExtensions
  split
  · exact hvalues
  · rcases eq_nil_or_concat values with rfl | ⟨front, last, rfl⟩
    · simpa using fun hin => hnew ((dropLast_sublist _).subset hin)
    · rw [concat_eq_append, map_append, map_cons, map_nil, dropLast_concat] at hvalues
      by_cases hlast : last.extensionType = typePreSharedKey
      · -- the new values stand between the front and `pre_shared_key`
        simp only [concat_eq_append, getLast?_concat, Option.any_some, hlast,
          decide_true, if_true, length_append, length_cons, length_nil,
          Nat.zero_add, Nat.add_sub_cancel, take_left, drop_left, map_append,
          map_cons, map_nil, dropLast_concat, mem_append, not_or]
        exact ⟨hvalues, hnew⟩
      · intro hin
        have hall := (dropLast_sublist _).subset hin
        simp only [concat_eq_append, getLast?_concat, Option.any_some, hlast,
          decide_false, Bool.false_eq_true, if_false, take_length, drop_length,
          append_nil, map_append, map_cons, map_nil, mem_append, mem_singleton] at hall
        rcases hall with (hfront | heq) | hins
        · exact hvalues hfront
        · exact hlast heq.symm
        · exact hnew hins

theorem mem_missing : v ∈ request.missing freshShare initial ↔
    (request.hasSelectedGroup ∧ v = retryKeyShare freshShare ∨
      request.hasCookie ∧ v = .cookie request.cookie) ∧
    ∀ w ∈ initial, w.extensionType ≠ v.extensionType := by
  rw [RetryRequest.missing, mem_append, mem_ite_nil_right, mem_ite_nil_right, mem_singleton,
    mem_singleton]
  constructor
  · rintro (⟨⟨hset, hnew⟩, rfl⟩ | ⟨⟨hset, hnew⟩, rfl⟩)
    · exact ⟨.inl ⟨hset, rfl⟩, hnew⟩
    · exact ⟨.inr ⟨hset, rfl⟩, hnew⟩
  · rintro ⟨⟨hset, rfl⟩ | ⟨hset, rfl⟩, hnew⟩
    · exact .inl ⟨⟨hset, hnew⟩, rfl⟩
    · exact .inr ⟨⟨hset, hnew⟩, rfl⟩

/-- **The values of the second hello.** -/
theorem mem_buildRetryExtensions :
    v ∈ buildRetryExtensions initial request freshShare ↔
      (v ∈ initial ∧ v.extensionType ≠ typeEarlyData ∧ request.replaces v.extensionType = false) ∨
        (request.hasSelectedGroup ∧ v = retryKeyShare freshShare) ∨
        (request.hasCookie ∧ v = .cookie request.cookie) := by
  have hsubstitute : ∀ w, request.replaces w.extensionType = true →
      request.substitute freshShare w = retryKeyShare freshShare ∧ request.hasSelectedGroup ∨
        request.substitute freshShare w = .cookie request.cookie ∧ request.hasCookie := by
    intro w hw
    simp only [RetryRequest.replaces, decide_eq_true_eq] at hw
    by_cases hshare : w.extensionType = typeKeyShare ∧ request.hasSelectedGroup
    · exact .inl ⟨by rw [RetryRequest.substitute, if_pos hshare], hshare.2⟩
    · have hcookie := hw.resolve_left hshare
      exact .inr ⟨by rw [RetryRequest.substitute, if_neg hshare, if_pos hcookie], hcookie.2⟩
  rw [buildRetryExtensions_eq, (insertMissingRetryExtensions_perm _ _).mem_iff, mem_append]
  constructor
  · rintro (hin | hin)
    · obtain ⟨w, hw, rfl⟩ := mem_map.mp hin
      obtain ⟨hw, hearly⟩ := mem_filter.mp hw
      cases hrep : request.replaces w.extensionType with
      | false =>
        rw [substitute_of_not_replaces hrep]
        exact .inl ⟨hw, by simpa using hearly, hrep⟩
      | true =>
        rcases hsubstitute w hrep with ⟨heq, hset⟩ | ⟨heq, hset⟩
        · exact .inr (.inl ⟨hset, heq⟩)
        · exact .inr (.inr ⟨hset, heq⟩)
    · exact .inr (mem_missing.mp hin).1
  · rintro (⟨hin, hearly, hrep⟩ | ⟨hset, rfl⟩ | ⟨hset, rfl⟩)
    · exact .inl (mem_map.mpr ⟨v, mem_filter.mpr ⟨hin, by simpa using hearly⟩,
        substitute_of_not_replaces hrep⟩)
    · by_cases hthere : ∃ w ∈ initial, w.extensionType = typeKeyShare
      · obtain ⟨w, hw, htype⟩ := hthere
        refine .inl (mem_map.mpr ⟨w, mem_filter.mpr ⟨hw, by rw [htype]; decide⟩, ?_⟩)
        rw [RetryRequest.substitute, if_pos ⟨htype, hset⟩]
      · exact .inr (mem_missing.mpr ⟨.inl ⟨hset, rfl⟩, fun w hw htype => hthere ⟨w, hw, htype⟩⟩)
    · by_cases hthere : ∃ w ∈ initial, w.extensionType = typeCookie
      · obtain ⟨w, hw, htype⟩ := hthere
        refine .inl (mem_map.mpr ⟨w, mem_filter.mpr ⟨hw, by rw [htype]; decide⟩, ?_⟩)
        rw [RetryRequest.substitute, if_neg (by rw [htype]; exact fun h => absurd h.1 (by decide)),
          if_pos ⟨htype, hset⟩]
      · exact .inr (mem_missing.mpr ⟨.inr ⟨hset, rfl⟩, fun w hw htype => hthere ⟨w, hw, htype⟩⟩)

theorem dropLast_sublist_of_sublist {α : Type} {l₁ l₂ : List α} (h : l₁.Sublist l₂) :
    l₁.dropLast.Sublist l₂.dropLast := by
  have hrev := h.reverse.tail
  rwa [tail_reverse, tail_reverse, reverse_sublist] at hrev

theorem wellShaped_buildRetryExtensions (h : WellShaped (initial.map (·.extensionType))) :
    WellShaped ((buildRetryExtensions initial request freshShare).map (·.extensionType)) := by
  have htypes : ((initial.filter (·.extensionType ≠ typeEarlyData)).map
      (request.substitute freshShare)).map (·.extensionType) =
      (initial.map (·.extensionType)).filter (· ≠ typeEarlyData) := by
    rw [map_map, filter_map]
    exact map_congr_left fun v _ => extensionType_substitute v
  rw [buildRetryExtensions_eq]
  refine ⟨?_, pskLast_insertMissingRetryExtensions ?_ ?_⟩
  · rw [((insertMissingRetryExtensions_perm _ _).map _).nodup_iff, map_append, htypes, nodup_append]
    refine ⟨h.nodup.filter _, ?_, ?_⟩
    · -- at most one share and one cookie are inserted
      unfold RetryRequest.missing
      split
      · split <;> simp [typeKeyShare, typeCookie]
      · split <;> simp
    · intro typ htyp other hother heq
      obtain ⟨v, hv, rfl⟩ := mem_map.mp hother
      obtain ⟨w, hw, htype⟩ := mem_map.mp (mem_of_mem_filter htyp)
      exact (mem_missing.mp hv).2 w hw (htype.trans heq)
  · rw [htypes]
    exact fun hin => h.pskLast ((dropLast_sublist_of_sublist filter_sublist).subset hin)
  · intro v hv
    rcases (mem_missing.mp hv).1 with ⟨-, rfl⟩ | ⟨-, rfl⟩
    · simp [typeKeyShare, typePreSharedKey]
    · simp [typeCookie, typePreSharedKey]

/-- **The compared extensions keep their values and their order.** -/
theorem filter_buildRetryExtensions :
    (buildRetryExtensions initial request freshShare).filter (request.compares ·.extensionType) =
      initial.filter fun v =>
        v.extensionType ≠ typeEarlyData ∧ request.compares v.extensionType := by
  rw [buildRetryExtensions_eq, filter_insertMissingRetryExtensions, filter_map, filter_filter]
  · rw [map_congr_left (g := id), map_id]
    · refine filter_congr fun v _ => ?_
      simp [Function.comp, extensionType_substitute, Bool.and_comm]
    · intro v hv
      have hcompared : request.compares v.extensionType := by
        have h := (mem_filter.mp hv).2
        simp only [Function.comp, extensionType_substitute, Bool.and_eq_true] at h
        exact h.1
      simp only [RetryRequest.compares, decide_eq_true_eq, Bool.not_eq_true] at hcompared
      exact substitute_of_not_replaces hcompared.2
  · intro v hv
    rcases (mem_missing.mp hv).1 with ⟨hset, rfl⟩ | ⟨hset, rfl⟩
    · simp [RetryRequest.compares, RetryRequest.replaces, hset]
    · simp [RetryRequest.compares, RetryRequest.replaces, hset]

/-- The types that a retry may change. -/
abbrev retryTypes : List UInt16 := [typeEarlyData, typeKeyShare, typeCookie]

theorem mem_buildRetryExtensions_of_untouched (h : v.extensionType ∉ retryTypes) :
    v ∈ buildRetryExtensions initial request freshShare ↔ v ∈ initial := by
  simp only [mem_cons, mem_nil_iff, or_false, not_or] at h
  obtain ⟨hearly, hshare, hcookie⟩ := h
  rw [mem_buildRetryExtensions]
  constructor
  · rintro (⟨hv, -, -⟩ | ⟨-, rfl⟩ | ⟨-, rfl⟩)
    · exact hv
    · exact absurd rfl hshare
    · exact absurd rfl hcookie
  · intro hv
    exact .inl ⟨hv, hearly, by simp [RetryRequest.replaces, hshare, hcookie]⟩

theorem extensionType_ne_earlyData (hv : v ∈ buildRetryExtensions initial request freshShare) :
    v.extensionType ≠ typeEarlyData := by
  rcases mem_buildRetryExtensions.mp hv with ⟨-, hne, -⟩ | ⟨-, rfl⟩ | ⟨-, rfl⟩
  · exact hne
  · simp [typeKeyShare, typeEarlyData]
  · simp [typeCookie, typeEarlyData]

theorem keyShareGroupsFollow_singleton {share : KeyShareEntry} {groups : List UInt16}
    (h : share.group ∈ groups) : keyShareGroupsFollowSupportedGroups [share] groups := by
  induction groups with
  | nil => simp at h
  | cons group rest ih =>
    by_cases heq : group = share.group
    · simp [keyShareGroupsFollowSupportedGroups, heq]
    · have hrest : share.group ∈ rest := by simpa [Ne.symm heq] using h
      simpa [keyShareGroupsFollowSupportedGroups, heq] using ih hrest

/-- Dependencies stay met without `early_data` and with one share of an offered group. -/
theorem Dependencies.Met.retry {d e : Dependencies} (h : d.Met)
    (hpresent : ∀ typ ∉ retryTypes, e.present typ = d.present typ)
    (hearly : ¬e.present typeEarlyData) (hgroups : e.groups = d.groups)
    (hversions : e.versions = d.versions)
    (hshare : e.keyShare = d.keyShare ∨ ∃ share groups, e.keyShare = some [share] ∧
      d.groups = some groups ∧ share.group ∈ groups) : e.Met := by
  have h13 : e.attempts13 = d.attempts13 := by
    rw [Dependencies.attempts13, Dependencies.attempts13, hversions]
  have hpsk := hpresent typePreSharedKey (by decide)
  refine { groupsUnique := hgroups ▸ h.groupsUnique
           pskModes := ?_
           earlyData := fun hpresent => absurd hpresent hearly
           routability := ?_
           shareOfGroups := ?_
           groupsOfShare := ?_
           authenticated := ?_
           sharesFollow := ?_ }
  · rw [hpsk, hpresent typePSKKeyExchangeModes (by decide)]
    exact h.pskModes
  · rw [hpresent typeReturnRoutabilityCheck (by decide), hpresent typeConnectionID (by decide)]
    exact h.routability
  · rw [h13, hgroups]
    rcases hshare with hsame | ⟨share, groups, hone, -, -⟩
    · rw [hsame]
      exact h.shareOfGroups
    · simp [hone]
  · rw [h13, hgroups]
    rcases hshare with hsame | ⟨share, groups, -, hsome, -⟩
    · rw [hsame]
      exact h.groupsOfShare
    · simp [hsome]
  · rw [h13, hpsk, hpresent typeSignatureAlgorithms (by decide), hgroups]
    exact h.authenticated
  · rcases hshare with hsame | ⟨share, groups, hone, hsome, hin⟩
    · rw [hsame, hgroups]
      exact h.sharesFollow
    · intro shares gs hshares hgs
      rw [hone, Option.some.injEq] at hshares
      rw [hgroups, hsome, Option.some.injEq] at hgs
      rw [← hshares, ← hgs]
      exact keyShareGroupsFollow_singleton hin

/-- **The edited extensions are acceptable again.** -/
theorem acceptable_buildRetryExtensions (hok : Acceptable initial)
    (hgroup : request.hasSelectedGroup → ∃ share groups, freshShare = some share ∧
      .supportedGroups groups ∈ initial ∧ share.group ∈ groups) :
    Acceptable (buildRetryExtensions initial request freshShare) := by
  have hshape : WellShaped
      ((buildRetryExtensions initial request freshShare).map (·.extensionType)) :=
    wellShaped_buildRetryExtensions hok.shape
  refine ⟨hshape, hok.met.retry ?_ ?_ ?_ ?_ ?_⟩
  · intro typ htyp
    rw [Bool.eq_iff_iff, collect_present, collect_present]
    refine exists_congr fun v => and_congr_left fun htype => ?_
    exact mem_buildRetryExtensions_of_untouched (htype ▸ htyp)
  · rw [collect_present]
    rintro ⟨v, hv, htype⟩
    exact extensionType_ne_earlyData hv htype
  · refine Option.ext fun groups => ?_
    rw [collect_groups hshape.nodup, collect_groups hok.shape.nodup]
    exact mem_buildRetryExtensions_of_untouched (show typeSupportedGroups ∉ retryTypes by decide)
  · refine Option.ext fun versions => ?_
    rw [collect_versions hshape.nodup, collect_versions hok.shape.nodup]
    exact mem_buildRetryExtensions_of_untouched (show typeSupportedVersions ∉ retryTypes by decide)
  · cases hsel : request.hasSelectedGroup with
    | false =>
      refine .inl (Option.ext fun shares => ?_)
      rw [collect_keyShare hshape.nodup, collect_keyShare hok.shape.nodup, mem_buildRetryExtensions]
      simp [hsel, RetryRequest.replaces, Value.extensionType, typeKeyShare, typeEarlyData,
        typeCookie]
    | true =>
      obtain ⟨share, groups, rfl, hgroups, hin⟩ := hgroup hsel
      refine .inr ⟨share, groups, ?_, (collect_groups hok.shape.nodup).mpr hgroups, hin⟩
      rw [collect_keyShare hshape.nodup]
      exact mem_buildRetryExtensions.mpr (.inr (.inl ⟨hsel, rfl⟩))

end Edit

/-! ## What the check accepts -/

/-- The second hello is the first one with the changes that the request
authorises: the same head, one share of the selected group, the cookie, and the
same COMPARED extensions in the same order. -/
structure RetryRequest.Authorises (request : RetryRequest) (first second : MessageClientHello) :
    Prop where
  head : second.head = first.head
  share : request.hasSelectedGroup →
    ∃ key, .clientKeyShare [⟨request.selectedGroup, key⟩] ∈ second.extensions
  cookie : request.hasCookie → .cookie request.cookie ∈ second.extensions
  rest : (second.extensions.filter (request.compares ·.extensionType)).map Value.toRaw =
    (first.extensions.filter fun v =>
      v.extensionType ≠ typeEarlyData ∧ request.compares v.extensionType).map Value.toRaw

theorem extension_snapshot (hnodup : (m.extensions.map (·.extensionType)).Nodup) {typ : UInt16}
    {raw : Raw} :
    m.snapshot.extension typ = some raw ↔
      ∃ v ∈ m.extensions, v.extensionType = typ ∧ v.toRaw = raw := by
  have hfound : ∀ r, m.snapshot.extension typ = some r →
      ∃ v ∈ m.extensions, v.extensionType = typ ∧ v.toRaw = r := by
    intro r hr
    obtain ⟨v, hv, rfl⟩ := mem_map.mp (mem_of_find?_eq_some hr)
    have htype := find?_some hr
    exact ⟨v, hv, of_decide_eq_true htype, rfl⟩
  refine ⟨hfound raw, ?_⟩
  rintro ⟨v, hv, htype, rfl⟩
  cases hfind : m.snapshot.extension typ with
  | none =>
    have hnone := find?_eq_none.mp hfind v.toRaw (mem_map_of_mem hv)
    exact absurd (decide_eq_true htype) hnone
  | some r =>
    obtain ⟨w, hw, hwtype, rfl⟩ := hfound r hfind
    rw [inj_on_of_nodup_map hnodup hw hv (hwtype.trans htype.symm)]

theorem comparableRetryExtensions_second (values : List Value) (request : RetryRequest) :
    comparableRetryExtensions (values.map Value.toRaw) false request =
      (values.filter (request.compares ·.extensionType)).map Value.toRaw := by
  rw [comparableRetryExtensions, filter_map]
  refine congrArg _ (filter_congr fun v _ => ?_)
  rw [Bool.eq_iff_iff]
  simp only [Function.comp, Value.typ_toRaw, RetryRequest.compares, RetryRequest.replaces,
    decide_eq_true_eq, not_or, Bool.false_eq_true, and_false, false_or, ne_eq]

theorem comparableRetryExtensions_first (values : List Value) (request : RetryRequest) :
    comparableRetryExtensions (values.map Value.toRaw) true request =
      (values.filter fun v =>
        v.extensionType ≠ typeEarlyData ∧ request.compares v.extensionType).map Value.toRaw := by
  rw [comparableRetryExtensions, filter_map]
  refine congrArg _ (filter_congr fun v _ => ?_)
  rw [Bool.eq_iff_iff]
  simp only [Function.comp, Value.typ_toRaw, RetryRequest.compares, RetryRequest.replaces,
    decide_eq_true_eq, not_or, and_true]
  exact ⟨fun ⟨h1, h2, h3⟩ => ⟨h2, h1, h3⟩, fun ⟨h2, h1, h3⟩ => ⟨h1, h2, h3⟩⟩

theorem validateRetryKeyShare_eq_ok (hm : m.Canonical)
    (hnodup : (m.extensions.map (·.extensionType)).Nodup) :
    validateRetryKeyShare m.snapshot request = .ok () ↔ (request.hasSelectedGroup →
      ∃ key, .clientKeyShare [⟨request.selectedGroup, key⟩] ∈ m.extensions) := by
  have hshares : ∀ shares, shares ≠ [] →
      (clientKeyShares m.snapshot = .ok shares ↔ .clientKeyShare shares ∈ m.extensions) := by
    intro shares hne
    unfold clientKeyShares
    split
    · rename_i hnone
      constructor
      · intro h
        cases h
        exact absurd rfl hne
      · intro hin
        have hsome := (extension_snapshot hnodup).mpr ⟨_, hin, rfl, rfl⟩
        rw [show (Value.clientKeyShare shares).extensionType = typeKeyShare from rfl,
          hnone] at hsome
        cases hsome
    · rename_i raw hraw
      obtain ⟨v, hv, htype, rfl⟩ := (extension_snapshot hnodup).mp hraw
      obtain ⟨found, rfl⟩ := (hm.stable v hv).eq_clientKeyShare htype
      obtain ⟨data, hdata, -⟩ := hm.stable _ hv
      have hpayload : ClientKeyShare.unmarshalData (Value.clientKeyShare found).toRaw.data =
          .ok found := by
        rw [Value.toRaw, Value.payload_eq hdata]
        exact ClientKeyShare.marshal_iff.mp hdata
      rw [hpayload, Except.ok.injEq]
      constructor
      · rintro rfl
        exact hv
      · intro hin
        have hsame := inj_on_of_nodup_map hnodup hv hin rfl
        exact Value.clientKeyShare.inj hsame
  rw [validateRetryKeyShare, skip_eq_ok, not_not]
  refine imp_congr_right fun _ => ?_
  constructor
  · intro h
    split at h
    · rename_i share hone
      split at h
      · rename_i hgroup
        refine ⟨share.keyExchange, ?_⟩
        rw [← hgroup]
        exact (hshares [share] (by simp)).mp hone
      · cases h
    · cases h
  · rintro ⟨key, hin⟩
    rw [(hshares _ (by simp)).mpr hin]
    simp

theorem validateRetryCookie_eq_ok (hm : m.Canonical)
    (hnodup : (m.extensions.map (·.extensionType)).Nodup) :
    validateRetryCookie m.snapshot request = .ok () ↔
      (request.hasCookie → .cookie request.cookie ∈ m.extensions) := by
  rw [validateRetryCookie, skip_eq_ok, not_not]
  refine imp_congr_right fun _ => ?_
  constructor
  · intro h
    split at h
    · rename_i raw payload hraw hpayload
      obtain ⟨v, hv, htype, rfl⟩ := (extension_snapshot hnodup).mp hraw
      obtain ⟨c, rfl⟩ := (hm.stable v hv).eq_cookie htype
      obtain ⟨data, hdata, -⟩ := hm.stable _ hv
      split at h
      · rename_i hsame
        have hread := Cookie.marshal_iff.mp hpayload
        rw [← hsame, Value.toRaw, Value.payload_eq hdata, Cookie.marshal_iff.mp hdata,
          Except.ok.injEq] at hread
        rw [← hread]
        exact hv
      · cases h
    · cases h
  · intro hin
    obtain ⟨data, hdata, -⟩ := hm.stable _ hin
    have hfind : m.snapshot.extension typeCookie = some (Value.cookie request.cookie).toRaw :=
      (extension_snapshot hnodup).mpr ⟨_, hin, rfl, rfl⟩
    have hmarshal : Cookie.marshalData request.cookie = .ok data := hdata
    rw [hfind, hmarshal]
    simp [Value.toRaw, Value.payload_eq hdata]

/-- **The check accepts exactly the authorised changes.** -/
theorem validateClientHelloRetry_eq_ok {first second : MessageClientHello}
    (hsecond : second.Canonical) (hnodup : (second.extensions.map (·.extensionType)).Nodup) :
    validateClientHelloRetry first.snapshot second.snapshot request = .ok () ↔
      request.valid ∧ request.Authorises first second := by
  have hhead : ∀ m : MessageClientHello,
      m.snapshot.body.take m.snapshot.extensionOffset = m.head := by
    intro m
    simp [MessageClientHello.snapshot]
  have hmatch : retryExtensionsMatch first.snapshot second.snapshot request ↔
      (second.extensions.filter (request.compares ·.extensionType)).map Value.toRaw =
        (first.extensions.filter fun v =>
          v.extensionType ≠ typeEarlyData ∧ request.compares v.extensionType).map Value.toRaw := by
    rw [← comparableRetryExtensions_second, ← comparableRetryExtensions_first]
    rw [retryExtensionsMatch, decide_eq_true_eq]
    exact eq_comm
  rw [validateClientHelloRetry, guard_eq_ok, validateRetryClientHello, guard_eq_ok, hhead, hhead,
    check_bind_eq_ok, check_bind_eq_ok, validateRetryKeyShare_eq_ok hsecond hnodup,
    validateRetryCookie_eq_ok hsecond hnodup, not_not]
  simp only [first.valid_snapshot, second.valid_snapshot, not_true_eq_false, false_or, not_not]
  constructor
  · rintro ⟨hvalid, hsame, hshare, hcookie, hrest⟩
    refine ⟨hvalid, hsame.symm, hshare, hcookie, hmatch.mp ?_⟩
    by_contra hno
    rw [if_neg hno] at hrest
    cases hrest
  · rintro ⟨hvalid, h⟩
    refine ⟨hvalid, h.head.symm, h.share, h.cookie, ?_⟩
    rw [if_pos (hmatch.mpr h.rest)]

end HeadlessClient.DTLS
