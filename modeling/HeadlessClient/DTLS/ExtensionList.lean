import HeadlessClient.DTLS.Extension
import Mathlib.Data.List.Nodup

/-!
# DTLS — extension lists

The extension block of a hello: its framing (`ParseList`, `PrepareList`), the
checks on its shape (`validateRawExtensionBlock`) and the checks between
extensions (`validateExtensionDependencies`).

For a list of STABLE values the block is a bijection up to those checks: it is
written whenever it fits into 65535 bytes (`marshalList_eq_ok`), and reading it
returns the same values iff the list is acceptable (`decodeExtensionList_marshal`).
Acceptable (`Acceptable`) is a property of the values alone.
-/

namespace HeadlessClient.DTLS

open Base Wire List

/-! ## Framing -/

/-- The wire form of an extension. -/
def Raw.put (r : Raw) : Bytes := putUint16 r.typ ++ vec 2 r.data

theorem Raw.put_ne_nil (r : Raw) : r.put ≠ [] := by
  simp [Raw.put, vec_ne_nil]

theorem Raw.length_put (r : Raw) : r.put.length = 4 + r.data.length := by
  simp only [Raw.put, length_append, length_putUint16, length_vec]
  omega

/-- The loop body of `ParseList`. -/
def readRaw (_ : List Raw) (data : Bytes) : Except Error (Raw × Bytes) :=
  if data.length < 4 then fail .bufferTooSmall
  else
    let typ := getUint16 data
    let payloadLen := getUint ((data.drop 2).take 2)
    let rest := data.drop 4
    if rest.length < payloadLen then fail .lengthMismatch
    else .ok (⟨typ, rest.take payloadLen⟩, rest.drop payloadLen)

def parseList (buf : Bytes) : Except Error (List Raw) :=
  if buf.length < 2 then fail .bufferTooSmall
  else if getUint (buf.take 2) ≠ buf.length - 2 then fail .lengthMismatch
  else readList readRaw (buf.drop 2)

/-- The loop body of `PrepareList`. -/
def prepareExtension (_ : List Value) (value : Value) : Except Error Bytes := do
  let payload ← value.marshalData
  if payload.length ≠ value.marshalSize then fail .lengthMismatch
  else if 0xffff < payload.length then fail .invalidExtensionsLength
  else .ok (Raw.put ⟨value.extensionType, payload⟩)

/-- `PrepareList` and `PreparedList.MarshalTo`. -/
def marshalList (values : List Value) : Except Error Bytes := do
  let entries ← writeList 0xffff (.sentinel .invalidExtensionsLength) prepareExtension values
  .ok (vec 2 entries)

def marshalListSize (values : List Value) : Nat :=
  2 + (values.map (4 + ·.marshalSize)).sum

variable {data : Bytes} {raws : List Raw} {v : Value} {values : List Value}
  {context : ExtensionContext}

theorem readRaw_eq_ok {acc : List Raw} {rest : Bytes} {r : Raw} :
    readRaw acc data = .ok (r, rest) ↔ r.data.length ≤ 0xffff ∧ data = r.put ++ rest := by
  obtain ⟨typ, payload⟩ := r
  rw [Raw.put, ← putUint16_vec_append_iff]
  simp only [readRaw, fail_guard, Except.ok.injEq, Prod.mk.injEq, Raw.mk.injEq, Nat.not_lt,
    and_assoc]

theorem parseList_eq_ok {buf : Bytes} :
    parseList buf = .ok raws ↔
      (raws.flatMap Raw.put).length ≤ 0xffff ∧ buf = vec 2 (raws.flatMap Raw.put) := by
  have hsmall : (raws.flatMap Raw.put).length ≤ 0xffff → ∀ r ∈ raws, r.data.length ≤ 0xffff := by
    intro hle r hr
    have hput : r.put.length ≤ (raws.flatMap Raw.put).length := length_put_le hr
    rw [r.length_put] at hput
    omega
  rw [parseList, fail_guard, fail_guard, readList_eq_ok Raw.put_ne_nil fun _ _ _ _ => readRaw_eq_ok,
    follows_const]
  constructor
  · rintro ⟨htwo, hlen, -, hbody⟩
    obtain ⟨hlt, hbuf⟩ := vec_iff.mp ⟨Nat.not_lt.mp htwo, not_not.mp hlen, hbody⟩
    exact ⟨by omega, hbuf⟩
  · rintro ⟨hle, hbuf⟩
    obtain ⟨htwo, hlen, hbody⟩ := vec_iff.mpr
      ⟨show (raws.flatMap Raw.put).length < 256 ^ 2 by omega, hbuf⟩
    exact ⟨Nat.not_lt.mpr htwo, not_not.mpr hlen, hsmall hle, hbody⟩

/-- The bytes `MarshalData` returns, when it does. -/
def Value.payload (v : Value) : Bytes := (v.marshalData).toOption.getD []

/-- The value as it stands on the wire. -/
def Value.toRaw (v : Value) : Raw := ⟨v.extensionType, v.payload⟩

@[simp] theorem Value.typ_toRaw (v : Value) : v.toRaw.typ = v.extensionType := rfl

theorem Value.payload_eq (h : v.marshalData = .ok data) : v.payload = data := by
  simp [Value.payload, h, Except.toOption]

theorem Value.Stable.length_payload (h : v.Stable) : v.payload.length = v.marshalSize := by
  obtain ⟨data, hdata, -⟩ := h
  rw [Value.payload_eq hdata, Value.length_of_marshalData hdata]

theorem Value.Stable.decode (h : v.Stable) : decodeExtension .clientHello v.toRaw = .ok v := by
  obtain ⟨data, hdata, hdecode⟩ := h
  rw [Value.toRaw, Value.payload_eq hdata, hdecode]

theorem prepareExtension_eq_ok (acc : List Value) (v : Value) (bytes : Bytes) :
    prepareExtension acc v = .ok bytes ↔
      (v.marshalData.isOk ∧ v.payload.length ≤ 0xffff) ∧ bytes = v.toRaw.put := by
  rw [prepareExtension, bind_eq_ok]
  constructor
  · rintro ⟨payload, hpayload, h⟩
    rw [fail_guard, fail_guard, Except.ok.injEq] at h
    obtain ⟨-, hle, rfl⟩ := h
    rw [Value.toRaw, Value.payload_eq hpayload]
    exact ⟨⟨by simp [hpayload, Except.isOk, Except.toBool], by omega⟩, rfl⟩
  · rintro ⟨⟨hok, hle⟩, rfl⟩
    cases hpayload : v.marshalData with
    | error e => simp [hpayload, Except.isOk, Except.toBool] at hok
    | ok payload =>
      rw [Value.payload_eq hpayload] at hle
      refine ⟨payload, rfl, ?_⟩
      rw [fail_guard, fail_guard, Value.toRaw, Value.payload_eq hpayload]
      exact ⟨not_not.mpr (Value.length_of_marshalData hpayload), by omega, rfl⟩

theorem length_flatMap_toRaw (hstable : ∀ v ∈ values, v.Stable) :
    ((values.map Value.toRaw).flatMap Raw.put).length + 2 = marshalListSize values := by
  have hsizes : (values.map Value.toRaw).map (fun r => r.put.length) =
      values.map (4 + ·.marshalSize) := by
    rw [map_map]
    refine map_congr_left fun v hv => ?_
    simp only [Function.comp, Raw.length_put, Value.toRaw, (hstable v hv).length_payload]
  rw [length_flatMap, hsizes, marshalListSize, Nat.add_comm]

/-- **Stable values are written iff their block fits.** -/
theorem marshalList_eq_ok (hstable : ∀ v ∈ values, v.Stable) {out : Bytes} :
    marshalList values = .ok out ↔
      marshalListSize values ≤ 2 + 0xffff ∧
        out = vec 2 ((values.map Value.toRaw).flatMap Raw.put) := by
  have hflat :
      values.flatMap (fun v => v.toRaw.put) = (values.map Value.toRaw).flatMap Raw.put := by
    rw [flatMap_map]
  have hsize := length_flatMap_toRaw hstable
  rw [marshalList, bind_eq_ok]
  simp only [writeList_eq_ok prepareExtension_eq_ok, follows_const, hflat, Except.ok.injEq]
  constructor
  · rintro ⟨entries, ⟨-, rfl, hle⟩, rfl⟩
    exact ⟨by omega, rfl⟩
  · rintro ⟨hle, rfl⟩
    refine ⟨_, ⟨fun v hv => ⟨?_, ?_⟩, rfl, by omega⟩, rfl⟩
    · obtain ⟨data, hdata, -⟩ := hstable v hv
      simp [hdata, Except.isOk, Except.toBool]
    · have hput : v.toRaw.put.length ≤ ((values.map Value.toRaw).flatMap Raw.put).length :=
        length_put_le (mem_map_of_mem hv)
      rw [Raw.length_put] at hput
      change 4 + v.payload.length ≤ _ at hput
      omega

theorem marshalData_of_marshalList {out : Bytes} (h : marshalList values = .ok out)
    (hv : v ∈ values) : ∃ data, v.marshalData = .ok data := by
  obtain ⟨entries, hentries, -⟩ := bind_eq_ok.mp h
  have hall := ((writeList_eq_ok prepareExtension_eq_ok).mp hentries).1
  rw [follows_const] at hall
  have hok := (hall v hv).1
  cases hdata : v.marshalData with
  | error e => simp [hdata, Except.isOk, Except.toBool] at hok
  | ok data => exact ⟨data, rfl⟩

/-! ## The shape of a block -/

/-- The first loop of `validateRawExtensionBlock`, with the types seen before. -/
def rejectDuplicates (context : ExtensionContext) : List UInt16 → List Raw → Except Error Unit
  | _, [] => .ok ()
  | seen, raw :: rest =>
    if raw.typ ∈ seen then
      .error (.extension raw.typ context (.sentinel .duplicateExtension) .illegalParameter)
    else rejectDuplicates context (raw.typ :: seen) rest

/-- The second loop: nothing may follow `pre_shared_key`. -/
def rejectEarlyPreSharedKey (context : ExtensionContext) : List Raw → Except Error Unit
  | raw :: next :: rest =>
    if raw.typ = typePreSharedKey then
      .error (.extension raw.typ context (.sentinel .preSharedKeyNotLast) .illegalParameter)
    else rejectEarlyPreSharedKey context (next :: rest)
  | _ => .ok ()

/-- A type that the message may carry: an unknown one, or one with a reader. -/
def allowedIn (context : ExtensionContext) (typ : UInt16) : Bool :=
  match extensionRegistry.lookup typ with
  | none => true
  | some contexts => (contexts context).isSome

/-- The third loop. -/
def rejectForeign (context : ExtensionContext) : List Raw → Except Error Unit
  | [] => .ok ()
  | raw :: rest =>
    if allowedIn context raw.typ then rejectForeign context rest
    else .error (notAllowed raw.typ context)

def validateRawExtensionBlock (raws : List Raw) (context : ExtensionContext) :
    Except Error Unit := do
  rejectDuplicates context [] raws
  match context with
  | .clientHello => rejectEarlyPreSharedKey context raws
  | .helloRetryRequest => .ok ()
  rejectForeign context raws

theorem rejectDuplicates_eq_ok {seen : List UInt16} :
    rejectDuplicates context seen raws = .ok () ↔
      (raws.map (·.typ)).Nodup ∧ ∀ r ∈ raws, r.typ ∉ seen := by
  induction raws generalizing seen with
  | nil => simp [rejectDuplicates]
  | cons raw rest ih =>
    rw [rejectDuplicates, guard_eq_ok, ih, map_cons, nodup_cons, forall_mem_cons]
    simp only [mem_map, mem_cons, not_or, not_exists, not_and]
    constructor
    · rintro ⟨hseen, hnodup, hrest⟩
      exact ⟨⟨fun r hr => (hrest r hr).1, hnodup⟩, hseen, fun r hr => (hrest r hr).2⟩
    · rintro ⟨⟨hnew, hnodup⟩, hseen, hrest⟩
      exact ⟨hseen, hnodup, fun r hr => ⟨hnew r hr, hrest r hr⟩⟩

theorem rejectEarlyPreSharedKey_eq_ok :
    rejectEarlyPreSharedKey context raws = .ok () ↔
      typePreSharedKey ∉ (raws.map (·.typ)).dropLast := by
  induction raws with
  | nil => simp [rejectEarlyPreSharedKey]
  | cons raw rest ih =>
    cases rest with
    | nil => simp [rejectEarlyPreSharedKey]
    | cons next rest =>
      rw [rejectEarlyPreSharedKey, guard_eq_ok, ih]
      simp only [map_cons, dropLast_cons_cons, mem_cons, not_or]
      exact and_congr_left fun _ => not_congr eq_comm

theorem rejectForeign_eq_ok :
    rejectForeign context raws = .ok () ↔ ∀ r ∈ raws, allowedIn context r.typ := by
  induction raws with
  | nil => simp [rejectForeign]
  | cons raw rest ih =>
    rw [rejectForeign, forall_mem_cons]
    by_cases hallowed : allowedIn context raw.typ
    · simp [hallowed, ih]
    · simp [hallowed]

/-- A well-shaped list of types: no type twice, `pre_shared_key` only at the end. -/
structure WellShaped (types : List UInt16) : Prop where
  nodup : types.Nodup
  pskLast : typePreSharedKey ∉ types.dropLast

theorem validateRawExtensionBlock_eq_ok :
    validateRawExtensionBlock raws .clientHello = .ok () ↔
      WellShaped (raws.map (·.typ)) ∧ ∀ r ∈ raws, allowedIn .clientHello r.typ := by
  rw [validateRawExtensionBlock, check_bind_eq_ok, check_bind_eq_ok, rejectDuplicates_eq_ok,
    rejectEarlyPreSharedKey_eq_ok, rejectForeign_eq_ok]
  constructor
  · rintro ⟨⟨hnodup, -⟩, hpsk, hallowed⟩
    exact ⟨⟨hnodup, hpsk⟩, hallowed⟩
  · rintro ⟨hshape, hallowed⟩
    exact ⟨⟨hshape.nodup, by simp⟩, hshape.pskLast, hallowed⟩

/-! ## Dependencies between extensions -/

/-- A `*extension.SupportedGroups`. -/
def Value.supportedGroups? : Value → Option (List UInt16)
  | .supportedGroups groups => some groups
  | _ => none

/-- A `*extension13.ClientKeyShare`. -/
def Value.clientKeyShare? : Value → Option (List KeyShareEntry)
  | .clientKeyShare shares => some shares
  | _ => none

/-- A `*extension13.OfferedVersions`. -/
def Value.offeredVersions? : Value → Option (List UInt16)
  | .offeredVersions versions => some versions
  | _ => none

/-- `extensionDependencyValues`. -/
structure Dependencies where
  present : UInt16 → Bool
  groups : Option (List UInt16)
  keyShare : Option (List KeyShareEntry)
  versions : Option (List UInt16)

/-- `collectExtensionDependencies`: the last extension of a type counts. -/
def collectExtensionDependencies (values : List Value) : Dependencies where
  present typ := values.any (·.extensionType = typ)
  groups := (values.filterMap Value.supportedGroups?).getLast?
  keyShare := (values.filterMap Value.clientKeyShare?).getLast?
  versions := (values.filterMap Value.offeredVersions?).getLast?

theorem getLast?_filterMap_eq_some {α : Type} (hnodup : (values.map (·.extensionType)).Nodup)
    {read : Value → Option α} {make : α → Value} (hread : ∀ v a, read v = some a ↔ v = make a)
    (htype : ∀ a b, (make a).extensionType = (make b).extensionType) {a : α} :
    (values.filterMap read).getLast? = some a ↔ make a ∈ values := by
  have hmem : ∀ b, b ∈ values.filterMap read ↔ make b ∈ values := by
    intro b
    simp only [mem_filterMap, hread]
    exact ⟨fun ⟨v, hv, heq⟩ => heq ▸ hv, fun hv => ⟨_, hv, rfl⟩⟩
  constructor
  · intro hlast
    exact (hmem a).mp (mem_of_getLast? hlast)
  · intro ha
    cases hlast : (values.filterMap read).getLast? with
    | none =>
      rw [getLast?_eq_none_iff] at hlast
      have hin := (hmem a).mpr ha
      simp [hlast] at hin
    | some b =>
      have hb := (hmem b).mp (mem_of_getLast? hlast)
      have hsame := inj_on_of_nodup_map hnodup hb ha (htype b a)
      have hba : read (make b) = some a := (hread _ _).mpr hsame
      rw [(hread _ b).mpr rfl] at hba
      exact hba

theorem collect_groups (hnodup : (values.map (·.extensionType)).Nodup) {groups : List UInt16} :
    (collectExtensionDependencies values).groups = some groups ↔ .supportedGroups groups ∈ values :=
  getLast?_filterMap_eq_some hnodup
    (fun v a => by cases v <;> simp [Value.supportedGroups?]) fun _ _ => rfl

theorem collect_keyShare (hnodup : (values.map (·.extensionType)).Nodup)
    {shares : List KeyShareEntry} :
    (collectExtensionDependencies values).keyShare = some shares ↔
      .clientKeyShare shares ∈ values :=
  getLast?_filterMap_eq_some hnodup
    (fun v a => by cases v <;> simp [Value.clientKeyShare?]) fun _ _ => rfl

theorem collect_versions (hnodup : (values.map (·.extensionType)).Nodup) {versions : List UInt16} :
    (collectExtensionDependencies values).versions = some versions ↔
      .offeredVersions versions ∈ values :=
  getLast?_filterMap_eq_some hnodup
    (fun v a => by cases v <;> simp [Value.offeredVersions?]) fun _ _ => rfl

theorem collect_present {typ : UInt16} :
    (collectExtensionDependencies values).present typ ↔ ∃ v ∈ values, v.extensionType = typ := by
  simp [collectExtensionDependencies]

theorem collect_perm {as bs : List Value} (hperm : as.Perm bs)
    (hnodup : (as.map (·.extensionType)).Nodup) :
    collectExtensionDependencies as = collectExtensionDependencies bs := by
  have hnodup' : (bs.map (·.extensionType)).Nodup := (hperm.map _).nodup_iff.mp hnodup
  have hpresent : (collectExtensionDependencies as).present =
      (collectExtensionDependencies bs).present := by
    funext typ
    rw [Bool.eq_iff_iff, collect_present, collect_present]
    simp only [hperm.mem_iff]
  have hgroups : (collectExtensionDependencies as).groups =
      (collectExtensionDependencies bs).groups :=
    Option.ext fun _ => by rw [collect_groups hnodup, collect_groups hnodup', hperm.mem_iff]
  have hkeyShare : (collectExtensionDependencies as).keyShare =
      (collectExtensionDependencies bs).keyShare :=
    Option.ext fun _ => by rw [collect_keyShare hnodup, collect_keyShare hnodup', hperm.mem_iff]
  have hversions : (collectExtensionDependencies as).versions =
      (collectExtensionDependencies bs).versions :=
    Option.ext fun _ => by rw [collect_versions hnodup, collect_versions hnodup', hperm.mem_iff]
  exact Dependencies.mk.injEq .. |>.mpr ⟨hpresent, hgroups, hkeyShare, hversions⟩

/-- `validateSupportedGroups`; the loop of `supportedGroupsUnique` looks for a
group it has seen. -/
def validateSupportedGroups (groups : Option (List UInt16)) (context : ExtensionContext) :
    Except Error Unit :=
  match groups with
  | none => .ok ()
  | some groups =>
    if groups.Nodup then .ok ()
    else .error (.extension typeSupportedGroups context (.sentinel .duplicateSupportedGroup)
      .illegalParameter)

def validatePSKDependencies (d : Dependencies) : Except Error Unit :=
  if d.present typePreSharedKey ∧ ¬d.present typePSKKeyExchangeModes then
    .error (.extension typePSKKeyExchangeModes .clientHello
      (.sentinel .missingPSKKeyExchangeModesExtension) .missingExtension)
  else if d.present typeEarlyData ∧ ¬d.present typePreSharedKey then
    .error (.extension typeEarlyData .clientHello (.sentinel .earlyDataWithoutPreSharedKey)
      .illegalParameter)
  else .ok ()

/-- `protocol.Version1_3`. -/
def version1_3 : UInt16 := 0xfefc

def Dependencies.attempts13 (d : Dependencies) : Bool :=
  match d.versions with
  | none => false
  | some versions => versions.contains version1_3

def validateTLS13ClientHelloDependencies (d : Dependencies) : Except Error Unit :=
  if ¬d.attempts13 then .ok ()
  else if d.groups.isSome ∧ d.keyShare.isNone then
    .error (.extension typeKeyShare .clientHello (.sentinel .supportedGroupsWithoutKeyShare)
      .missingExtension)
  else if d.keyShare.isSome ∧ d.groups.isNone then
    .error (.extension typeSupportedGroups .clientHello (.sentinel .keyShareWithoutSupportedGroups)
      .missingExtension)
  else if d.present typePreSharedKey ∨ (d.present typeSignatureAlgorithms ∧ d.groups.isSome) then
    .ok ()
  else .error (.extensions .clientHello (.sentinel .missingClientHelloExtension) .missingExtension)

/-- `keyShareGroupsFollowSupportedGroups`: each share's group is searched for
behind the one found before it. -/
def keyShareGroupsFollowSupportedGroups : List KeyShareEntry → List UInt16 → Bool
  | [], _ => true
  | share :: shares, groups =>
    match groups.dropWhile (· ≠ share.group) with
    | [] => false
    | _ :: rest => keyShareGroupsFollowSupportedGroups shares rest

def validateKeyShareGroups (d : Dependencies) : Except Error Unit :=
  match d.keyShare, d.groups with
  | some shares, some groups =>
    if keyShareGroupsFollowSupportedGroups shares groups then .ok ()
    else .error (.extension typeKeyShare .clientHello (.sentinel .keyShareGroupNotOffered)
      .illegalParameter)
  | _, _ => .ok ()

/-- The check for `return_routability_check` in `validateClientHelloDependencies`. -/
def validateReturnRoutability (d : Dependencies) : Except Error Unit :=
  if d.present typeReturnRoutabilityCheck ∧ ¬d.present typeConnectionID then
    .error (.requires typeReturnRoutabilityCheck .clientHello typeConnectionID
      (.sentinel .missingConnectionIDExtension) .missingExtension)
  else .ok ()

def validateClientHelloDependencies (d : Dependencies) : Except Error Unit := do
  validatePSKDependencies d
  validateReturnRoutability d
  validateTLS13ClientHelloDependencies d
  validateKeyShareGroups d

def validateHelloRetryRequestDependencies (d : Dependencies) : Except Error Unit :=
  if d.present typeSupportedVersions then .ok ()
  else .error (.extension typeSupportedVersions .helloRetryRequest
    (.sentinel .missingSupportedVersionsExtension) .missingExtension)

def validateExtensionDependencies (values : List Value) (context : ExtensionContext) :
    Except Error Unit := do
  let d := collectExtensionDependencies values
  validateSupportedGroups d.groups context
  match context with
  | .clientHello => validateClientHelloDependencies d
  | .helloRetryRequest => validateHelloRetryRequestDependencies d

/-- What `validateExtensionDependencies` asks of a ClientHello. -/
structure Dependencies.Met (d : Dependencies) : Prop where
  groupsUnique : ∀ groups, d.groups = some groups → groups.Nodup
  pskModes : d.present typePreSharedKey → d.present typePSKKeyExchangeModes
  earlyData : d.present typeEarlyData → d.present typePreSharedKey
  routability : d.present typeReturnRoutabilityCheck → d.present typeConnectionID
  shareOfGroups : d.attempts13 → d.groups.isSome → d.keyShare.isSome
  groupsOfShare : d.attempts13 → d.keyShare.isSome → d.groups.isSome
  authenticated : d.attempts13 →
    d.present typePreSharedKey ∨ (d.present typeSignatureAlgorithms ∧ d.groups.isSome)
  sharesFollow : ∀ shares groups, d.keyShare = some shares → d.groups = some groups →
    keyShareGroupsFollowSupportedGroups shares groups

theorem validateSupportedGroups_eq_ok {groups : Option (List UInt16)} :
    validateSupportedGroups groups context = .ok () ↔ ∀ gs, groups = some gs → gs.Nodup := by
  cases groups with
  | none => simp [validateSupportedGroups]
  | some gs => simp [validateSupportedGroups]

theorem validateKeyShareGroups_eq_ok {d : Dependencies} :
    validateKeyShareGroups d = .ok () ↔ ∀ shares groups, d.keyShare = some shares →
      d.groups = some groups → keyShareGroupsFollowSupportedGroups shares groups := by
  unfold validateKeyShareGroups
  cases d.keyShare with
  | none => simp
  | some shares =>
    cases d.groups with
    | none => simp
    | some groups => simp

theorem validateTLS13ClientHelloDependencies_eq_ok {d : Dependencies} :
    validateTLS13ClientHelloDependencies d = .ok () ↔ (d.attempts13 →
      ((d.groups.isSome → d.keyShare.isSome) ∧ (d.keyShare.isSome → d.groups.isSome)) ∧
        (d.present typePreSharedKey ∨ (d.present typeSignatureAlgorithms ∧ d.groups.isSome))) := by
  rw [validateTLS13ClientHelloDependencies, skip_eq_ok, not_not, guard_eq_ok, guard_eq_ok,
    skip_eq_ok]
  refine imp_congr_right fun _ => ?_
  cases d.groups with
  | none => cases d.keyShare <;> simp
  | some groups =>
    cases d.keyShare with
    | none => simp
    | some shares => simp [or_iff_not_imp_left]

theorem validateExtensionDependencies_eq_ok :
    validateExtensionDependencies values .clientHello = .ok () ↔
      (collectExtensionDependencies values).Met := by
  simp only [validateExtensionDependencies, validateClientHelloDependencies,
    validatePSKDependencies, validateReturnRoutability, check_bind_eq_ok, guard_eq_ok,
    validateSupportedGroups_eq_ok, validateTLS13ClientHelloDependencies_eq_ok,
    validateKeyShareGroups_eq_ok, not_and, not_not]
  constructor
  · rintro ⟨hgroups, ⟨hmodes, hearly, -⟩, ⟨hroute, -⟩, h13, hfollow⟩
    exact ⟨hgroups, hmodes, hearly, hroute, fun h => (h13 h).1.1, fun h => (h13 h).1.2,
      fun h => (h13 h).2, hfollow⟩
  · intro h
    exact ⟨h.groupsUnique, ⟨h.pskModes, h.earlyData, trivial⟩, ⟨h.routability, trivial⟩,
      fun h13 => ⟨⟨h.shareOfGroups h13, h.groupsOfShare h13⟩, h.authenticated h13⟩,
      h.sharesFollow⟩

/-! ## Reading a block -/

/-- The loop of `decodeRawExtensions`. -/
def decodeExtensions (context : ExtensionContext) : List Raw → Except Error (List Value)
  | [] => .ok []
  | raw :: rest => do
      let value ← decodeExtension context raw
      let values ← decodeExtensions context rest
      .ok (value :: values)

def decodeRawExtensions (raws : List Raw) (context : ExtensionContext) :
    Except Error (List Value) := do
  validateRawExtensionBlock raws context
  let values ← decodeExtensions context raws
  validateExtensionDependencies values context
  .ok values

def decodeExtensionList (data : Bytes) (context : ExtensionContext) :
    Except Error (List Value) :=
  match parseList data with
  | .error e => .error (.extensions context e .decodeError)
  | .ok raws => decodeRawExtensions raws context

/-- An acceptable list of ClientHello extensions. -/
structure Acceptable (values : List Value) : Prop where
  shape : WellShaped (values.map (·.extensionType))
  met : (collectExtensionDependencies values).Met

theorem Acceptable.perm {as bs : List Value} (h : Acceptable as) (hperm : as.Perm bs)
    (hpsk : typePreSharedKey ∉ (bs.map (·.extensionType)).dropLast) : Acceptable bs where
  shape := ⟨(hperm.map _).nodup_iff.mp h.shape.nodup, hpsk⟩
  met := collect_perm hperm h.shape.nodup ▸ h.met

theorem decodeExtensions_stable (h : decodeExtensions .clientHello raws = .ok values) :
    (∀ v ∈ values, v.Stable) ∧ values.map (·.extensionType) = raws.map (·.typ) := by
  induction raws generalizing values with
  | nil =>
    cases h
    simp
  | cons raw rest ih =>
    rw [decodeExtensions, bind_eq_ok] at h
    obtain ⟨v, hv, hrest⟩ := h
    obtain ⟨vs, hvs, hvalues⟩ := bind_eq_ok.mp hrest
    cases hvalues
    obtain ⟨htype, hstable⟩ := decodeExtension_stable hv
    obtain ⟨hstables, htypes⟩ := ih hvs
    exact ⟨forall_mem_cons.mpr ⟨hstable, hstables⟩, by simp [htype, htypes]⟩

theorem decodeExtensions_toRaw (hstable : ∀ v ∈ values, v.Stable) :
    decodeExtensions .clientHello (values.map Value.toRaw) = .ok values := by
  induction values with
  | nil => rfl
  | cons v vs ih =>
    obtain ⟨hv, hvs⟩ := forall_mem_cons.mp hstable
    rw [map_cons, decodeExtensions, hv.decode, ok_bind, ih hvs, ok_bind]

theorem Value.Stable.allowed (h : v.Stable) : allowedIn .clientHello v.extensionType := by
  obtain ⟨data, -, hdecode⟩ := h
  unfold allowedIn
  rcases decodeExtension_cases hdecode with ⟨hlookup, -⟩ |
    ⟨contexts, factory, hlookup, -, hfactory, -⟩
  · simp only [hlookup]
  · simp only [hlookup, hfactory, Option.isSome_some]

/-- **What a block decodes to is stable and acceptable.** -/
theorem decodeExtensionList_eq_ok (h : decodeExtensionList data .clientHello = .ok values) :
    (∀ v ∈ values, v.Stable) ∧ Acceptable values := by
  unfold decodeExtensionList at h
  split at h
  · cases h
  · rename_i raws hraws
    rw [decodeRawExtensions, check_bind_eq_ok, bind_eq_ok] at h
    obtain ⟨hblock, vs, hvs, hrest⟩ := h
    obtain ⟨hdeps, hvalues⟩ := check_bind_eq_ok.mp hrest
    cases hvalues
    obtain ⟨hstable, htypes⟩ := decodeExtensions_stable hvs
    refine ⟨hstable, ?_, validateExtensionDependencies_eq_ok.mp hdeps⟩
    rw [htypes]
    exact (validateRawExtensionBlock_eq_ok.mp hblock).1

/-- **The written block of stable values decodes to them, iff they are acceptable.** -/
theorem decodeExtensionList_marshal {res : List Value} (hstable : ∀ v ∈ values, v.Stable)
    (hdata : marshalList values = .ok data) :
    decodeExtensionList data .clientHello = .ok res ↔ Acceptable values ∧ res = values := by
  obtain ⟨hsize, rfl⟩ := (marshalList_eq_ok hstable).mp hdata
  have hlen := length_flatMap_toRaw hstable
  have hparse : parseList (vec 2 ((values.map Value.toRaw).flatMap Raw.put)) =
      .ok (values.map Value.toRaw) := parseList_eq_ok.mpr ⟨by omega, rfl⟩
  have htypes : (values.map Value.toRaw).map (·.typ) = values.map (·.extensionType) := by
    rw [map_map]
    rfl
  have hallowed : ∀ r ∈ values.map Value.toRaw, allowedIn .clientHello r.typ := by
    intro r hr
    obtain ⟨v, hv, rfl⟩ := mem_map.mp hr
    exact (hstable v hv).allowed
  rw [decodeExtensionList, hparse]
  simp only [decodeRawExtensions, check_bind_eq_ok, validateRawExtensionBlock_eq_ok, htypes,
    decodeExtensions_toRaw hstable, ok_bind, validateExtensionDependencies_eq_ok, Except.ok.injEq]
  constructor
  · rintro ⟨⟨hshape, -⟩, hmet, rfl⟩
    exact ⟨⟨hshape, hmet⟩, rfl⟩
  · rintro ⟨hok, rfl⟩
    exact ⟨⟨hok.shape, hallowed⟩, hok.met, rfl⟩

end HeadlessClient.DTLS
