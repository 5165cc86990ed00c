import HeadlessClient.Base.Runtime
import HeadlessClient.DTLS.Hooks
import Mathlib.Data.List.Sort

/-!
# DTLS — the ServerHello, its hook and its guard

`dtlsServerHelloHook` sorts the extensions of a ServerHello by one of two tables, with
the generic `orderByCanonical`; `finalizeServerHello13` calls a hook on the DTLS 1.3
path and looks at what comes back.

The ordering is a CANONICAL FORM of a list with distinct keys: a permutation
(`orderByCanonical_perm`) that depends on the items and on the order of the untabled
ones, and on nothing else (`orderByCanonical_congr`); so doing it twice is doing it once.

The guard compares the extension TYPES. A hook is any function, and it gets the message
by value but its slices by reference: what it leaves of the caller's extensions is part
of its answer (`HookRun`).
-/

namespace HeadlessClient.DTLS

open Base Wire List

/-! ## Ordering by a table -/

section Canonical

variable {Item Key : Type} [DecidableEq Key] {keyOf : Item → Key}

def untabled (canonicalOrder : List Key) (keyOf : Item → Key) (item : Item) : Bool :=
  keyOf item ∉ canonicalOrder

/-- The items of the table, as `orderByCanonical` finds them. -/
def tabled (items : List Item) (canonicalOrder : List Key) (keyOf : Item → Key) : List Item :=
  canonicalOrder.filterMap fun key => items.reverse.find? (keyOf · = key)

theorem orderByCanonical_eq (items : List Item) (canonicalOrder : List Key) :
    orderByCanonical items canonicalOrder keyOf =
      tabled items canonicalOrder keyOf ++ items.filter (untabled canonicalOrder keyOf) := rfl

variable {items items' : List Item} {canonicalOrder : List Key}
  (hnodup : (items.map keyOf).Nodup)

include hnodup

theorem find?_key_iff {key : Key} {item : Item} :
    items.reverse.find? (keyOf · = key) = some item ↔ item ∈ items ∧ keyOf item = key := by
  have hinj := inj_on_of_nodup_map hnodup
  constructor
  · intro h
    exact ⟨mem_reverse.mp (mem_of_find?_eq_some h), by simpa using find?_some h⟩
  · intro h
    obtain ⟨hitem, rfl⟩ := h
    cases hfind : items.reverse.find? (keyOf · = keyOf item) with
    | none =>
      have hnone := find?_eq_none.mp hfind item (mem_reverse.mpr hitem)
      simp at hnone
    | some other =>
      have hother : other ∈ items := mem_reverse.mp (mem_of_find?_eq_some hfind)
      have hkey : keyOf other = keyOf item := by simpa using find?_some hfind
      rw [hinj hother hitem hkey]

theorem mem_tabled {item : Item} :
    item ∈ tabled items canonicalOrder keyOf ↔ item ∈ items ∧ keyOf item ∈ canonicalOrder := by
  rw [tabled, mem_filterMap]
  constructor
  · intro h
    obtain ⟨key, hkey, hfind⟩ := h
    obtain ⟨hitem, rfl⟩ := (find?_key_iff hnodup).mp hfind
    exact ⟨hitem, hkey⟩
  · intro h
    exact ⟨keyOf item, h.2, (find?_key_iff hnodup).mpr ⟨h.1, rfl⟩⟩

theorem map_tabled (canonicalOrder : List Key) :
    (tabled items canonicalOrder keyOf).map keyOf =
      canonicalOrder.filter (· ∈ items.map keyOf) := by
  induction canonicalOrder with
  | nil => rfl
  | cons key rest ih =>
    rw [tabled] at ih ⊢
    rw [filterMap_cons, filter_cons]
    cases hfind : items.reverse.find? (keyOf · = key) with
    | none =>
      have habsent : key ∉ items.map keyOf := by
        intro hin
        obtain ⟨item, hitem, hkey⟩ := mem_map.mp hin
        rw [(find?_key_iff hnodup).mpr ⟨hitem, hkey⟩] at hfind
        cases hfind
      rw [if_neg (by simpa using habsent)]
      exact ih
    | some item =>
      obtain ⟨hitem, hkey⟩ := (find?_key_iff hnodup).mp hfind
      have hpresent : key ∈ items.map keyOf := mem_map.mpr ⟨item, hitem, hkey⟩
      rw [if_pos (by simpa using hpresent), map_cons, hkey]
      exact congrArg (key :: ·) ih

/-- **Nothing is lost and nothing comes twice.** -/
theorem orderByCanonical_perm (horder : canonicalOrder.Nodup) :
    (orderByCanonical items canonicalOrder keyOf).Perm items := by
  rw [orderByCanonical_eq]
  have htabled : (tabled items canonicalOrder keyOf).Nodup := by
    apply List.Nodup.of_map keyOf
    rw [map_tabled hnodup]
    exact horder.filter _
  have hitems : items.Nodup := hnodup.of_map
  have hnew : (tabled items canonicalOrder keyOf ++
      items.filter (untabled canonicalOrder keyOf)).Nodup := by
    rw [nodup_append]
    refine ⟨htabled, hitems.filter _, ?_⟩
    intro a ha b hb hab
    have hin := ((mem_tabled hnodup).mp ha).2
    have hout := (mem_filter.mp hb).2
    rw [← hab] at hout
    exact absurd hin (by simpa [untabled] using hout)
  rw [perm_ext_iff_of_nodup hnew hitems]
  intro item
  rw [mem_append, mem_tabled hnodup, mem_filter]
  by_cases hkey : keyOf item ∈ canonicalOrder
  · simp [untabled, hkey]
  · simp [untabled, hkey]

/-- **The result is a function of the items and of the order of the untabled ones.** -/
theorem orderByCanonical_congr (hperm : items'.Perm items)
    (hrest : items'.filter (untabled canonicalOrder keyOf) =
      items.filter (untabled canonicalOrder keyOf)) :
    orderByCanonical items' canonicalOrder keyOf = orderByCanonical items canonicalOrder keyOf := by
  have hnodup' : (items'.map keyOf).Nodup := (hperm.map keyOf).nodup_iff.mpr hnodup
  have hfind : ∀ key, items'.reverse.find? (keyOf · = key) =
      items.reverse.find? (keyOf · = key) := by
    intro key
    apply Option.ext
    intro item
    rw [find?_key_iff hnodup', find?_key_iff hnodup, hperm.mem_iff]
  rw [orderByCanonical_eq, orderByCanonical_eq, hrest, tabled, tabled]
  simp only [hfind]

theorem filter_orderByCanonical (canonicalOrder : List Key) :
    (orderByCanonical items canonicalOrder keyOf).filter (untabled canonicalOrder keyOf) =
      items.filter (untabled canonicalOrder keyOf) := by
  have hnone : (tabled items canonicalOrder keyOf).filter (untabled canonicalOrder keyOf) = [] := by
    rw [filter_eq_nil_iff]
    intro item hitem
    simpa [untabled] using ((mem_tabled hnodup).mp hitem).2
  rw [orderByCanonical_eq, filter_append, hnone, filter_filter, nil_append]
  simp only [Bool.and_self]

end Canonical

/-! ## The message -/

/-- `extension.Value`, with the type assertion `value.(*extension.ConnectionID)`. -/
class ExtensionValue (V : Type) where
  extensionType : V → UInt16
  asConnectionID : V → Option Bytes

export ExtensionValue (extensionType asConnectionID)

/-- `handshake.MessageServerHello`, whole; a nil pointer is `none`. -/
structure ServerHello (V : Type) where
  version : UInt16
  random : Random
  sessionID : Bytes
  cipherSuiteID : Option UInt16
  compressionMethod : Option UInt8
  extensions : List V
deriving DecidableEq, Repr

variable {V : Type} [ExtensionValue V]

/-- What a hook can return as a `handshake.Message`. -/
inductive Message (V : Type) where
  | serverHello (m : ServerHello V)
  /-- A nil `*MessageServerHello`. -/
  | nilServerHello
  | other

/-- One call of a hook on a message with `n` extensions: what it returns, and what is
then in the caller's slice of extensions, which it may have written to. -/
structure HookRun (V : Type) (n : Nat) where
  returned : Message V
  left : List V
  length_left : left.length = n

/-- `func(handshake.MessageServerHello) handshake.Message`. -/
def ServerHelloHook (V : Type) : Type :=
  (m : ServerHello V) → HookRun V m.extensions.length

/-- A hook that returns a message and writes to nothing it was given. -/
def ServerHelloHook.of (f : ServerHello V → ServerHello V) : ServerHelloHook V :=
  fun m => { returned := .serverHello (f m), left := m.extensions, length_left := rfl }

/-! ## The hook -/

def chromeServerHelloExtensionOrder : List UInt16 := [23, 65281, 11, 14]

def chromeDTLS13ServerHelloExtensionOrder : List UInt16 := [51, 43]

def offersExtension (extensions : List V) (typ : UInt16) : Bool :=
  extensions.any (extensionType · = typ)

def orderExtensions (extensions : List V) (canonicalOrder : List UInt16) : List V :=
  orderByCanonical extensions canonicalOrder extensionType

/-- The table that `dtlsServerHelloHook` selects. -/
def serverHelloOrder (extensions : List V) : List UInt16 :=
  if offersExtension extensions typeSupportedVersions then chromeDTLS13ServerHelloExtensionOrder
  else chromeServerHelloExtensionOrder

def Profile.dtlsServerHelloHook (_ : Profile) (serverHello : ServerHello V) :
    ServerHello V :=
  { serverHello with
    extensions := orderExtensions serverHello.extensions (serverHelloOrder serverHello.extensions) }

/-! ## The guard -/

inductive ServerHelloError where
  | invalidServerHello
  /-- `"%w: hello hook returned %d bytes, want %d"`. -/
  | cidLength (got want : Nat)
  | panic (e : RuntimeError)
deriving DecidableEq, Repr

/-- The fields of `HandshakeConfig` that `finalizeServerHello13` reads. -/
structure ServerConfig (V : Type) where
  serverHelloMessageHook : Option (ServerHelloHook V)
  /-- `ConnectionIDGenerator != nil`. -/
  connectionIDGenerator : Bool
  receiveCIDLength : Nat

/-- `extensionTypes`: the types in ascending order. -/
def extensionTypes (values : List V) : List UInt16 :=
  (values.map extensionType).mergeSort (· ≤ ·)

/-- The loop of `ValidateHookedConnectionIDLength`. -/
def checkCIDLengths (want : Nat) : List V → Except ServerHelloError Unit
  | [] => .ok ()
  | value :: rest =>
    match asConnectionID value with
    | some cid =>
      if cid.length ≠ want then .error (.cidLength cid.length want)
      else checkCIDLengths want rest
    | none => checkCIDLengths want rest

/-- `ValidateHookedConnectionIDLength` with a hook configured. -/
def validateCIDLength (values : List V) (cfg : ServerConfig V) : Except ServerHelloError Unit :=
  if !cfg.connectionIDGenerator then .ok () else checkCIDLengths cfg.receiveCIDLength values

def finalizeServerHello13 (base : ServerHello V) (cfg : ServerConfig V) :
    Except ServerHelloError (ServerHello V) :=
  match cfg.serverHelloMessageHook with
  | none => .ok base
  | some hook =>
    let run := hook base
    match run.returned with
    | .other => .error .invalidServerHello
    -- `hooked.Extensions` reads through the pointer
    | .nilServerHello => .error (.panic .nilDereference)
    | .serverHello hooked =>
      -- the base is read AFTER the call
      if extensionTypes run.left ≠ extensionTypes hooked.extensions then
        .error .invalidServerHello
      else do
        validateCIDLength hooked.extensions cfg
        .ok hooked

/-! ### What the guard checks -/

variable {values : List V}

theorem extensionTypes_eq_iff {values' : List V} :
    extensionTypes values = extensionTypes values' ↔
      (values.map extensionType).Perm (values'.map extensionType) := by
  have hsort : ∀ l : List UInt16, (l.mergeSort (· ≤ ·)).Perm l := fun l => mergeSort_perm l _
  constructor
  · intro h
    have hleft := hsort (values.map extensionType)
    rw [show (values.map extensionType).mergeSort (· ≤ ·) =
      (values'.map extensionType).mergeSort (· ≤ ·) from h] at hleft
    exact hleft.symm.trans (hsort _)
  · intro h
    have hperm : (extensionTypes values).Perm (extensionTypes values') :=
      (hsort _).trans (h.trans (hsort _).symm)
    have hsorted : ∀ l : List V, (extensionTypes l).Pairwise (· ≤ ·) := by
      intro l
      have hpair : (extensionTypes l).Pairwise (fun a b => decide (a ≤ b) = true) :=
        pairwise_mergeSort (by simpa using fun a b c => UInt16.le_trans)
          (by simpa using fun a b => UInt16.le_total a b) (l.map extensionType)
      simpa only [decide_eq_true_eq] using hpair
    exact hperm.eq_of_pairwise (fun a b _ _ hab hba => UInt16.le_antisymm hab hba)
      (hsorted _) (hsorted _)

/-- Every connection ID has the configured length, where there is a generator. -/
def ServerConfig.CIDsFit (cfg : ServerConfig V) (values : List V) : Prop :=
  cfg.connectionIDGenerator = true →
    ∀ value ∈ values, ∀ cid, asConnectionID value = some cid → cid.length = cfg.receiveCIDLength

theorem checkCIDLengths_eq_ok {want : Nat} :
    checkCIDLengths want values = .ok () ↔
      ∀ value ∈ values, ∀ cid, asConnectionID value = some cid → cid.length = want := by
  induction values with
  | nil => simp [checkCIDLengths]
  | cons value rest ih =>
    rw [checkCIDLengths, forall_mem_cons]
    cases hcid : asConnectionID value with
    | none => simpa using ih
    | some cid =>
      by_cases hlength : cid.length = want
      · simpa [hlength] using ih
      · simp [hlength]

theorem validateCIDLength_eq_ok {cfg : ServerConfig V} :
    validateCIDLength values cfg = .ok () ↔ cfg.CIDsFit values := by
  rw [validateCIDLength, ServerConfig.CIDsFit, ← checkCIDLengths_eq_ok]
  cases cfg.connectionIDGenerator with
  | false => simp
  | true => simp

/-- **What is accepted**: without a hook the message itself, and otherwise what the hook
returns, if its types are those of the base and its connection IDs fit. -/
theorem finalizeServerHello13_eq_ok {base m : ServerHello V} {cfg : ServerConfig V} :
    finalizeServerHello13 base cfg = .ok m ↔
      (cfg.serverHelloMessageHook = none ∧ m = base) ∨
        ∃ hook, cfg.serverHelloMessageHook = some hook ∧ (hook base).returned = .serverHello m ∧
          ((hook base).left.map extensionType).Perm (m.extensions.map extensionType) ∧
          cfg.CIDsFit m.extensions := by
  rw [finalizeServerHello13]
  cases hhook : cfg.serverHelloMessageHook with
  | none => simp [eq_comm]
  | some hook =>
    simp only [reduceCtorEq, false_and, Option.some.injEq, exists_eq_left', false_or]
    cases hreturned : (hook base).returned with
    | other => simp
    | nilServerHello => simp
    | serverHello hooked =>
      simp only [Message.serverHello.injEq]
      rw [guard_eq_ok, not_not, extensionTypes_eq_iff, bind_eq_ok]
      constructor
      · intro h
        obtain ⟨htypes, u, hcids, hm⟩ := h
        cases hm
        exact ⟨rfl, htypes, validateCIDLength_eq_ok.mp hcids⟩
      · intro h
        obtain ⟨rfl, htypes, hcids⟩ := h
        exact ⟨htypes, (), validateCIDLength_eq_ok.mpr hcids, rfl⟩

/-! ## The ordering hook -/

theorem nodup_serverHelloOrder (extensions : List V) : (serverHelloOrder extensions).Nodup := by
  rw [serverHelloOrder]
  split
  · decide
  · decide

theorem serverHelloOrder_congr {extensions extensions' : List V} (h : extensions'.Perm extensions) :
    serverHelloOrder extensions' = serverHelloOrder extensions := by
  have hoffers : offersExtension extensions' typeSupportedVersions =
      offersExtension extensions typeSupportedVersions := h.any_eq
  rw [serverHelloOrder, hoffers, serverHelloOrder]

/-- The extensions of the selected table stand in front, in its order, and the others
behind them as they were. -/
structure InChromeOrder (given sent : List V) : Prop where
  perm : sent.Perm given
  order : ∃ front, sent = front ++ given.filter (untabled (serverHelloOrder given) extensionType) ∧
    front.map extensionType = (serverHelloOrder given).filter (· ∈ given.map extensionType)

section Hook

variable (p : Profile) {m : ServerHello V}
  (hnodup : (m.extensions.map extensionType).Nodup)
include hnodup

theorem dtlsServerHelloHook_inChromeOrder :
    InChromeOrder m.extensions (p.dtlsServerHelloHook m).extensions := by
  constructor
  · exact orderByCanonical_perm hnodup (nodup_serverHelloOrder m.extensions)
  · exact ⟨_, rfl, map_tabled hnodup _⟩

theorem dtlsServerHelloHook_congr {m' : ServerHello V} (hperm : m'.extensions.Perm m.extensions)
    (hrest : m'.extensions.filter (untabled (serverHelloOrder m.extensions) extensionType) =
      m.extensions.filter (untabled (serverHelloOrder m.extensions) extensionType)) :
    (p.dtlsServerHelloHook m').extensions = (p.dtlsServerHelloHook m).extensions := by
  show orderByCanonical _ (serverHelloOrder m'.extensions) _ = orderByCanonical _ _ _
  rw [serverHelloOrder_congr hperm]
  exact orderByCanonical_congr hnodup hperm hrest

theorem dtlsServerHelloHook_idem :
    p.dtlsServerHelloHook (p.dtlsServerHelloHook m) = p.dtlsServerHelloHook m := by
  have hsame := dtlsServerHelloHook_congr p hnodup
    (dtlsServerHelloHook_inChromeOrder p hnodup).perm (filter_orderByCanonical hnodup _)
  exact congrArg (fun extensions => { m with extensions := extensions }) hsame

theorem finalizeServerHello13_ordering {cfg : ServerConfig V} {accepted : ServerHello V}
    (h : finalizeServerHello13 m { cfg with serverHelloMessageHook := some (.of id) } =
      .ok accepted) :
    finalizeServerHello13 m
        { cfg with serverHelloMessageHook := some (.of p.dtlsServerHelloHook) } =
      .ok (p.dtlsServerHelloHook m) := by
  have hperm := (dtlsServerHelloHook_inChromeOrder p hnodup).perm
  rcases finalizeServerHello13_eq_ok.mp h with ⟨hnone, -⟩ | ⟨hook, hhook, hreturned, -, hcids⟩
  · cases hnone
  · cases hhook
    cases hreturned
    apply finalizeServerHello13_eq_ok.mpr
    refine .inr ⟨_, rfl, rfl, (hperm.map extensionType).symm, ?_⟩
    intro hgenerator value hvalue
    exact hcids hgenerator value (hperm.mem_iff.mp hvalue)

end Hook

/-- **The server hook is a safe canonical form**: an ordering, idempotent, determined by
the extensions and the order of the untabled ones, and accepted wherever the message
itself is. -/
theorem dtlsServerHelloHook_canonical (p : Profile) (m : ServerHello V)
    (hnodup : (m.extensions.map extensionType).Nodup) :
    (InChromeOrder m.extensions (p.dtlsServerHelloHook m).extensions ∧
        { p.dtlsServerHelloHook m with extensions := m.extensions } = m) ∧
      p.dtlsServerHelloHook (p.dtlsServerHelloHook m) = p.dtlsServerHelloHook m ∧
      (∀ m' : ServerHello V, m'.extensions.Perm m.extensions →
        m'.extensions.filter (untabled (serverHelloOrder m.extensions) extensionType) =
          m.extensions.filter (untabled (serverHelloOrder m.extensions) extensionType) →
        (p.dtlsServerHelloHook m').extensions = (p.dtlsServerHelloHook m).extensions) ∧
      ∀ (cfg : ServerConfig V) (accepted : ServerHello V),
        finalizeServerHello13 m { cfg with serverHelloMessageHook := some (.of id) } =
          .ok accepted →
        finalizeServerHello13 m
            { cfg with serverHelloMessageHook := some (.of p.dtlsServerHelloHook) } =
          .ok (p.dtlsServerHelloHook m) := by
  refine ⟨⟨dtlsServerHelloHook_inChromeOrder p hnodup, rfl⟩, dtlsServerHelloHook_idem p hnodup,
    ?_, ?_⟩
  · intro m' hperm hrest
    exact dtlsServerHelloHook_congr p hnodup hperm hrest
  · intro cfg accepted h
    exact finalizeServerHello13_ordering p hnodup h

instance : ExtensionValue Value where
  extensionType := Value.extensionType
  asConnectionID
    | .connectionID cid => some cid
    | _ => none

/-- A ServerHello of DTLS 1.3, in the order of this package. -/
def plainServerHello : ServerHello Value where
  version := 0xfefd
  random := ⟨0, .replicate 28 7⟩
  sessionID := []
  cipherSuiteID := some 0x1301
  compressionMethod := some 0
  extensions := [.selectedVersion 0xfefc, .connectionID [1, 2], .raw typeKeyShare [0, 29]]

theorem dtlsServerHelloHook_canonical_plain :
    finalizeServerHello13 plainServerHello
        ⟨some (.of (Profile.dtlsServerHelloHook ⟨true, true, true⟩)), true, 2⟩ =
      .ok { plainServerHello with
        extensions := [.raw typeKeyShare [0, 29], .selectedVersion 0xfefc,
          .connectionID [1, 2]] } := by
  have hplain : finalizeServerHello13 plainServerHello ⟨some (.of id), true, 2⟩ =
      .ok plainServerHello := by
    apply finalizeServerHello13_eq_ok.mpr
    refine .inr ⟨_, rfl, rfl, .refl _, ?_⟩
    intro _
    decide
  exact (dtlsServerHelloHook_canonical ⟨true, true, true⟩ plainServerHello (by decide)).2.2.2
    ⟨none, true, 2⟩ plainServerHello hplain

/-! ## What a hook may do -/

/-- The fields of a ServerHello beside its extensions are the same. -/
structure SameFixed (m base : ServerHello V) : Prop where
  version : m.version = base.version
  random : m.random = base.random
  sessionID : m.sessionID = base.sessionID
  cipherSuiteID : m.cipherSuiteID = base.cipherSuiteID
  compressionMethod : m.compressionMethod = base.compressionMethod

/-- "The hook may reorder the extensions and nothing else." -/
def Enforced (base : ServerHello V) (cfg : ServerConfig V) : Prop :=
  ∀ accepted, finalizeServerHello13 base cfg = .ok accepted →
    SameFixed accepted base ∧ accepted.extensions.Perm base.extensions

/-- No field and no extension list of the base is left. -/
structure Replaced (m base : ServerHello V) : Prop where
  version : m.version ≠ base.version
  random : m.random ≠ base.random
  sessionID : m.sessionID ≠ base.sessionID
  cipherSuiteID : m.cipherSuiteID ≠ base.cipherSuiteID
  compressionMethod : m.compressionMethod ≠ base.compressionMethod
  extensions : base.extensions ≠ [] → ¬m.extensions.Perm base.extensions

theorem finalizeServerHello13_of_eq_ok {base m : ServerHello V} {cfg : ServerConfig V}
    {f : ServerHello V → ServerHello V} :
    finalizeServerHello13 base { cfg with serverHelloMessageHook := some (.of f) } = .ok m ↔
      f base = m ∧ (base.extensions.map extensionType).Perm (m.extensions.map extensionType) ∧
        cfg.CIDsFit m.extensions := by
  rw [finalizeServerHello13_eq_ok]
  constructor
  · intro h
    rcases h with ⟨hnone, -⟩ | ⟨hook, hhook, hreturned, htypes, hcids⟩
    · cases hnone
    · cases hhook
      exact ⟨Message.serverHello.inj hreturned, htypes, hcids⟩
  · intro h
    obtain ⟨hf, htypes, hcids⟩ := h
    exact .inr ⟨_, rfl, congrArg Message.serverHello hf, htypes, hcids⟩

/-- The data of an extension that is not of a known type. -/
def rawData : Value → Bytes
  | .raw _ data => data
  | _ => []

/-- A text longer than the data of every extension. -/
def longData (values : List Value) : Bytes := 0 :: (values.map rawData).flatten

theorem raw_longData_notMem (values : List Value) (typ : UInt16) :
    .raw typ (longData values) ∉ values := by
  intro hin
  have hsub := sublist_flatten_of_mem (mem_map_of_mem (f := rawData) hin)
  exact absurd hsub.length_le (Nat.not_succ_le_self _)

def toggle {α : Type} (a : α) : Option α → Option α
  | none => some a
  | some _ => none

theorem toggle_ne {α : Type} (a : α) (x : Option α) : toggle a x ≠ x := by
  cases x with
  | none => exact Option.some_ne_none a
  | some b => exact (Option.some_ne_none b).symm

/-- Each field with another value, and each extension with other data. -/
def replaceAll (m : ServerHello Value) : ServerHello Value where
  version := m.version + 1
  random := { m.random with gmtUnixTime := m.random.gmtUnixTime + 1 }
  sessionID := 0 :: m.sessionID
  cipherSuiteID := toggle 0 m.cipherSuiteID
  compressionMethod := toggle 0 m.compressionMethod
  extensions := m.extensions.map fun v => .raw v.extensionType (longData m.extensions)

theorem replaced_replaceAll (base : ServerHello Value) : Replaced (replaceAll base) base where
  version h := by simp [replaceAll] at h
  random h := by simpa [replaceAll] using congrArg Random.gmtUnixTime h
  sessionID := cons_ne_self _ _
  cipherSuiteID := toggle_ne _ _
  compressionMethod := toggle_ne _ _
  extensions hne hperm := by
    obtain ⟨v, hv⟩ := exists_mem_of_ne_nil _ hne
    exact raw_longData_notMem _ v.extensionType (hperm.mem_iff.mp (mem_map.mpr ⟨v, hv, rfl⟩))

/-- **The guard enforces the extension types and nothing else.** What passes, over all hooks
that write to nothing they were given, are the messages with the types of the base and
connection IDs that fit; so for every base and every configuration some hook gets a message
through of which no field and no extension is the base's. -/
theorem finalizeServerHello13_never_enforced (base : ServerHello Value)
    (cfg : ServerConfig Value) :
    (∀ m, (∃ f, finalizeServerHello13 base
          { cfg with serverHelloMessageHook := some (.of f) } = .ok m) ↔
        (base.extensions.map extensionType).Perm (m.extensions.map extensionType) ∧
          cfg.CIDsFit m.extensions) ∧
      ∃ f m, finalizeServerHello13 base
          { cfg with serverHelloMessageHook := some (.of f) } = .ok m ∧ Replaced m base := by
  simp only [finalizeServerHello13_of_eq_ok]
  constructor
  · intro m
    constructor
    · intro h
      obtain ⟨f, -, hpasses⟩ := h
      exact hpasses
    · intro h
      exact ⟨fun _ => m, rfl, h⟩
  · refine ⟨replaceAll, replaceAll base, ⟨rfl, ?_, ?_⟩, replaced_replaceAll base⟩
    · rw [replaceAll, map_map]
      exact .refl _
    · -- none of them is a connection ID
      intro _ value hvalue cid hcid
      obtain ⟨v, -, rfl⟩ := mem_map.mp hvalue
      cases hcid

/-- **A hook that selects another cipher suite passes.** -/
theorem finalizeServerHello13_other_suite :
    ¬∀ (base : ServerHello Value) (cfg : ServerConfig Value), Enforced base cfg := by
  intro h
  let hook : ServerHelloHook Value := .of fun m => { m with cipherSuiteID := some 0x1303 }
  have haccepted : finalizeServerHello13 plainServerHello ⟨some hook, false, 0⟩ =
      .ok { plainServerHello with cipherSuiteID := some 0x1303 } := by
    apply finalizeServerHello13_eq_ok.mpr
    refine .inr ⟨hook, rfl, rfl, .refl _, ?_⟩
    intro hgenerator
    cases hgenerator
  have hsuite := (h _ _ _ haccepted).1.cipherSuiteID
  exact absurd hsuite (by decide)

end HeadlessClient.DTLS
