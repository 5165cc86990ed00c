import HeadlessClient.Base.GoMap
import HeadlessClient.Base.Loop
import HeadlessClient.Base.StableSort
import HeadlessClient.Quic.Varint
import Mathlib.Algebra.BigOperators.Group.List.Basic

/-!
# Http3 — frames

The frames of a control stream (`quic/http3/frames.go`): `settingsFrame.Append`
writes the settings sorted by identifier, with their length in front, and
`parseSettingsFrame` reads them; `ParseNext` reads frame after frame and passes
over the types it does not know.

Settings are five known ones and a map of others. `Written f entries` says what
`Append` has to write for a frame; every order in which Go visits the map, and
every choice its unstable sort could make, leads to the same bytes
(`append_eq`), and they are read back as the frame (`parseSettingsFrame_payload`).
-/

namespace HeadlessClient.Http3

open Base Quic List

/-! ## The frame -/

/-- The settings with a field of their own, as `Append` goes through them. -/
inductive Known where
  | qpackMaxTableCapacity
  | maxFieldSectionSize
  | qpackBlockedStreams
  | datagram
  | extendedConnect
deriving DecidableEq, Repr

namespace Known

def id : Known → Nat
  | .qpackMaxTableCapacity => 0x1
  | .maxFieldSectionSize => 0x6
  | .qpackBlockedStreams => 0x7
  | .datagram => 0x33
  | .extendedConnect => 0x8

def all : List Known :=
  [.qpackMaxTableCapacity, .maxFieldSectionSize, .qpackBlockedStreams, .datagram, .extendedConnect]

theorem mem_all (k : Known) : k ∈ all := by
  cases k <;> decide

theorem id_injective : ∀ {k k' : Known}, k.id = k'.id → k = k' := by
  intro k k'
  cases k <;> cases k' <;> decide

theorem id_lt (k : Known) : k.id < 2 ^ 62 := by
  cases k <;> decide

/-- The `switch` over an identifier. -/
def of? (id : Nat) : Option Known := all.find? fun k => k.id = id

theorem of?_eq_some {id : Nat} {k : Known} : of? id = some k ↔ k.id = id := by
  constructor
  · intro h
    unfold of? at h
    simpa using find?_some h
  · rintro rfl
    cases k <;> rfl

theorem of?_eq_none {id : Nat} : of? id = none ↔ ∀ k : Known, k.id ≠ id := by
  rw [Option.eq_none_iff_forall_ne_some]
  exact forall_congr' fun k => not_congr of?_eq_some

end Known

/-- `settingsFrame`; `μ` is what stands for the map of the other settings. -/
structure SettingsFrame (μ : Type) where
  qpackMaxTableCapacity : Int
  maxFieldSectionSize : Int
  qpackBlockedStreams : Int
  datagram : Bool
  extendedConnect : Bool
  other : μ

abbrev Settings := SettingsFrame (GoMap Nat Nat)

/-- A negative number stands for a setting that is not set. -/
def whenSet (value : Int) : Option Nat := if 0 ≤ value then some value.toNat else none

/-- The value that `Append` writes for a known setting. -/
def SettingsFrame.value? {μ : Type} (f : SettingsFrame μ) : Known → Option Nat
  | .qpackMaxTableCapacity => whenSet f.qpackMaxTableCapacity
  | .maxFieldSectionSize => whenSet f.maxFieldSectionSize
  | .qpackBlockedStreams => whenSet f.qpackBlockedStreams
  | .datagram => if f.datagram then some 1 else none
  | .extendedConnect => if f.extendedConnect then some 1 else none

/-! ## Writing -/

abbrev Entry := Nat × Nat

/-- What `slices.SortFunc` does with entries. It is not stable, so it may choose
among entries with one identifier. -/
structure Sorting where
  sort : List Entry → List Entry
  perm : ∀ l, (sort l).Perm l
  sorted : ∀ l, (sort l).Pairwise fun a b => a.1 ≤ b.1

/-- Sorting that leaves entries with one identifier as they are. -/
def Sorting.stable : Sorting :=
  ⟨stableSort Prod.fst, stableSort_perm Prod.fst, sortedBy_stableSort Prod.fst⟩

namespace Settings

def entries (f : Settings) (order : MapOrder) : List Entry :=
  (Known.all.filterMap fun k => (f.value? k).map fun value => (k.id, value)) ++ f.other.range order

end Settings

/-- The loop that adds up the lengths. -/
def lengthOf : List Entry → Except Panic Nat
  | [] => .ok 0
  | (id, value) :: entries => do
      let idLen ← Varint.len id
      let valueLen ← Varint.len value
      let rest ← lengthOf entries
      .ok (idLen + valueLen + rest)

def appendEntries : List Entry → Except Panic Bytes
  | [] => .ok []
  | (id, value) :: entries => do
      let idBytes ← Varint.append id
      let valueBytes ← Varint.append value
      let rest ← appendEntries entries
      .ok (idBytes ++ valueBytes ++ rest)

/-- `settingsFrame.Append`. -/
def Settings.append (f : Settings) (order : MapOrder) (sorting : Sorting) : Except Panic Bytes := do
  let type ← Varint.append 0x4
  let entries := sorting.sort (Settings.entries f order)
  let l ← lengthOf entries
  let length ← Varint.append l
  let payload ← appendEntries entries
  .ok (type ++ length ++ payload)

/-! ## Reading -/

inductive FrameError where
  | eof
  /-- `unexpected size for SETTINGS frame`. -/
  | settingsSize (l : Nat)
  /-- `duplicate setting`. -/
  | duplicate (id : Nat)
  /-- `invalid value for SETTINGS_ENABLE_CONNECT_PROTOCOL`. -/
  | connectProtocol (value : Nat)
  /-- `invalid value for SETTINGS_H3_DATAGRAM`. -/
  | datagram (value : Nat)
  /-- `GOAWAY frame: inconsistent length`. -/
  | goAwayLength
  /-- `http3: reserved frame type`; the connection is closed as well. -/
  | reserved (type : Nat)
deriving DecidableEq, Repr

def readVarint (r : Bytes) : Except FrameError (Nat × Bytes) :=
  match Varint.read r with
  | .ok result => .ok result
  | .error .eof => .error .eof

namespace Settings

/-- The frame that `parseSettingsFrame` starts with. -/
def unset : Settings := ⟨-1, -1, -1, false, false, ∅⟩

/-- A case of the `switch`, once the setting is known not to be a duplicate. -/
def set (f : Settings) : Known → Nat → Except FrameError Settings
  | .qpackMaxTableCapacity, value => .ok { f with qpackMaxTableCapacity := value }
  | .qpackBlockedStreams, value => .ok { f with qpackBlockedStreams := value }
  | .maxFieldSectionSize, value => .ok { f with maxFieldSectionSize := value }
  | .extendedConnect, value =>
    if value ≠ 0 ∧ value ≠ 1 then .error (.connectProtocol value)
    else .ok { f with extendedConnect := value = 1 }
  | .datagram, value =>
    if value ≠ 0 ∧ value ≠ 1 then .error (.datagram value)
    else .ok { f with datagram := value = 1 }

/-- The `switch`; `read` are the known settings that have been read. -/
def apply (f : Settings) (read : List Known) (id value : Nat) :
    Except FrameError (Settings × List Known) :=
  match Known.of? id with
  | some k =>
    if k ∈ read then .error (.duplicate id)
    else do
      let f ← f.set k value
      .ok (f, k :: read)
  | none =>
    if (f.other.lookup id).isSome then .error (.duplicate id)
    else .ok ({ f with other := f.other.insert id value }, read)

end Settings

/-- The variables of the loop of `parseSettingsFrame`. -/
structure Parsing where
  b : Bytes
  frame : Settings
  read : List Known

theorem readVarint_shorter {r rest : Bytes} {i : Nat} (h : readVarint r = .ok (i, rest)) :
    rest.length < r.length := by
  unfold readVarint at h
  split at h
  · cases h
    exact Varint.read_shorter ‹_›
  · cases h

def settingsRound (s : Parsing) :
    Except FrameError (Round (fun s : Parsing => s.b.length) Settings s) :=
  if s.b.length > 0 then
    match hid : readVarint s.b with
    | .error e => .error e
    | .ok (id, b₁) =>
      match hvalue : readVarint b₁ with
      | .error e => .error e
      | .ok (value, b₂) =>
        match s.frame.apply s.read id value with
        | .error e => .error e
        | .ok (frame, read) =>
          .ok (.next ⟨b₂, frame, read⟩
            ((readVarint_shorter hvalue).trans (readVarint_shorter hid)))
  else .ok (.done s.frame)

/-- `parseSettingsFrame`, and what it leaves unread. -/
def parseSettingsFrame (r : Bytes) (l : Nat) : Except FrameError (Settings × Bytes) :=
  if l > 8 * (1 <<< 10) then .error (.settingsSize l)
  else if r.length < l then .error .eof
  else do
    let frame ← runLoop _ settingsRound ⟨r.take l, Settings.unset, []⟩
    .ok (frame, r.drop l)

inductive Frame where
  | data (length : Nat)
  | headers (length headerLen : Nat)
  | settings (f : Settings)
  | goAway (streamID : Nat)

def parseGoAwayFrame (r : Bytes) (l : Nat) : Except FrameError (Nat × Bytes) := do
  let (id, rest) ← readVarint r
  if r.length - rest.length ≠ l then .error .goAwayLength else .ok (id, rest)

/-- The `switch` of `ParseNext`, behind the type and the length. -/
def nextFrame (r : Bytes) (t l : Nat) (r₂ : Bytes) (h : r₂.length < r.length) :
    Except FrameError (Round List.length (Frame × Bytes) r) :=
  if t = 0x0 then .ok (.done (.data l, r₂))
  else if t = 0x1 then .ok (.done (.headers l (r.length - r₂.length), r₂))
  else if t = 0x4 then do
    let (f, rest) ← parseSettingsFrame r₂ l
    .ok (.done (.settings f, rest))
  else if t = 0x7 then do
    let (id, rest) ← parseGoAwayFrame r₂ l
    .ok (.done (.goAway id, rest))
  else if t = 0x2 ∨ t = 0x6 ∨ t = 0x8 ∨ t = 0x9 then .error (.reserved t)
  else
    -- CANCEL_PUSH, PUSH_PROMISE, MAX_PUSH_ID and the unknown types
    if r₂.length < l then .error .eof
    else .ok (.next (r₂.drop l) (by
      rw [length_drop]
      omega))

def nextRound (r : Bytes) : Except FrameError (Round List.length (Frame × Bytes) r) :=
  match ht : readVarint r with
  | .error e => .error e
  | .ok (t, r₁) =>
    match hl : readVarint r₁ with
    | .error e => .error e
    | .ok (l, r₂) => nextFrame r t l r₂ ((readVarint_shorter hl).trans (readVarint_shorter ht))

/-- `ParseNext`, on the bytes of a stream that has ended. -/
def parseNext (r : Bytes) : Except FrameError (Frame × Bytes) := runLoop _ nextRound r

/-! ## What is written -/

namespace Settings

/-- The frame can be written: the map does not have a known setting, and every
identifier and value has an encoding. -/
structure Plain (f : Settings) : Prop where
  known : ∀ {k value}, f.value? k = some value → value < 2 ^ 62
  other : ∀ {id value}, f.other.lookup id = some value →
    Known.of? id = none ∧ id < 2 ^ 62 ∧ value < 2 ^ 62

end Settings

/-- Frames that only differ in how their maps are stored. -/
structure Settings.Alike (f g : Settings) : Prop where
  known : ∀ k, f.value? k = g.value? k
  other : ∀ id, f.other.lookup id = g.other.lookup id

variable {f : Settings} {entries : List Entry}

theorem Settings.Plain.alike {g : Settings} (h : f.Plain) (hfg : f.Alike g) : g.Plain where
  known hvalue := h.known (by rw [hfg.known, hvalue])
  other hlookup := h.other (by rw [hfg.other, hlookup])

/-- The entries of a frame in the order of their identifiers. -/
structure Written (f : Settings) (entries : List Entry) : Prop where
  ascending : entries.Pairwise fun a b => a.1 < b.1
  known : ∀ k value, (k.id, value) ∈ entries ↔ f.value? k = some value
  other : ∀ id value, Known.of? id = none →
    ((id, value) ∈ entries ↔ f.other.lookup id = some value)

section Written

variable {f : Settings} {order : MapOrder}

theorem mem_known {e : Entry} :
    e ∈ (Known.all.filterMap fun k => (f.value? k).map fun value => (k.id, value)) ↔
      ∃ k, e.1 = k.id ∧ f.value? k = some e.2 := by
  obtain ⟨id, value⟩ := e
  simp only [mem_filterMap, Option.map_eq_some_iff, Prod.mk.injEq]
  constructor
  · rintro ⟨k, -, v, hv, rfl, rfl⟩
    exact ⟨k, rfl, hv⟩
  · rintro ⟨k, rfl, hv⟩
    exact ⟨k, k.mem_all, value, hv, rfl, rfl⟩

theorem nodup_known :
    ((Known.all.filterMap fun k => (f.value? k).map fun value => (k.id, value)).map
      Prod.fst).Nodup := by
  rw [map_filterMap]
  refine List.Nodup.filterMap (fun k k' id hk hk' => ?_) (by decide)
  simp only [Option.map_map, Option.mem_def, Option.map_eq_some_iff] at hk hk'
  obtain ⟨_, -, rfl⟩ := hk
  obtain ⟨_, -, hid⟩ := hk'
  exact (Known.id_injective hid).symm

theorem known_of_not {id : Nat} (h : Known.of? id = none) (k : Known) : id ≠ k.id :=
  (Known.of?_eq_none.mp h k).symm

theorem nodup_entries (h : f.Plain) : ((Settings.entries f order).map Prod.fst).Nodup := by
  rw [Settings.entries, map_append]
  refine nodup_append'.mpr ⟨nodup_known, GoMap.nodup_keys_range f.other order, ?_⟩
  intro id hknown hother
  obtain ⟨e, he, rfl⟩ := mem_map.mp hknown
  obtain ⟨k, hk, -⟩ := mem_known.mp he
  obtain ⟨e', he', hid⟩ := mem_map.mp hother
  obtain ⟨hunknown, -⟩ := h.other (GoMap.mem_range.mp he')
  exact known_of_not hunknown k (hid.trans hk)

/-- **What `Append` sorts, whatever the map's order and the sort's choices.** -/
theorem written_sort (h : f.Plain) (order : MapOrder) (sorting : Sorting) :
    Written f (sorting.sort (Settings.entries f order)) where
  ascending := by
    have hperm := sorting.perm (Settings.entries f order)
    have hnodup : (sorting.sort (Settings.entries f order)).Pairwise fun a b => a.1 ≠ b.1 :=
      pairwise_map.mp ((hperm.map Prod.fst).nodup_iff.mpr (nodup_entries h))
    exact (sorting.sorted _).imp₂ (fun _ _ hle hne => lt_of_le_of_ne hle hne) hnodup
  known k value := by
    rw [(sorting.perm _).mem_iff, Settings.entries, mem_append, mem_known, GoMap.mem_range]
    constructor
    · rintro (⟨k', hid, hvalue⟩ | hother)
      · rwa [Known.id_injective hid]
      · exact absurd rfl (known_of_not (h.other hother).1 k)
    · exact fun hvalue => .inl ⟨k, rfl, hvalue⟩
  other id value hunknown := by
    rw [(sorting.perm _).mem_iff, Settings.entries, mem_append, mem_known, GoMap.mem_range]
    constructor
    · rintro (⟨k, hid, -⟩ | hother)
      · exact absurd hid (known_of_not hunknown k)
      · exact hother
    · exact .inr

variable {entries : List Entry}

theorem Written.alike {g : Settings} (h : Written f entries) (hfg : f.Alike g) :
    Written g entries where
  ascending := h.ascending
  known k value := by rw [h.known, hfg.known]
  other id value hid := by rw [h.other id value hid, hfg.other]

theorem Written.mem_iff {entries' : List Entry} (h : Written f entries) (h' : Written f entries')
    (e : Entry) : e ∈ entries ↔ e ∈ entries' := by
  obtain ⟨id, value⟩ := e
  cases hid : Known.of? id with
  | none => rw [h.other id value hid, h'.other id value hid]
  | some k =>
    obtain rfl := Known.of?_eq_some.mp hid
    rw [h.known, h'.known]

/-- **There is only one way to write a frame.** -/
theorem Written.unique {entries' : List Entry} (h : Written f entries) (h' : Written f entries') :
    entries = entries' := by
  have hnodup : ∀ {es : List Entry}, es.Pairwise (fun a b => a.1 < b.1) → es.Nodup :=
    fun hes => hes.imp fun hlt heq => by rw [heq] at hlt; exact lt_irrefl _ hlt
  have hperm : entries.Perm entries' :=
    (perm_ext_iff_of_nodup (hnodup h.ascending) (hnodup h'.ascending)).mpr (h.mem_iff h')
  exact hperm.eq_of_pairwise (fun a b _ _ hab hba => absurd (hab.trans hba) (lt_irrefl _))
    h.ascending h'.ascending

theorem Written.fits (hf : f.Plain) (h : Written f entries) {e : Entry} (he : e ∈ entries) :
    e.1 < 2 ^ 62 ∧ e.2 < 2 ^ 62 := by
  obtain ⟨id, value⟩ := e
  cases hid : Known.of? id with
  | none => exact (hf.other ((h.other id value hid).mp he)).2
  | some k =>
    obtain rfl := Known.of?_eq_some.mp hid
    exact ⟨k.id_lt, hf.known ((h.known k value).mp he)⟩

end Written

/-! ## Bytes -/

/-- The number of bytes that entries take. -/
def sizeOf (entries : List Entry) : Nat :=
  (entries.map fun e => Varint.size e.1 + Varint.size e.2).sum

theorem lengthOf_eq (h : ∀ e ∈ entries, e.1 < 2 ^ 62 ∧ e.2 < 2 ^ 62) :
    lengthOf entries = .ok (sizeOf entries) := by
  induction entries with
  | nil => rfl
  | cons e entries ih =>
    obtain ⟨⟨hid, hvalue⟩, hrest⟩ := forall_mem_cons.mp h
    rw [lengthOf, Varint.len_eq hid, ok_bind, Varint.len_eq hvalue, ok_bind, ih hrest, ok_bind]
    rfl

theorem appendEntries_ok (h : ∀ e ∈ entries, e.1 < 2 ^ 62 ∧ e.2 < 2 ^ 62) :
    ∃ payload, appendEntries entries = .ok payload ∧ payload.length = sizeOf entries := by
  induction entries with
  | nil => exact ⟨[], rfl, rfl⟩
  | cons e entries ih =>
    obtain ⟨⟨hid, hvalue⟩, hrest⟩ := forall_mem_cons.mp h
    obtain ⟨payload, hpayload, hlength⟩ := ih hrest
    obtain ⟨idBytes, hidBytes⟩ := Varint.append_ok hid
    obtain ⟨valueBytes, hvalueBytes⟩ := Varint.append_ok hvalue
    refine ⟨idBytes ++ valueBytes ++ payload, ?_, ?_⟩
    · rw [appendEntries, hidBytes, ok_bind, hvalueBytes, ok_bind, hpayload, ok_bind]
    · rw [length_append, length_append, Varint.append_size hidBytes,
        Varint.append_size hvalueBytes, hlength]
      rfl

theorem sizeOf_perm {entries' : List Entry} (h : entries.Perm entries') :
    sizeOf entries = sizeOf entries' := (h.map _).sum_eq

/-- **The bytes of a frame**, for all orders and choices. -/
theorem append_eq (hf : f.Plain) (hsize : sizeOf (Settings.entries f .stored) < 2 ^ 62)
    {type : Bytes} (htype : Varint.append 0x4 = .ok type) :
    ∃ entries payload length, Written f entries ∧ entries.Perm (Settings.entries f .stored) ∧
      appendEntries entries = .ok payload ∧ payload.length = sizeOf (Settings.entries f .stored) ∧
      Varint.append payload.length = .ok length ∧
      ∀ g, g.Alike f → ∀ order sorting,
        Settings.append g order sorting = .ok (type ++ length ++ payload) := by
  have hentries := written_sort hf .stored Sorting.stable
  have hfits :
      ∀ e ∈ Sorting.stable.sort (Settings.entries f .stored), e.1 < 2 ^ 62 ∧ e.2 < 2 ^ 62 :=
    fun e he => hentries.fits hf he
  obtain ⟨payload, hpayload, hlength⟩ := appendEntries_ok hfits
  rw [sizeOf_perm (Sorting.stable.perm _)] at hlength
  obtain ⟨length, hbytes⟩ := Varint.append_ok (show payload.length < 2 ^ 62 by omega)
  refine ⟨_, payload, length, hentries, Sorting.stable.perm _, hpayload, hlength, hbytes,
    fun g hg order sorting => ?_⟩
  have hg' : f.Alike g := ⟨fun k => (hg.known k).symm, fun id => (hg.other id).symm⟩
  have hsorted := (written_sort (hf.alike hg') order sorting).alike hg
  rw [Settings.append, htype, ok_bind, hsorted.unique hentries]
  dsimp only
  rw [lengthOf_eq hfits, sizeOf_perm (Sorting.stable.perm _), ← hlength, ok_bind, hbytes, ok_bind,
    hpayload, ok_bind]

theorem readVarint_append {i : Nat} {b : Bytes} (h : Varint.append i = .ok b) (rest : Bytes) :
    readVarint (b ++ rest) = .ok (i, rest) := by
  rw [readVarint, Varint.read_append h]

/-! ## Reading back -/

namespace Settings

/-- The same settings. Maps are compared by what they hold. -/
structure Same (f g : Settings) : Prop where
  qpackMaxTableCapacity : f.qpackMaxTableCapacity = g.qpackMaxTableCapacity
  maxFieldSectionSize : f.maxFieldSectionSize = g.maxFieldSectionSize
  qpackBlockedStreams : f.qpackBlockedStreams = g.qpackBlockedStreams
  datagram : f.datagram = g.datagram
  extendedConnect : f.extendedConnect = g.extendedConnect
  other : ∀ id, f.other.lookup id = g.other.lookup id

/-- Settings that are not set are `-1`, as the comments of the frame say. -/
structure Normal (f : Settings) : Prop where
  qpackMaxTableCapacity : -1 ≤ f.qpackMaxTableCapacity
  maxFieldSectionSize : -1 ≤ f.maxFieldSectionSize
  qpackBlockedStreams : -1 ≤ f.qpackBlockedStreams

theorem whenSet_injective {v w : Int} (hv : -1 ≤ v) (hw : -1 ≤ w) (h : whenSet v = whenSet w) :
    v = w := by
  unfold whenSet at h
  split_ifs at h with h₁ h₂ h₃
  · rw [Option.some.injEq] at h
    omega
  · omega

theorem Same.of_values {g : Settings} (hf : f.Normal) (hg : g.Normal)
    (hvalues : ∀ k, f.value? k = g.value? k)
    (hother : ∀ id, f.other.lookup id = g.other.lookup id) :
    f.Same g where
  qpackMaxTableCapacity := whenSet_injective hf.1 hg.1 (hvalues .qpackMaxTableCapacity)
  maxFieldSectionSize := whenSet_injective hf.2 hg.2 (hvalues .maxFieldSectionSize)
  qpackBlockedStreams := whenSet_injective hf.3 hg.3 (hvalues .qpackBlockedStreams)
  datagram := by
    have := hvalues .datagram
    cases hfd : f.datagram <;> cases hgd : g.datagram <;>
      simp [SettingsFrame.value?, hfd, hgd] at this ⊢
  extendedConnect := by
    have := hvalues .extendedConnect
    cases hfd : f.extendedConnect <;> cases hgd : g.extendedConnect <;>
      simp [SettingsFrame.value?, hfd, hgd] at this ⊢
  other := hother

/-- What `parseSettingsFrame` has after the entries `seen`. -/
structure Holds (f : Settings) (read : List Known) (seen : List Entry) : Prop where
  normal : f.Normal
  known : ∀ k value, f.value? k = some value ↔ (k.id, value) ∈ seen
  read : ∀ k, k ∈ read ↔ ∃ value, (k.id, value) ∈ seen
  other : ∀ id value, f.other.lookup id = some value ↔ Known.of? id = none ∧ (id, value) ∈ seen

theorem holds_unset : Holds unset [] [] where
  normal := ⟨by decide, by decide, by decide⟩
  known k value := by cases k <;> simp [unset, SettingsFrame.value?, whenSet]
  read k := by simp
  other id value := by simp [unset]

/-- A setting that is switched on or off is written as `1`. -/
def Switch : Known → Prop
  | .datagram => True
  | .extendedConnect => True
  | _ => False

theorem set_ok (f : Settings) (hf : f.Normal) (k : Known) {value : Nat}
    (hvalue : Switch k → value = 1) :
    ∃ f', f.set k value = .ok f' ∧ f'.Normal ∧ f'.other = f.other ∧
      ∀ k', f'.value? k' = if k' = k then some value else f.value? k' := by
  have hset : whenSet (value : Int) = some value := by simp [whenSet]
  have hle : (-1 : Int) ≤ value := by omega
  cases k with
  | qpackMaxTableCapacity =>
    refine ⟨_, rfl, ⟨hle, hf.2, hf.3⟩, rfl, fun k' => ?_⟩
    cases k' <;> simp [SettingsFrame.value?, hset]
  | maxFieldSectionSize =>
    refine ⟨_, rfl, ⟨hf.1, hle, hf.3⟩, rfl, fun k' => ?_⟩
    cases k' <;> simp [SettingsFrame.value?, hset]
  | qpackBlockedStreams =>
    refine ⟨_, rfl, ⟨hf.1, hf.2, hle⟩, rfl, fun k' => ?_⟩
    cases k' <;> simp [SettingsFrame.value?, hset]
  | datagram | extendedConnect =>
    obtain rfl := hvalue trivial
    refine ⟨_, rfl, ⟨hf.1, hf.2, hf.3⟩, rfl, fun k' => ?_⟩
    cases k' <;> simp [SettingsFrame.value?]

/-- **One setting is added to what has been read.** -/
theorem Holds.apply {read : List Known} {seen : List Entry} (h : Holds f read seen) {id value : Nat}
    (hnew : ∀ v, (id, v) ∉ seen) (hvalue : ∀ k, k.id = id → Switch k → value = 1) :
    ∃ f' read',
      f.apply read id value = .ok (f', read') ∧ Holds f' read' (seen ++ [(id, value)]) := by
  unfold Settings.apply
  cases hid : Known.of? id with
  | some k =>
    obtain rfl := Known.of?_eq_some.mp hid
    have hread : k ∉ read := fun hk => by
      obtain ⟨v, hv⟩ := (h.read k).mp hk
      exact hnew v hv
    obtain ⟨f', hset, hnormal, hother, hvalues⟩ := f.set_ok h.normal k (hvalue k rfl)
    refine ⟨f', k :: read, ?_, ?_⟩
    · dsimp only
      rw [if_neg hread, hset, ok_bind]
    · refine ⟨hnormal, fun k' v => ?_, fun k' => ?_, fun id' v => ?_⟩
      · rw [hvalues, mem_append, mem_singleton, Prod.mk.injEq]
        by_cases hk : k' = k
        · subst hk
          rw [if_pos rfl, Option.some.injEq]
          exact ⟨fun heq => .inr ⟨rfl, heq.symm⟩,
            fun hmem => (hmem.resolve_left (hnew v)).2.symm⟩
        · rw [if_neg hk, h.known]
          exact ⟨.inl, fun hmem => hmem.resolve_right fun heq => hk (Known.id_injective heq.1)⟩
      · rw [mem_cons, h.read]
        simp only [mem_append, mem_singleton, Prod.mk.injEq]
        constructor
        · rintro (rfl | ⟨v, hv⟩)
          · exact ⟨value, .inr ⟨rfl, rfl⟩⟩
          · exact ⟨v, .inl hv⟩
        · rintro ⟨v, hv | ⟨heq, -⟩⟩
          · exact .inr ⟨v, hv⟩
          · exact .inl (Known.id_injective heq)
      · rw [hother, h.other, mem_append, mem_singleton, Prod.mk.injEq]
        refine and_congr_right fun hunknown => ⟨.inl, fun hmem => hmem.resolve_right ?_⟩
        exact fun heq => known_of_not hunknown k heq.1
  | none =>
    have hlookup : f.other.lookup id = none := by
      cases hl : f.other.lookup id with
      | none => rfl
      | some v => exact absurd ((h.other id v).mp hl).2 (hnew v)
    refine ⟨_, read, by dsimp only; rw [hlookup]; rfl, ?_⟩
    refine ⟨⟨h.normal.1, h.normal.2, h.normal.3⟩, fun k v => ?_, fun k => ?_, fun id' v => ?_⟩
    · rw [mem_append, mem_singleton, Prod.mk.injEq]
      have hne : k.id ≠ id := (known_of_not hid k).symm
      exact (h.known k v).trans ⟨.inl, fun hmem => hmem.resolve_right fun heq => hne heq.1⟩
    · rw [h.read]
      simp only [mem_append, mem_singleton, Prod.mk.injEq]
      have hne : k.id ≠ id := (known_of_not hid k).symm
      exact exists_congr fun v => ⟨.inl, fun hmem => hmem.resolve_right fun heq => hne heq.1⟩
    · dsimp only
      rw [mem_append, mem_singleton, Prod.mk.injEq]
      by_cases heq : id' = id
      · subst heq
        rw [AList.lookup_insert, Option.some.injEq]
        exact ⟨fun hv => ⟨hid, .inr ⟨rfl, hv.symm⟩⟩,
          fun hmem => (hmem.2.resolve_left (hnew v)).2.symm⟩
      · rw [AList.lookup_insert_ne heq, h.other]
        exact and_congr_right fun _ => ⟨.inl, fun hmem => hmem.resolve_right fun h => heq h.1⟩

end Settings

theorem settingsRound_entry {id value : Nat} {idBytes valueBytes : Bytes}
    (hid : Varint.append id = .ok idBytes) (hvalue : Varint.append value = .ok valueBytes)
    (rest : Bytes) {f' : Settings} {read read' : List Known}
    (happly : f.apply read id value = .ok (f', read')) :
    ∃ smaller, settingsRound ⟨idBytes ++ valueBytes ++ rest, f, read⟩ =
      .ok (.next ⟨rest, f', read'⟩ smaller) := by
  have hread : readVarint (idBytes ++ valueBytes ++ rest) = .ok (id, valueBytes ++ rest) := by
    rw [append_assoc]
    exact readVarint_append hid _
  have hpos : (idBytes ++ valueBytes ++ rest).length > 0 :=
    (Nat.zero_le _).trans_lt (readVarint_shorter hread)
  unfold settingsRound
  rw [if_pos hpos]
  split
  · rename_i e he
    rw [hread] at he
    cases he
  · rename_i id' b₁ he
    rw [hread] at he
    cases he
    split
    · rename_i e he
      rw [readVarint_append hvalue] at he
      cases he
    · rename_i value' b₂ he
      rw [readVarint_append hvalue] at he
      cases he
      dsimp only
      rw [happly]
      exact ⟨(readVarint_shorter he).trans (readVarint_shorter hread), rfl⟩

/-- **The loop reads the entries that are left.** -/
theorem runLoop_settings : ∀ {seen : List Entry} {payload : Bytes}
    {f : Settings} {read : List Known}, Settings.Holds f read seen →
    appendEntries entries = .ok payload → (seen ++ entries).Pairwise (fun a b => a.1 < b.1) →
    (∀ e ∈ entries, ∀ k, k.id = e.1 → Settings.Switch k → e.2 = 1) →
    ∃ g read', runLoop _ settingsRound ⟨payload, f, read⟩ = .ok g ∧
      Settings.Holds g read' (seen ++ entries) := by
  induction entries with
  | nil =>
    intro seen payload f read h hpayload _ _
    cases hpayload
    exact ⟨f, read, runLoop_done rfl, by rwa [append_nil]⟩
  | cons e entries ih =>
    intro seen payload f read h hpayload hascending hswitch
    obtain ⟨id, value⟩ := e
    rw [appendEntries] at hpayload
    obtain ⟨idBytes, hid, hpayload⟩ := bind_eq_ok.mp hpayload
    obtain ⟨valueBytes, hvalue, hpayload⟩ := bind_eq_ok.mp hpayload
    obtain ⟨rest, hrest, hpayload⟩ := bind_eq_ok.mp hpayload
    cases hpayload
    obtain ⟨hfirst, hswitch⟩ := forall_mem_cons.mp hswitch
    have hnew : ∀ v, (id, v) ∉ seen := fun v hv =>
      lt_irrefl id ((pairwise_append.mp hascending).2.2 _ hv _ mem_cons_self)
    obtain ⟨f', read', happly, hholds⟩ := h.apply hnew hfirst
    obtain ⟨_, hround⟩ := settingsRound_entry hid hvalue rest happly
    rw [runLoop_next hround]
    obtain ⟨g, read'', hg, hfinal⟩ := ih hholds hrest
      (by rwa [append_assoc, singleton_append]) hswitch
    exact ⟨g, read'', hg, by rwa [append_assoc, singleton_append] at hfinal⟩

/-- A frame whose settings are all set, or `-1`. -/
def Settings.normalize (f : Settings) : Settings :=
  { f with
    qpackMaxTableCapacity := max f.qpackMaxTableCapacity (-1)
    maxFieldSectionSize := max f.maxFieldSectionSize (-1)
    qpackBlockedStreams := max f.qpackBlockedStreams (-1) }

theorem whenSet_max (v : Int) : whenSet (max v (-1)) = whenSet v := by
  unfold whenSet
  by_cases hv : 0 ≤ v
  · rw [max_eq_left (by omega)]
  · rw [max_eq_right (by omega), if_neg (by decide), if_neg hv]

theorem Settings.value?_normalize (f : Settings) (k : Known) :
    f.normalize.value? k = f.value? k := by
  cases k
  case datagram => rfl
  case extendedConnect => rfl
  all_goals exact whenSet_max _

theorem Settings.normalize_of_normal (h : f.Normal) : f.normalize = f := by
  unfold Settings.normalize
  rw [max_eq_left h.1, max_eq_left h.2, max_eq_left h.3]

/-- **What is written for a frame is read back as the frame.** -/
theorem parseSettingsFrame_payload {payload : Bytes}
    (hf : f.Plain) (h : Written f entries) (hpayload : appendEntries entries = .ok payload)
    (hsize : payload.length ≤ 8192) (rest : Bytes) :
    ∃ g, parseSettingsFrame (payload ++ rest) payload.length = .ok (g, rest) ∧
      g.Same f.normalize := by
  have hswitch : ∀ e ∈ entries, ∀ k, k.id = e.1 → Settings.Switch k → e.2 = 1 := by
    rintro ⟨id, value⟩ he k rfl hk
    have hvalue := (h.known k value).mp he
    cases k with
    | datagram | extendedConnect =>
      exact (by simpa [SettingsFrame.value?] using hvalue.symm : _ ∧ _).2
    | _ => cases hk
  obtain ⟨g, read, hrun, hholds⟩ :=
    runLoop_settings Settings.holds_unset hpayload (by simpa using h.ascending) hswitch
  rw [nil_append] at hholds
  refine ⟨g, ?_, Settings.Same.of_values hholds.normal ⟨?_, ?_, ?_⟩ (fun k => ?_) fun id => ?_⟩
  · rw [parseSettingsFrame, if_neg (by omega), if_neg (by simp), take_left, drop_left, hrun,
      ok_bind]
  · exact le_max_right _ _
  · exact le_max_right _ _
  · exact le_max_right _ _
  · rw [f.value?_normalize]
    refine Option.ext fun value => ?_
    rw [hholds.known, h.known]
  · refine Option.ext fun value => ?_
    rw [hholds.other]
    constructor
    · rintro ⟨hunknown, hmem⟩
      exact (h.other id value hunknown).mp hmem
    · intro hlookup
      have hunknown := (hf.other hlookup).1
      exact ⟨hunknown, (h.other id value hunknown).mpr hlookup⟩

/-! ## Frames in a stream -/

theorem nextRound_eq {type l : Nat} {typeBytes length : Bytes}
    (htype : Varint.append type = .ok typeBytes) (hlength : Varint.append l = .ok length)
    (rest : Bytes) :
    ∃ h, nextRound (typeBytes ++ length ++ rest) =
      nextFrame (typeBytes ++ length ++ rest) type l rest h := by
  have hread : readVarint (typeBytes ++ length ++ rest) = .ok (type, length ++ rest) := by
    rw [append_assoc]
    exact readVarint_append htype _
  unfold nextRound
  split
  · rename_i e he
    rw [hread] at he
    cases he
  · rename_i t r₁ he
    rw [hread] at he
    cases he
    split
    · rename_i e he
      rw [readVarint_append hlength] at he
      cases he
    · rename_i l' r₂ he
      rw [readVarint_append hlength] at he
      cases he
      exact ⟨(readVarint_shorter he).trans (readVarint_shorter hread), rfl⟩

/-- A frame of an unknown type is passed over. -/
theorem parseNext_unknown {type : Nat} (hunknown : 9 < type) {typeBytes length payload : Bytes}
    (htype : Varint.append type = .ok typeBytes)
    (hlength : Varint.append payload.length = .ok length) (rest : Bytes) :
    parseNext (typeBytes ++ length ++ (payload ++ rest)) = parseNext rest := by
  obtain ⟨hshorter, hround⟩ := nextRound_eq htype hlength (payload ++ rest)
  rw [nextFrame, if_neg (by omega), if_neg (by omega), if_neg (by omega), if_neg (by omega),
    if_neg (by omega), if_neg (by simp)] at hround
  rw [parseNext, runLoop_next hround, drop_left]
  rfl

end HeadlessClient.Http3
