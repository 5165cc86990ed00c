import HeadlessClient.Http3.Frames

/-!
# Http3 — the start of a control stream

`appendControlStream` of `quic/http3/conn.go`: the stream type and a SETTINGS
frame; with GREASE, one more setting and one frame of a reserved type.

Maps are shared by reference in Go, so the settings of the caller are an object in
a `Memory`. The function draws the additional setting into a NEW map.
-/

namespace HeadlessClient.Http3

open HeadlessClient.Base HeadlessClient.Quic List

/-! ## Memory -/

/-- Frames, and the maps that they refer to (`none` is the nil map). -/
structure Memory where
  frames : List (SettingsFrame (Option Nat))
  maps : List (GoMap Nat Nat)
  valid : ∀ f ∈ frames, ∀ a, f.other = some a → a < maps.length

namespace Memory

/-- What a map reference leads to; reading the nil map is reading an empty one. -/
def mapAt (maps : List (GoMap Nat Nat)) (ref : Option Nat) : GoMap Nat Nat :=
  (ref.bind fun a => maps[a]?).getD ∅

def load (maps : List (GoMap Nat Nat)) (f : SettingsFrame (Option Nat)) : Settings :=
  ⟨f.qpackMaxTableCapacity, f.maxFieldSectionSize, f.qpackBlockedStreams, f.datagram,
    f.extendedConnect, mapAt maps f.other⟩

/-- The settings that a pointer leads to. -/
def settings (m : Memory) (p : Fin m.frames.length) : Settings := load m.maps m.frames[p]

end Memory

/-- `maps[ref][id] = value`. -/
def setKey (maps : List (GoMap Nat Nat)) (ref : Nat) (e : Entry) : List (GoMap Nat Nat) :=
  maps.modify ref fun t => t.insert e.1 e.2

/-! ## Drawing -/

/-- What the random source hands out. -/
structure GreaseDraws where
  settingID : UInt32
  settingValue : UInt32
  frame : UInt32
  payload : Bytes
  payload_length : payload.length = (frame % 4).toNat

namespace GreaseDraws

def greaseSetting (d : GreaseDraws) : Entry :=
  (0x1f * d.settingID.toNat + 0x21, d.settingValue.toNat)

def greaseFrame (d : GreaseDraws) : Nat × Bytes := (0x1f * d.frame.toNat + 0x21, d.payload)

end GreaseDraws

def appendGreaseFrame (d : GreaseDraws) : Except Panic Bytes := do
  let (frameType, payload) := d.greaseFrame
  let type ← Varint.append frameType
  let length ← Varint.append payload.length
  .ok (type ++ length ++ payload)

/-! ## The stream -/

/-- The choices that Go makes: the orders of `maps.Copy` and of the loop over the
settings, and what the sort does. -/
structure Choices where
  copy : MapOrder
  range : MapOrder
  sorting : Sorting

def streamTypeControlStream : Nat := 0

/-- The frame that is written, and the maps of the memory then. With GREASE it is a
copy of the caller's struct with a map of its own. -/
def greased (maps : List (GoMap Nat Nat)) (settings : SettingsFrame (Option Nat)) (send : Bool)
    (copy : MapOrder) (d : GreaseDraws) : SettingsFrame (Option Nat) × List (GoMap Nat Nat) :=
  if send then
    let ref := maps.length
    let maps' := maps ++ [∅]
    let maps' :=
      ((Memory.mapAt maps settings.other).range copy).foldl (fun ms e => setKey ms ref e) maps'
    ({ settings with other := some ref }, setKey maps' ref d.greaseSetting)
  else (settings, maps)

/-- `appendControlStream`: the bytes it appends and the maps it leaves. -/
def appendControlStream (m : Memory) (p : Fin m.frames.length) (send : Bool) (c : Choices)
    (d : GreaseDraws) : Except Panic (Bytes × List (GoMap Nat Nat)) := do
  let (settings, maps) := greased m.maps m.frames[p] send c.copy d
  let streamType ← Varint.append streamTypeControlStream
  let frame ← Settings.append (Memory.load maps settings) c.range c.sorting
  if send then do
    let reserved ← appendGreaseFrame d
    .ok (streamType ++ frame ++ reserved, maps)
  else .ok (streamType ++ frame, maps)

/-! ## The new map -/

theorem setKey_last (maps : List (GoMap Nat Nat)) (t : GoMap Nat Nat) (e : Entry) :
    setKey (maps ++ [t]) maps.length e = maps ++ [t.insert e.1 e.2] := by
  unfold setKey
  induction maps with
  | nil => rfl
  | cons t' maps ih => rw [cons_append, length_cons, modify_succ_cons, ih]; rfl

theorem foldl_setKey (maps : List (GoMap Nat Nat)) (es : List Entry) : ∀ t : GoMap Nat Nat,
    es.foldl (fun ms e => setKey ms maps.length e) (maps ++ [t]) =
      maps ++ [es.foldl (fun t e => t.insert e.1 e.2) t] := by
  induction es with
  | nil => exact fun _ => rfl
  | cons e es ih =>
      intro t
      rw [foldl_cons, foldl_cons, setKey_last, ih]

/-- The settings with the additional one. -/
def Settings.greased (f : Settings) (d : GreaseDraws) : Settings :=
  { f with other := f.other.insert d.greaseSetting.1 d.greaseSetting.2 }

/-- What is written: the caller's settings, with one more if GREASE is on. -/
def Settings.sent (f : Settings) (send : Bool) (d : GreaseDraws) : Settings :=
  if send then f.greased d else f

section Greased

variable (maps : List (GoMap Nat Nat)) (settings : SettingsFrame (Option Nat)) (send : Bool)
  (copy : MapOrder) (d : GreaseDraws)

theorem greased_maps : ∃ new, (greased maps settings send copy d).2 = maps ++ new := by
  unfold greased
  cases send with
  | false => exact ⟨[], by simp⟩
  | true =>
      rw [if_pos rfl]
      dsimp only
      rw [foldl_setKey, setKey_last]
      exact ⟨_, rfl⟩

/-- **The frame that is written is the one to be sent**, up to how its map is stored. -/
theorem load_greased :
    (Memory.load (greased maps settings send copy d).2 (greased maps settings send copy d).1).Alike
      ((Memory.load maps settings).sent send d) := by
  unfold greased Settings.sent
  cases send with
  | false => exact ⟨fun _ => rfl, fun _ => rfl⟩
  | true =>
      rw [if_pos rfl, if_pos rfl]
      dsimp only
      rw [foldl_setKey, setKey_last]
      refine ⟨fun k => by cases k <;> rfl, fun id => ?_⟩
      simp only [Memory.load, Memory.mapAt, Option.bind_some, Settings.greased,
        getElem?_concat_length, Option.getD_some]
      by_cases hid : id = d.greaseSetting.1
      · rw [hid, AList.lookup_insert, AList.lookup_insert]
      · rw [AList.lookup_insert_ne hid, AList.lookup_insert_ne hid]
        exact GoMap.lookup_copy _ copy id

end Greased

theorem Memory.load_kept (m : Memory) (new : List (GoMap Nat Nat)) {f : SettingsFrame (Option Nat)}
    (hf : f ∈ m.frames) : Memory.load (m.maps ++ new) f = Memory.load m.maps f := by
  have hmap : Memory.mapAt (m.maps ++ new) f.other = Memory.mapAt m.maps f.other := by
    unfold Memory.mapAt
    cases hother : f.other with
    | none => rfl
    | some a =>
      rw [Option.bind_some, Option.bind_some, getElem?_append_left (m.valid f hf a hother)]
  rw [Memory.load, hmap, Memory.load]

/-! ## GREASE -/

/-- The identifiers `0x1f * N + 0x21` are none of the known settings. -/
theorem greaseSetting_unknown (d : GreaseDraws) : Known.of? d.greaseSetting.1 = none := by
  refine Known.of?_eq_none.mpr fun k => ?_
  unfold GreaseDraws.greaseSetting
  cases k <;> simp only [Known.id] <;> omega

theorem Settings.Plain.sent {f : Settings} (h : f.Plain) (send : Bool) (d : GreaseDraws) :
    (f.sent send d).Plain := by
  unfold Settings.sent
  cases send with
  | false => exact h
  | true =>
      have hid := d.settingID.toNat_lt
      have hvalue := d.settingValue.toNat_lt
      refine ⟨fun {k v} hk => h.known (k := k) (by cases k <;> exact hk), fun {id v} hlookup => ?_⟩
      rw [if_pos rfl, Settings.greased] at hlookup
      dsimp only at hlookup
      by_cases heq : id = d.greaseSetting.1
      · rw [heq, AList.lookup_insert, Option.some.injEq] at hlookup
        refine ⟨by rw [heq]; exact greaseSetting_unknown d, ?_⟩
        rw [heq, ← hlookup]
        unfold GreaseDraws.greaseSetting
        dsimp only
        omega
      · rw [AList.lookup_insert_ne heq] at hlookup
        exact h.other hlookup

theorem appendGreaseFrame_ok (d : GreaseDraws) :
    ∃ type length, Varint.append (0x1f * d.frame.toNat + 0x21) = .ok type ∧
      Varint.append d.payload.length = .ok length ∧
      appendGreaseFrame d = .ok (type ++ length ++ d.payload) ∧
      ∀ rest, parseNext (type ++ length ++ (d.payload ++ rest)) = parseNext rest := by
  have hframe := d.frame.toNat_lt
  have hlen : d.payload.length < 2 ^ 62 := by
    rw [d.payload_length]
    exact (UInt32.toNat_lt _).trans (by decide)
  obtain ⟨type, htype⟩ := Varint.append_ok (show 0x1f * d.frame.toNat + 0x21 < 2 ^ 62 by omega)
  obtain ⟨length, hlength⟩ := Varint.append_ok hlen
  refine ⟨type, length, htype, hlength, ?_, parseNext_unknown (by omega) htype hlength⟩
  unfold appendGreaseFrame GreaseDraws.greaseFrame
  dsimp only
  rw [htype, ok_bind, hlength, ok_bind]

theorem length_entries_sent (f : Settings) (send : Bool) (d : GreaseDraws)
    (hfresh : send = true → f.other.lookup d.greaseSetting.1 = none) :
    (Settings.entries (f.sent send d) .stored).length =
      (Settings.entries f .stored).length + send.toNat := by
  cases send with
  | false => rfl
  | true =>
    have hknown : ∀ k, (f.sent true d).value? k = f.value? k := fun k => by cases k <;> rfl
    have hkeep :
        (f.other.range .stored).filter (·.1 ≠ d.greaseSetting.1) = f.other.range .stored := by
      refine filter_eq_self.mpr fun e he => decide_eq_true fun heq => ?_
      have hlookup := GoMap.mem_range.mp he
      rw [heq, hfresh rfl] at hlookup
      cases hlookup
    have hrange : (f.sent true d).other.range .stored = d.greaseSetting :: f.other.range .stored :=
      (GoMap.range_insert _ _ _).trans (by rw [hkeep])
    simp only [Settings.entries, hknown, hrange, length_append, length_cons, Bool.toNat_true]
    omega

/-! ## The stream, written and read -/

theorem appendControlStream_eq (m : Memory) (p : Fin m.frames.length) (send : Bool)
    (d : GreaseDraws)
    {frame : Bytes} (hframe : ∀ g, g.Alike ((m.settings p).sent send d) → ∀ order sorting,
      Settings.append g order sorting = .ok frame) :
    ∃ tail, (send = false → tail = []) ∧ (send = true → appendGreaseFrame d = .ok tail) ∧
      ∀ c, ∃ maps, appendControlStream m p send c d = .ok ([0x0] ++ frame ++ tail, maps) ∧
        ∀ f ∈ m.frames, Memory.load maps f = Memory.load m.maps f := by
  have hbytes := fun c : Choices => hframe _ (load_greased m.maps m.frames[p] send c.copy d)
    c.range c.sorting
  have hkept : ∀ c : Choices, ∀ f ∈ m.frames,
      Memory.load (greased m.maps m.frames[p] send c.copy d).2 f = Memory.load m.maps f := by
    intro c f hf
    obtain ⟨new, hnew⟩ := greased_maps m.maps m.frames[p] send c.copy d
    rw [hnew, m.load_kept new hf]
  cases send with
  | false =>
    refine ⟨[], fun _ => rfl, fun h => (nomatch h), fun c => ⟨_, ?_, hkept c⟩⟩
    unfold appendControlStream
    dsimp only
    rw [hbytes c, append_nil]
    rfl
  | true =>
    obtain ⟨type, length, -, -, hreserved, -⟩ := appendGreaseFrame_ok d
    refine ⟨_, fun h => (nomatch h), fun _ => hreserved, fun c => ⟨_, ?_, hkept c⟩⟩
    unfold appendControlStream
    dsimp only
    rw [hbytes c, hreserved]
    rfl

/-- **The control stream.** For all choices that Go makes, `appendControlStream`
writes the same bytes: the stream type, a SETTINGS frame with the settings to be
sent in ascending order, which is read back as them, and with GREASE one frame that
is passed over. The objects of the caller stay as they are. -/
theorem appendControlStream_read_back (m : Memory) (p : Fin m.frames.length) (send : Bool)
    (d : GreaseDraws) (hplain : (m.settings p).Plain)
    (hfresh : send = true → (m.settings p).other.lookup d.greaseSetting.1 = none)
    (hsize : sizeOf (Settings.entries ((m.settings p).sent send d) .stored) ≤ 8192) :
    ∃ entries payload length tail,
      (∀ c, ∃ maps, appendControlStream m p send c d =
          .ok ([0x0] ++ ([0x4] ++ length ++ payload) ++ tail, maps) ∧
        ∀ f ∈ m.frames, Memory.load maps f = Memory.load m.maps f) ∧
      Varint.append payload.length = .ok length ∧ appendEntries entries = .ok payload ∧
      entries.Pairwise (fun a b => a.1 < b.1) ∧
      entries.length = (Settings.entries (m.settings p) .stored).length + send.toNat ∧
      (∃ g, parseSettingsFrame (payload ++ tail) payload.length = .ok (g, tail) ∧
        g.Same ((m.settings p).sent send d).normalize ∧
        ((m.settings p).Normal → g.Same ((m.settings p).sent send d))) ∧
      (send = false → tail = []) ∧
      (send = true → ∃ type size, Varint.append (0x1f * d.frame.toNat + 0x21) = .ok type ∧
        Varint.append d.payload.length = .ok size ∧ tail = type ++ size ++ d.payload ∧
        ∀ rest, parseNext (tail ++ rest) = parseNext rest) := by
  have hsent := hplain.sent send d
  obtain ⟨entries, payload, length, hwritten, hperm, hpayload, hpayloadSize, hlength, hall⟩ :=
    append_eq hsent (by omega) (rfl : Varint.append 0x4 = .ok [0x4])
  obtain ⟨tail, hnone, hreserved, hstream⟩ := appendControlStream_eq m p send d hall
  obtain ⟨g, hparse, hsame⟩ := parseSettingsFrame_payload hsent hwritten hpayload (by omega) tail
  refine ⟨entries, payload, length, tail, hstream, hlength, hpayload, hwritten.ascending, ?_,
    ⟨g, hparse, hsame, fun hnormal => ?_⟩, hnone, fun hsend => ?_⟩
  · rw [hperm.length_eq, length_entries_sent _ _ _ hfresh]
  · have hnormal' : ((m.settings p).sent send d).Normal := by
      cases send with
      | false => exact hnormal
      | true => exact ⟨hnormal.1, hnormal.2, hnormal.3⟩
    rwa [Settings.normalize_of_normal hnormal'] at hsame
  · obtain ⟨type, size, htype, hsizeBytes, hframe, hskip⟩ := appendGreaseFrame_ok d
    obtain rfl := Except.ok.inj ((hreserved hsend).symm.trans hframe)
    refine ⟨type, size, htype, hsizeBytes, rfl, fun rest => ?_⟩
    rw [append_assoc]
    exact hskip rest

/-- Three settings with a field of their own, and WebTransport. -/
def chromeMemory : Memory where
  frames := [⟨65536, 16384, 100, true, false, some 0⟩]
  maps := [AList.singleton 0x2b603742 1]
  valid := by decide

theorem appendControlStream_read_back_chrome :
    ∃ payload tail g, parseSettingsFrame (payload ++ tail) payload.length = .ok (g, tail) ∧
      g.Same ((chromeMemory.settings ⟨0, by decide⟩).sent true ⟨3, 7, 5, [9], by decide⟩) := by
  have hplain : (chromeMemory.settings ⟨0, by decide⟩).Plain := by
    refine ⟨fun {k v} hk => ?_, fun {id v} hlookup => ?_⟩
    · cases k <;> cases hk <;> decide
    · obtain ⟨rfl, rfl⟩ : id = 0x2b603742 ∧ v = 1 := by
        have hmem := AList.mem_lookup_iff.mp (Option.mem_def.mpr hlookup)
        cases mem_singleton.mp hmem
        exact ⟨rfl, rfl⟩
      decide
  obtain ⟨-, payload, -, tail, -, -, -, -, -, ⟨g, hparse, -, hsame⟩, -⟩ :=
    appendControlStream_read_back chromeMemory ⟨0, by decide⟩ true ⟨3, 7, 5, [9], by decide⟩ hplain
      (fun _ => by decide) (by decide)
  exact ⟨payload, tail, g, hparse, hsame ⟨by decide, by decide, by decide⟩⟩

end HeadlessClient.Http3
