import HeadlessClient.Capture.AssembleTCP
import HeadlessClient.Capture.HelloExtent
import HeadlessClient.Wirediff.Reports

/-!
# Wirediff — two readers of one flow

The hello assembler APPENDS payloads as they arrive; the stream reassembler puts
them where their sequence numbers say. `readers_agree`: the hello that the one
reports is the hello at the start of the other's stream, for a hello that arrives
in order. A segment that arrives again, or early, before the hello is complete
makes them disagree.
-/

namespace HeadlessClient.Wirediff

open Base Capture List

/-! ## A connection in a capture -/

/-- The texts of one direction of a connection, and its first sequence number. -/
structure Connection where
  flowKey : Bytes
  reverse : Bytes
  target : Bytes
  isn : UInt32

/-- Packets that bring nothing to the flow: those of other flows, and those
without a payload. -/
def Apart (flowKey : Bytes) : Packet → Prop
  | .tcp flowKey' _ _ _ _ payload => flowKey' ≠ flowKey ∨ payload = []
  | _ => True

namespace Connection

variable {bytes : Bytes}

def syn (f : Connection) : Packet := .tcp f.flowKey f.reverse f.target true f.isn []

def segment (f : Connection) (p : Part bytes) : Packet :=
  .tcp f.flowKey f.reverse f.target false (f.isn + 1 + UInt32.ofNat p.offset) p.chunk.data

/-- The SYN, then segments and packets of others. -/
def capture (f : Connection) (events : List (Event (Part bytes) (Apart f.flowKey))) : List Packet :=
  f.syn :: events.map (Event.call f.segment)

end Connection

/-! ## The stream reassembler -/

def nextStreams (streams : Streams) : Packet → Streams
  | .tcp flowKey _ _ syn sequence payload =>
    let streams := if syn then streams.syn flowKey sequence else streams
    if payload ≠ [] then streams.add flowKey sequence payload else streams
  | _ => streams

theorem streams_observe (s : Reading) (hello : Option Hello) (target : Bytes)
    (transport : TransportName) : (s.observe hello target transport).streams = s.streams := by
  cases hello with
  | none => rfl
  | some hello => rfl

theorem streams_read {c : Primitives} {s s' : Reading} {packet : Packet}
    (h : Reading.read c s packet = .ok s') : s'.streams = nextStreams s.streams packet := by
  obtain ⟨hello, a', -, h⟩ := step_ok h
  cases h
  cases packet with
  | tcp flowKey reverse target syn sequence payload => exact streams_observe _ _ _ _
  | udp flowKey target payload =>
    simp only [Reading.file]
    split
    · rw [streams_observe]
      split <;> rfl
    · rw [streams_observe]
      split <;> rfl
  | other => rfl

theorem streams_foldlM {c : Primitives} (packets : List Packet) : ∀ {s s' : Reading},
    packets.foldlM (Reading.read c) s = .ok s' →
      s'.streams = packets.foldl nextStreams s.streams := by
  induction packets with
  | nil =>
    intro s s' h
    cases h
    rfl
  | cons packet packets ih =>
    intro s s' h
    rw [foldlM_cons] at h
    obtain ⟨s₁, hread, h⟩ := bind_eq_ok.mp h
    rw [ih h, streams_read hread]
    rfl

section Streams

variable {bytes : Bytes} {f : Connection} {streams : Streams} {parts : List (Part bytes)}

theorem holds_segment (hlen : bytes.length < 2 ^ 32)
    (h : streams.Holds f.flowKey (f.isn + 1) parts) (p : Part bytes) :
    (nextStreams streams (f.segment p)).Holds f.flowKey (f.isn + 1) (parts ++ [p]) := by
  by_cases hempty : p.chunk.data = []
  · -- an empty payload is not handed over, and would not be stored
    obtain ⟨stream, hlookup, hkept⟩ := h
    refine ⟨stream, ?_, ?_⟩
    · simpa [nextStreams, Connection.segment, hempty] using hlookup
    · have hstore := hkept.store hlen p
      rw [hempty] at hstore
      simpa [TCPStream.store] using hstore
  · have hadd := h.addPart hlen p
    simpa [nextStreams, Connection.segment, hempty, Streams.afterCall, Streams.addPart] using hadd

theorem holds_apart {base : UInt32} {flowKey : Bytes} (h : streams.Holds flowKey base parts)
    {packet : Packet} (hapart : Apart flowKey packet) :
    (nextStreams streams packet).Holds flowKey base parts := by
  cases packet with
  | tcp flowKey' reverse target syn sequence payload =>
    have hsyn :
        (if syn then streams.syn flowKey' sequence else streams).Holds flowKey base parts := by
      cases syn with
      | false => exact h
      | true =>
        show (streams.afterCall (.syn flowKey' sequence)).Holds flowKey base parts
        exact h.apart trivial
    unfold nextStreams
    dsimp only
    by_cases hempty : payload = []
    · rw [if_neg (not_not_intro hempty)]
      exact hsyn
    · rw [if_pos hempty]
      show (Streams.afterCall _ (.add flowKey' sequence payload)).Holds flowKey base parts
      exact hsyn.apart (hapart.resolve_right hempty)
  | udp flowKey' target payload => exact h
  | other => exact h

theorem holds_capture (hlen : bytes.length < 2 ^ 32)
    (hnew : streams.streams.lookup f.flowKey = none)
    (events : List (Event (Part bytes) (Apart f.flowKey))) :
    ((f.capture events).foldl nextStreams streams).Holds f.flowKey (f.isn + 1)
      (arrived events) := by
  rw [Connection.capture, foldl_cons]
  apply foldl_events (fun (a : Streams) parts => a.Holds f.flowKey (f.isn + 1) parts)
    (fun _ => True)
  · exact fun _ _ _ => trivial
  · intro a parts p h _
    exact holds_segment hlen h p
  · intro a parts packet h hapart
    exact holds_apart h hapart
  · refine ⟨_, Streams.lookup_update_self _ _ _, ?_⟩
    rw [hnew]
    exact TCPStream.kept_start _
  · exact trivial

end Streams

/-! ## The hello assembler -/

open TCPStream (totalLength totalLength_append)

section Assembler

variable {c : Primitives} {a : Assembler} {flowKey : Bytes}

theorem assembleTCP_other {flowKey' payload : Bytes} {hello : Option Hello} {a' : Assembler}
    (h : a.assembleTCP flowKey' payload = .ok (hello, a')) (hne : flowKey ≠ flowKey') :
    a'.tcpFlows.lookup flowKey = a.tcpFlows.lookup flowKey := by
  rcases a.assembleTCP_cases h with ⟨-, rfl⟩ | ⟨-, flow', -, rfl⟩
  · rfl
  · exact AList.lookup_insert_ne hne

theorem lookup_next_apart {packet : Packet} (hsized : a.Sized) (hapart : Apart flowKey packet) :
    (next c a packet).tcpFlows.lookup flowKey = a.tcpFlows.lookup flowKey := by
  obtain ⟨⟨hello, a'⟩, hcall⟩ := assemble_returns c hsized packet
  rw [next_of_ok hcall]
  obtain ⟨-, rfl⟩ | ⟨flowKey', _, _, _, _, payload, rfl, hpayload, htcp⟩ |
    ⟨flowKey', target, payload, -, -, -, rfl⟩ | ⟨initial, found, -, hquic, -⟩ :=
      assemble_cases hcall
  · rfl
  · exact assembleTCP_other htcp (hapart.resolve_right hpayload).symm
  · rw [(a.assembleDTLS_frame _ _).1]
  · rw [(a.addToStream_frame hquic).1]

theorem report_apart {packet : Packet} {hello : Hello} (hapart : Apart flowKey packet) :
    report c a packet ≠ some (.tcp flowKey, hello) := by
  intro h
  obtain ⟨hkey, hcall⟩ := report_eq_some h
  obtain ⟨hnone, -⟩ | ⟨flowKey', _, _, _, _, payload, rfl, hpayload, -⟩ |
    ⟨flowKey', target, payload, rfl, hdtls, -, -⟩ | ⟨initial, found, hquicKey, -, -⟩ :=
      assemble_cases hcall
  · cases hnone
  · cases hkey
    exact hapart.resolve_right hpayload rfl
  · obtain ⟨f, -, heq⟩ := packetKey_dtls hdtls hkey
    cases heq
  · rw [hkey] at hquicKey
    cases hquicKey

end Assembler

/-! ## A hello that arrives in order -/

/-- The segments that bring the record do so in order, none of them ends where
its extension block begins, and what follows a record without a block is
nothing. Once the record is complete, segments may come as they like. -/
structure Delivered (h : HelloRecord) (t : Bytes) (parts : List (Part (h.encode ++ t))) : Prop where
  ends : h.extensions.isSome = true ∨ t = []
  next_part : ∀ ps p qs, parts = ps ++ p :: qs → totalLength ps < h.encode.length → 0 < p.length →
    p.offset = totalLength ps
  not_block : ∀ ps qs, parts = ps ++ qs → totalLength ps = h.blockOffset →
    h.encode.length ≤ totalLength ps

section Delivered

variable {h : HelloRecord} {t : Bytes} {parts : List (Part (h.encode ++ t))}
  {p : Part (h.encode ++ t)}

theorem Delivered.init (hd : Delivered h t (parts ++ [p])) : Delivered h t parts where
  ends := hd.ends
  next_part := by
    intro ps q qs hsplit
    exact hd.next_part ps q (qs ++ [p]) (by rw [hsplit, append_assoc]; rfl)
  not_block := by
    intro ps qs hsplit
    exact hd.not_block ps (qs ++ [p]) (by rw [hsplit, append_assoc])

/-- The condition, segment by segment. -/
theorem Delivered.of_take (hends : h.extensions.isSome = true ∨ t = [])
    (hnext : ∀ k (hk : k < parts.length), totalLength (parts.take k) < h.encode.length →
      0 < parts[k].length → parts[k].offset = totalLength (parts.take k))
    (hblock : ∀ k < parts.length + 1, totalLength (parts.take k) = h.blockOffset →
      h.encode.length ≤ totalLength (parts.take k)) : Delivered h t parts where
  ends := hends
  next_part := by
    intro ps p qs hsplit
    have hnext := hnext ps.length (by rw [hsplit, length_append, length_cons]; omega)
    simpa [hsplit] using hnext
  not_block := by
    intro ps qs hsplit
    have hblock := hblock ps.length (by rw [hsplit, length_append]; omega)
    simpa [hsplit] using hblock

theorem Delivered.covered (hd : Delivered h t parts) :
    ∀ i < h.encode.length, i < totalLength parts →
    covered (parts.map fun p => p.chunk) i = true := by
  induction parts using List.reverseRecOn with
  | nil =>
    intro i _ hi
    cases hi
  | append_singleton ps p ih =>
    intro i hi htotal
    rw [totalLength_append] at htotal
    rw [covered_iff]
    by_cases hold : i < totalLength ps
    · obtain ⟨c, hc, hin⟩ := covered_iff.mp (ih hd.init i hi hold)
      refine ⟨c, ?_, hin⟩
      rw [map_append]
      exact mem_append_left _ hc
    · have hnext := hd.next_part ps p [] rfl (by omega) (by omega)
      refine ⟨p.chunk, by simp, Chunk.carries_iff.mpr ?_⟩
      rw [p.length_chunk]
      show p.offset ≤ i ∧ i < p.offset + p.length
      omega

theorem take_append_part (hoffset : p.offset = totalLength parts) :
    (h.encode ++ t).take (totalLength parts) ++ p.chunk.data =
      (h.encode ++ t).take (totalLength (parts ++ [p])) := by
  show (h.encode ++ t).take (totalLength parts) ++ ((h.encode ++ t).drop p.offset).take p.length = _
  rw [totalLength_append, hoffset, ← take_add]

/-- From the record on, every prefix of the stream starts with its hello. -/
theorem parseHello_take (hfits : h.FitsRecord) (hends : h.extensions.isSome = true ∨ t = [])
    {hello : Hello} (hparse : parseHello h.encode = .ok hello) {n : Nat}
    (hn : h.encode.length ≤ n) :
    parseHello ((h.encode ++ t).take n) = .ok (hello.withRaw ((h.encode ++ t).take n)) := by
  have htake : (h.encode ++ t).take n = h.encode ++ t.take (n - h.encode.length) := by
    rw [take_append, take_of_length_le hn]
  have hsame := (HelloRecord.parseHello_append_iff hfits (t.take (n - h.encode.length))).mpr (by
    rcases hends with hsome | hnil
    · exact .inl hsome
    · rw [hnil]
      exact .inr (.inl (take_nil)))
  rw [htake, hsame, hparse]
  rfl

theorem parseHello_take_short (htls : h.framing.isDTLS = false) (hfits : h.FitsRecord) {n : Nat}
    (hn : n < h.encode.length) (hblock : n ≠ h.blockOffset) :
    parseHello ((h.encode ++ t).take n) = .error .truncated := by
  rw [take_append_of_le_length (by omega)]
  apply h.parseHello_cut htls hfits.bodyLength_lt (take_append_drop n h.encode)
  · rw [ne_eq, drop_eq_nil_iff]
    omega
  · rw [length_take, Nat.min_eq_left (by omega)]
    exact hblock

end Delivered

/-! ## Both readers -/

section Readers

variable {c : Primitives} {h : HelloRecord} {t : Bytes} {f : Connection} {a : Assembler}
  {parts : List (Part (h.encode ++ t))}

/-- The flow in the assembler: what has arrived of the record, or done. -/
def Appended (a : Assembler) (flowKey : Bytes) (parts : List (Part (h.encode ++ t))) : Prop :=
  if totalLength parts < h.encode.length then
    a.Fed flowKey ((h.encode ++ t).take (totalLength parts))
  else Finished a (.tcp flowKey)

theorem Appended.of_lookup {a' : Assembler} {flowKey : Bytes} (ha : Appended a flowKey parts)
    (hlookup : a'.tcpFlows.lookup flowKey = a.tcpFlows.lookup flowKey) :
    Appended a' flowKey parts := by
  unfold Appended at ha ⊢
  split_ifs at ha ⊢ with hopen
  · unfold Assembler.Fed at ha ⊢
    rw [hlookup]
    exact ha
  · obtain ⟨flow, hflow, hdone⟩ := ha
    exact ⟨flow, hlookup.trans hflow, hdone⟩

variable {p : Part (h.encode ++ t)} {hello : Hello}

theorem assemble_segment (hpos : 0 < p.length) :
    Reading.assemble c a (f.segment p) = a.assembleTCP f.flowKey p.chunk.data := by
  have hne : p.chunk.data ≠ [] := by
    rw [← length_pos_iff, p.length_chunk]
    exact hpos
  rw [Connection.segment, Reading.assemble, if_neg hne]

theorem assemble_segment_empty {p : Part (h.encode ++ t)} (hzero : p.length = 0) :
    Reading.assemble c a (f.segment p) = .ok (none, a) := by
  have hnil : p.chunk.data = [] := by
    rw [← length_eq_zero_iff, p.length_chunk]
    exact hzero
  rw [Connection.segment, Reading.assemble, if_pos hnil]

/-- **A segment for an open flow**: what has arrived is kept, or it is the whole
record and its hello is reported. -/
theorem Appended.open_segment (htls : h.framing.isDTLS = false) (hfits : h.FitsRecord)
    (hparse : parseHello h.encode = .ok hello)
    (hfed : a.Fed f.flowKey ((h.encode ++ t).take (totalLength parts)))
    (hopen : totalLength parts < h.encode.length) (hpos : 0 < p.length)
    (hd : Delivered h t (parts ++ [p])) (hbudget : totalLength (parts ++ [p]) < 65536) :
    ∃ found a', Reading.assemble c a (f.segment p) = .ok (found, a') ∧
      Appended a' f.flowKey (parts ++ [p]) ∧
      ∀ hello', found = some hello' →
        h.encode.length ≤ totalLength (parts ++ [p]) ∧ ∃ raw, hello' = hello.withRaw raw := by
  have htotal := totalLength_append parts p
  have hbody := take_append_part (hd.next_part parts p [] rfl hopen hpos)
  obtain ⟨rest, hfirst⟩ := h.encode_cons
  have hrecord : ∃ rest, (h.encode ++ t).take (totalLength parts) ++ p.chunk.data =
      contentTypeHandshake :: rest := by
    obtain ⟨n, hn⟩ : ∃ n, totalLength (parts ++ [p]) = n + 1 := ⟨_, (Nat.succ_pred (by omega)).symm⟩
    rw [hbody, hn, hfirst]
    exact ⟨_, rfl⟩
  obtain ⟨rest, hrecord⟩ := hrecord
  have hsize :
      ((h.encode ++ t).take (totalLength parts) ++ p.chunk.data).length ≤ maxFlowBuffer := by
    rw [hbody, length_take]
    exact (Nat.min_le_left _ _).trans hbudget.le
  rw [assemble_segment hpos]
  by_cases hshort : totalLength (parts ++ [p]) < h.encode.length
  · have hblock : totalLength (parts ++ [p]) ≠ h.blockOffset := by
      intro heq
      have := hd.not_block (parts ++ [p]) [] (append_nil _).symm heq
      omega
    have htruncated := @parseHello_take_short h t htls hfits _ hshort hblock
    rw [← hbody] at htruncated
    obtain ⟨a', hcall, hfed'⟩ := Assembler.assembleTCP_truncated hfed hrecord hsize htruncated
    refine ⟨none, a', hcall, ?_, by simp⟩
    rw [Appended, if_pos hshort, ← hbody]
    exact hfed'
  · have hwhole := @parseHello_take h t hfits hd.ends hello hparse _ (Nat.not_lt.mp hshort)
    rw [← hbody] at hwhole
    have hcall := Assembler.assembleTCP_fed hfed hrecord hsize
    rw [hwhole, dropError, ok_bind] at hcall
    refine ⟨_, _, hcall, ?_, ?_⟩
    · rw [Appended, if_neg hshort]
      exact ⟨_, AList.lookup_insert _, rfl⟩
    · intro hello' heq
      cases heq
      exact ⟨Nat.not_lt.mp hshort, _, rfl⟩

/-- **A segment**: the assembler reports the record's own hello, or nothing. -/
theorem Appended.segment (htls : h.framing.isDTLS = false) (hfits : h.FitsRecord)
    (hparse : parseHello h.encode = .ok hello) (ha : Appended a f.flowKey parts)
    (hd : Delivered h t (parts ++ [p])) (hbudget : totalLength (parts ++ [p]) < 65536) :
    Appended (next c a (f.segment p)) f.flowKey (parts ++ [p]) ∧
      ∀ hello', report c a (f.segment p) = some (.tcp f.flowKey, hello') →
        h.encode.length ≤ totalLength (parts ++ [p]) ∧ ∃ raw, hello' = hello.withRaw raw := by
  have htotal := totalLength_append parts p
  unfold Appended at ha
  split_ifs at ha with hopen
  · rcases Nat.eq_zero_or_pos p.length with hzero | hpos
    · have hcall := @assemble_segment_empty c h t f a p hzero
      constructor
      · rw [next_of_ok hcall, Appended, htotal, hzero, Nat.add_zero, if_pos hopen]
        exact ha
      · intro hello' hreport
        have hsome := (report_eq_some hreport).2
        rw [hcall] at hsome
        cases hsome
    · obtain ⟨found, a', hcall, happended, hfound⟩ :=
        Appended.open_segment (c := c) htls hfits hparse ha hopen hpos hd hbudget
      constructor
      · rw [next_of_ok hcall]
        exact happended
      · intro hello' hreport
        have hsome := (report_eq_some hreport).2
        rw [hcall] at hsome
        cases hsome
        exact hfound hello' rfl
  · constructor
    · rw [Appended, if_neg (by omega)]
      exact ha.next
    · intro hello' hreport
      exact absurd ha (report_finishes hreport (by simp)).1

/-- What is true of the assembler after the events. -/
structure Followed (c : Primitives) (a₀ : Assembler) (f : Connection) (hello : Hello)
    (events : List (Event (Part (h.encode ++ t)) (Apart f.flowKey))) : Prop where
  sized : (afterPackets c a₀ (f.capture events)).Sized
  appended : Appended (afterPackets c a₀ (f.capture events)) f.flowKey (arrived events)
  reported : ∀ hello', (.tcp f.flowKey, hello') ∈ reports c a₀ (f.capture events) →
    h.encode.length ≤ totalLength (arrived events) ∧ ∃ raw, hello' = hello.withRaw raw

theorem capture_append (f : Connection)
    (events : List (Event (Part (h.encode ++ t)) (Apart f.flowKey)))
    (event : Event (Part (h.encode ++ t)) (Apart f.flowKey)) :
    f.capture (events ++ [event]) = f.capture events ++ [event.call f.segment] := by
  simp [Connection.capture]

/-- **Every delivery**, by induction on the events from the last one on. -/
theorem followed (htls : h.framing.isDTLS = false) (hfits : h.FitsRecord)
    (hparse : parseHello h.encode = .ok hello) (hsized : a.Sized)
    (hnew : a.tcpFlows.lookup f.flowKey = none)
    (events : List (Event (Part (h.encode ++ t)) (Apart f.flowKey)))
    (hd : Delivered h t (arrived events)) (hbudget : totalLength (arrived events) < 65536) :
    Followed c a f hello events := by
  induction events using List.reverseRecOn with
  | nil =>
    have hcall : Reading.assemble c a f.syn = .ok (none, a) := rfl
    have hafter : afterPackets c a (f.capture ([] : List (Event (Part (h.encode ++ t)) _))) = a :=
      next_of_ok hcall
    refine ⟨?_, ?_, ?_⟩
    · rw [hafter]
      exact hsized
    · rw [hafter, Appended, if_pos]
      · exact hnew
      · exact length_pos_iff.mpr h.encode_ne_nil
    · intro hello' hmem
      simp [Connection.capture, reports, report, hcall] at hmem
  | append_singleton events event ih =>
    have harrived : arrived (events ++ [event]) = arrived events ++ arrived [event] :=
      filterMap_append
    rw [harrived] at hd hbudget
    cases event with
    | item p =>
      change Delivered h t (arrived events ++ [p]) at hd
      change totalLength (arrived events ++ [p]) < 65536 at hbudget
      have htotal := totalLength_append (arrived events) p
      have ih := ih hd.init (by omega)
      obtain ⟨hnext, hreport⟩ := ih.appended.segment (c := c) htls hfits hparse hd hbudget
      refine ⟨?_, ?_, ?_⟩
      · rw [capture_append, afterPackets_append]
        exact sized_next ih.sized
      · rw [capture_append, afterPackets_append, harrived]
        exact hnext
      · intro hello' hmem
        rw [capture_append, reports_append, mem_append] at hmem
        rw [harrived]
        change h.encode.length ≤ totalLength (arrived events ++ [p]) ∧ _
        rcases hmem with hold | hlast
        · obtain ⟨hle, hraw⟩ := ih.reported hello' hold
          exact ⟨by omega, hraw⟩
        · exact hreport hello' (Option.mem_toList.mp hlast)
    | other packet apart =>
      rw [show arrived [Event.other packet apart] = ([] : List (Part (h.encode ++ t))) from rfl,
        append_nil] at hd hbudget harrived
      have ih := ih hd hbudget
      refine ⟨?_, ?_, ?_⟩
      · rw [capture_append, afterPackets_append]
        exact sized_next ih.sized
      · rw [capture_append, afterPackets_append, harrived]
        exact ih.appended.of_lookup (lookup_next_apart ih.sized apart)
      · intro hello' hmem
        rw [capture_append, reports_append, mem_append] at hmem
        rw [harrived]
        rcases hmem with hold | hlast
        · exact ih.reported hello' hold
        · exact absurd (Option.mem_toList.mp hlast) (report_apart apart)

/-- **Two readers agree.** For a stream that starts with a hello record and is
delivered in order until the record is complete, the capture is read to its end,
and each hello that the assembler reports for the flow is the one at the start
of the reassembled stream, up to `raw`. -/
theorem readers_agree (c : Primitives) (f : Connection) (h : HelloRecord)
    (htls : h.framing.isDTLS = false) (hfits : h.FitsRecord) (t : Bytes)
    (hlen : (h.encode ++ t).length < 2 ^ 32) {s : Reading} (hsized : s.assembler.Sized)
    (hassembler : s.assembler.tcpFlows.lookup f.flowKey = none)
    (hstreams : s.streams.streams.lookup f.flowKey = none)
    (events : List (Event (Part (h.encode ++ t)) (Apart f.flowKey)))
    (hbudget : totalLength (arrived events) < 65536) (hd : Delivered h t (arrived events))
    (order : MapOrder) :
    ∃ s', (f.capture events).foldlM (Reading.read c) s = .ok s' ∧
      ∀ hello, (.tcp f.flowKey, hello) ∈ reports c s.assembler (f.capture events) →
        ∃ stream hello', s'.streams.stream order f.flowKey = .ok stream ∧
          parseHello stream = .ok hello' ∧ hello = hello'.withRaw hello.raw := by
  obtain ⟨own, hadd⟩ := addAll_returns (h.extensions.getD [])
    (headReport h.framing h.fields h.encode) (h.blockOffset + 2)
  have hparse := (h.parseHello_encode hfits.bodyLength_lt).trans hadd
  have hfollowed : Followed c s.assembler f own events :=
    followed htls hfits hparse hsized hassembler events hd hbudget
  obtain ⟨s', hread, -⟩ := read_reports c (f.capture events) s hsized
  refine ⟨s', hread, ?_⟩
  intro hello hmem
  obtain ⟨hcomplete, raw, rfl⟩ := hfollowed.reported hello hmem
  have hholds := holds_capture hlen hstreams events
  rw [← streams_foldlM _ hread] at hholds
  obtain ⟨n, hstream, hgap⟩ := hholds.stream_eq hlen order
  have hgap := hgap (Nat.lt_trans hbudget (by decide))
  have hn : h.encode.length ≤ n := by
    by_contra hshort
    have hcovered := hd.covered n (by omega) (by omega)
    rw [hgap.gap] at hcovered
    cases hcovered
  exact ⟨_, _, hstream, parseHello_take hfits hd.ends hparse hn, rfl⟩

end Readers

/-! ### A hello with two groups -/

/-- A TLS ClientHello that offers two groups. -/
def groupsHello : HelloRecord where
  framing := .tls 0x0301 isDTLSVersion_tls10
  fields := .minimal 0x1302
  extensions := some [⟨0x000a, [0, 4, 0, 29, 0, 23], by decide⟩]
  fits := by
    intro es hes
    cases hes
    decide

def groupsStream : Bytes := groupsHello.encode ++ changeCipherSpec

def groupsConnection : Connection := ⟨ascii "client", ascii "server", ascii "host", 0xffffffff⟩

/-- The bytes of the stream from `offset` on. -/
def groupsPart (offset length : Nat) (inside : offset + length ≤ 69) : Part groupsStream :=
  ⟨offset, length, inside.trans (by decide +kernel)⟩

/-- The hello in two segments, the first of which comes again later. -/
def groupsInOrder : List (Event (Part groupsStream) (Apart groupsConnection.flowKey)) :=
  [.item (groupsPart 0 61 (by decide)), .other .other trivial,
    .item (groupsPart 61 8 (by decide)), .item (groupsPart 0 61 (by decide))]

theorem delivered_groupsInOrder :
    Delivered groupsHello changeCipherSpec (arrived groupsInOrder) := by
  apply Delivered.of_take (.inl rfl)
  · decide +kernel
  · decide +kernel

theorem readers_agree_groupsInOrder :
    (reports plainPrimitives .new (groupsConnection.capture groupsInOrder)).map
        (fun r => (r.1, r.2.supportedGroups)) = [(.tcp groupsConnection.flowKey, [29, 23])] ∧
      ∃ s', (groupsConnection.capture groupsInOrder).foldlM (Reading.read plainPrimitives) .new =
          .ok s' ∧
        ∀ hello, (.tcp groupsConnection.flowKey, hello) ∈
            reports plainPrimitives .new (groupsConnection.capture groupsInOrder) →
          ∃ stream hello', s'.streams.stream .stored groupsConnection.flowKey = .ok stream ∧
            parseHello stream = .ok hello' ∧ hello = hello'.withRaw hello.raw := by
  refine ⟨by decide +kernel, ?_⟩
  exact readers_agree plainPrimitives groupsConnection groupsHello rfl (by decide +kernel)
    changeCipherSpec (by decide +kernel) Assembler.sized_new rfl rfl groupsInOrder
    (by decide +kernel) delivered_groupsInOrder .stored

/-- Two bytes of the list of groups come again before the rest. -/
def groupsOverlapping : List (Event (Part groupsStream) (Apart groupsConnection.flowKey)) :=
  [.item (groupsPart 0 61 (by decide)), .item (groupsPart 59 2 (by decide)),
    .item (groupsPart 61 2 (by decide))]

/-- **The readers disagree**: the assembler reports the retransmitted bytes as a
group of their own. -/
theorem readers_disagree :
    (reports plainPrimitives .new (groupsConnection.capture groupsOverlapping)).map
        (fun r => (r.1, r.2.supportedGroups)) = [(.tcp groupsConnection.flowKey, [29, 29])] ∧
    ((groupsConnection.capture groupsOverlapping).foldlM (Reading.read plainPrimitives) .new).map
        (fun s => (s.streams.stream .stored groupsConnection.flowKey).toOption.map fun stream =>
          (parseHello stream).toOption.map fun hello => hello.supportedGroups) =
      .ok (some (some [29, 23])) := by
  constructor
  · decide +kernel
  · decide +kernel

end HeadlessClient.Wirediff
