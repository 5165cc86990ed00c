import HeadlessClient.Base.Interleave
import HeadlessClient.Capture.Assembler
import HeadlessClient.Capture.HelloFormat
import HeadlessClient.Capture.QuicProtection

/-!
# Capture — a hello out of QUIC packets

The CRYPTO stream of a connection starts with the client's hello. Its chunks
arrive in Initial packets in any order, some twice, some overlapping.
`assembleCrypto_eq_take`: the chunks seen so far give the LONGEST covered prefix
of the stream. The length field of the message is inside that prefix, so
completion is decided by data that may still be on its way; `assembleQUIC_exact`
says that the decision is right: a hello on exactly the packet that completes
the message, and nothing for the connection ever after. The tool looks for chunks
only up to a CONNECTION_CLOSE frame, so this is so for packets that have no CRYPTO
frame behind one (`ClientPacket.Shown`).
-/

namespace HeadlessClient.Capture

open Base Wire List

/-! ## The chunks seen so far -/

def ChunksOf (bytes : Bytes) (chunks : List QUICCryptoChunk) : Prop :=
  ∀ chunk ∈ chunks, chunk.CutFrom (fun i => bytes.getD i 0) ∧ chunk.finish ≤ bytes.length

theorem ChunksOf.append {bytes : Bytes} {xs ys : List QUICCryptoChunk} (hx : ChunksOf bytes xs)
    (hy : ChunksOf bytes ys) : ChunksOf bytes (xs ++ ys) := by
  intro chunk h
  rcases mem_append.mp h with h | h
  · exact hx chunk h
  · exact hy chunk h

/-- **The chunks give the longest covered prefix**, whatever their order. -/
theorem assembleCrypto_eq_take {bytes : Bytes} {chunks : List QUICCryptoChunk}
    (h : ChunksOf bytes chunks) (hfits : bytes.length ≤ quicMaxCryptoLen) :
    ∃ n, FirstGap (covered chunks) n ∧ n ≤ bytes.length ∧ assembleCrypto chunks = bytes.take n := by
  have hend : covered chunks bytes.length = false := covered_eq_false fun c hc => (h c hc).2
  have hlast : covered chunks (lastFinish chunks) = false :=
    covered_eq_false fun c hc => finish_le_lastFinish hc
  have hfin : lastFinish chunks ≤ bytes.length := lastFinish_le_iff.mpr fun c hc => (h c hc).2
  obtain ⟨n, hgap⟩ := exists_firstGap hend
  have hle := hgap.le hlast
  refine ⟨n, hgap, hgap.le hend, ?_⟩
  rw [assembleCrypto]
  by_cases hzero : lastFinish chunks = 0
  · have hn : n = 0 := by omega
    rw [if_pos (.inl hzero), hn, take_zero]
  · rw [if_neg (by omega), assembled_eq (fun c hc => (h c hc).1), coveredRun_eq hgap hle,
      map_getD_range 0 (hgap.le hend)]

/-- The order, and how often a chunk arrives, does not matter. -/
theorem assembleCrypto_of_mem_iff {bytes : Bytes} {chunks chunks' : List QUICCryptoChunk}
    (h : ChunksOf bytes chunks) (hfits : bytes.length ≤ quicMaxCryptoLen)
    (hsame : ∀ chunk, chunk ∈ chunks' ↔ chunk ∈ chunks) :
    assembleCrypto chunks' = assembleCrypto chunks := by
  have h' : ChunksOf bytes chunks' := fun chunk hmem => h chunk ((hsame chunk).mp hmem)
  obtain ⟨n, hgap, -, hrun⟩ := assembleCrypto_eq_take h hfits
  obtain ⟨n', hgap', -, hrun'⟩ := assembleCrypto_eq_take h' hfits
  rw [covered_congr hsame] at hgap'
  rw [hrun, hrun', hgap'.unique hgap]

/-! ## The message at the start of the stream -/

/-- A CRYPTO stream of at most 65535 bytes that starts with a ClientHello. The
record around the message is the one `CryptoRecord` writes. -/
structure CryptoStream where
  record : HelloRecord
  tail : Bytes
  framed : record.framing = .tls 0x0301 rfl
  client : record.fields.suites.isClient = true
  fits : (record.head ++ record.block ++ tail).length ≤ 65535

namespace CryptoStream

def message (s : CryptoStream) : Bytes := s.record.head ++ s.record.block

def bytes (s : CryptoStream) : Bytes := s.message ++ s.tail

variable (s : CryptoStream)

theorem length_bytes_le : s.bytes.length ≤ 65535 := s.fits

theorem bodyLength_lt : s.record.bodyLength < 256 ^ 3 := by
  have hle := s.record.bodyLength_le
  have hfits := s.fits
  rw [length_append] at hfits
  exact Nat.lt_of_le_of_lt (by omega : s.record.bodyLength ≤ 65535) (by decide)

theorem message_eq : ∃ body, s.message = [s.record.fields.suites.messageType] ++
    (putUint 3 s.record.bodyLength ++ body) ∧ body.length = s.record.bodyLength := by
  refine ⟨s.record.fields.put s.record.framing.isDTLS ++ s.record.block, ?_, rfl⟩
  simp only [message, HelloRecord.head, putHead, Framing.handshakeHeader, s.framed,
    Framing.fragmentHeader, append_assoc, nil_append]

theorem length_message : s.message.length = 4 + s.record.bodyLength := by
  obtain ⟨body, hmessage, hbody⟩ := s.message_eq
  rw [hmessage, length_append, length_append, length_putUint, hbody]
  simp only [length_singleton]
  omega

theorem cryptoRecord_message : Assembler.cryptoRecord s.message = .ok s.record.encode := by
  have hfits : s.message.length ≤ 1 <<< 16 - 1 := by
    have h := s.fits
    rw [length_append] at h
    exact Nat.le_of_add_right_le h
  rw [Assembler.cryptoRecord, decide_eq_true hfits, ensure_true, ok_bind]
  simp only [HelloRecord.encode, HelloRecord.header, Framing.header, s.framed, Framing.version,
    Framing.numbers, message]
  simp [putUint]

theorem parseHello_encode_returns : ∃ hello, parseHello s.record.encode = .ok hello := by
  rw [s.record.parseHello_encode s.bodyLength_lt]
  exact addAll_returns _ _ _

/-- **A prefix of the stream** gives the hello iff the message is in it. -/
theorem helloOfStream_take {n : Nat} (hn : n ≤ s.bytes.length) :
    Assembler.helloOfStream (s.bytes.take n) =
      if n < s.message.length then .ok none else dropError (parseHello s.record.encode) := by
  obtain ⟨body, hmessage, hbody⟩ := s.message_eq
  have hlength := s.length_message
  have htaken : (s.bytes.take n).length = n := by rw [length_take]; omega
  unfold Assembler.helloOfStream
  by_cases hfour : n < 4
  · rw [if_pos (by rw [htaken]; exact hfour), if_pos (by omega)]
  · rw [if_neg (by rw [htaken]; exact hfour)]
    obtain ⟨k, rfl⟩ : ∃ k, n = k + 4 := ⟨n - 4, by omega⟩
    have hstart : ∃ rest, s.bytes.take (k + 4) =
        [s.record.fields.suites.messageType] ++ (putUint 3 s.record.bodyLength ++ rest) := by
      refine ⟨(body ++ s.tail).take k, ?_⟩
      rw [bytes, hmessage]
      simp [putUint]
    obtain ⟨rest, hstart⟩ := hstart
    -- the length of the message, from the bytes that are there
    have hvalue := getUint_putUint s.bodyLength_lt
    obtain ⟨high, middle, low, hput⟩ :
        ∃ high middle low, putUint 3 s.record.bodyLength = [high, middle, low] := ⟨_, _, _, rfl⟩
    rw [hput] at hstart hvalue
    have hhigh : index WireError.panic (s.bytes.take (k + 4)) 1 = .ok high := by rw [hstart]; rfl
    have hmiddle : index WireError.panic (s.bytes.take (k + 4)) 2 = .ok middle := by
      rw [hstart]; rfl
    have hlow : index WireError.panic (s.bytes.take (k + 4)) 3 = .ok low := by rw [hstart]; rfl
    rw [hhigh, ok_bind, hmiddle, ok_bind, hlow, ok_bind]
    dsimp only
    rw [hvalue, ← hlength, htaken]
    by_cases hshort : k + 4 < s.message.length
    · rw [if_pos hshort, if_pos hshort]
    · have hmessage : slice WireError.panic (s.bytes.take (k + 4)) 0 s.message.length =
          .ok s.message := by
        rw [slice_eq (Nat.zero_le _) (by omega), drop_zero, take_take,
          Nat.min_eq_left (by omega), bytes, take_left]
      rw [if_neg hshort, if_neg hshort, hmessage, ok_bind, s.cryptoRecord_message, ok_bind]

/-- The message is covered. -/
def Complete (chunks : List QUICCryptoChunk) : Prop :=
  ∀ i < s.message.length, covered chunks i = true

instance (chunks : List QUICCryptoChunk) : Decidable (s.Complete chunks) :=
  inferInstanceAs (Decidable (∀ i < s.message.length, covered chunks i = true))

variable {s}

theorem Complete.append {xs : List QUICCryptoChunk} (h : s.Complete xs)
    (ys : List QUICCryptoChunk) : s.Complete (xs ++ ys) := by
  intro i hi
  rw [covered, any_append, ← covered, h i hi, Bool.true_or]

/-- **Completion is decided right**, from what is there. -/
theorem helloOfStream_chunks {chunks : List QUICCryptoChunk} (h : ChunksOf s.bytes chunks)
    {hello : Hello} (hhello : parseHello s.record.encode = .ok hello) :
    Assembler.helloOfStream (assembleCrypto chunks) =
      .ok (if s.Complete chunks then some hello else none) := by
  have hfits : s.bytes.length ≤ quicMaxCryptoLen := s.length_bytes_le.trans (by decide)
  obtain ⟨n, hgap, hn, hrun⟩ := assembleCrypto_eq_take h hfits
  have hcomplete : s.Complete chunks ↔ s.message.length ≤ n := hgap.all_iff
  rw [hrun, s.helloOfStream_take hn, hhello]
  by_cases hshort : n < s.message.length
  · rw [if_pos hshort, if_neg (by rw [hcomplete]; omega)]
  · rw [if_neg hshort, if_pos (by rw [hcomplete]; omega)]
    rfl

end CryptoStream

/-! ## Packets of the connection -/

/-- A datagram that starts with a client Initial of the connection, with chunks
of the stream. -/
structure Packet (c : Primitives) (destConnID : Bytes) (s : CryptoStream) where
  datagram : Bytes
  initial : QUICInitial
  parsed : parseQUICInitial c datagram = .ok initial
  connection : initial.destConnID = destConnID
  chunks : ChunksOf s.bytes initial.crypto

/-- A protected Initial of the connection, whose CRYPTO frames are cut from the stream. -/
structure ClientPacket (destConnID : Bytes) (s : CryptoStream) where
  initial : InitialPacket
  frames : List InitialFrame
  payload_eq : initial.payload = frames.flatMap InitialFrame.put
  connection : initial.destConnID = destConnID
  cut : ChunksOf s.bytes (frames.filterMap InitialFrame.chunk?)

namespace ClientPacket

variable {destConnID : Bytes} {s : CryptoStream} (p : ClientPacket destConnID s)

def chunks : List QUICCryptoChunk := p.frames.filterMap InitialFrame.chunk?

/-- No CRYPTO frame comes behind a frame that stops the search. -/
def Shown : Prop := ∀ f ∈ p.frames.dropWhile (fun f => !f.stops), f.chunk? = none

instance : Decidable p.Shown :=
  inferInstanceAs (Decidable (∀ f ∈ p.frames.dropWhile (fun f => !f.stops), f.chunk? = none))

theorem quicCryptoFrames_payload : quicCryptoFrames p.initial.payload =
    (p.frames.takeWhile fun f => !f.stops).filterMap InitialFrame.chunk? := by
  rw [p.payload_eq, quicCryptoFrames_put]

/-- The packet with the chunks that the tool finds. -/
def packet (c : Primitives) (p : ClientPacket destConnID s) : Packet c destConnID s where
  datagram := p.initial.datagram c
  initial := p.initial.report (quicCryptoFrames p.initial.payload)
  parsed := p.initial.parseQUICInitial_datagram c
  connection := p.connection
  chunks := by
    intro chunk hchunk
    have hin : chunk ∈ (p.frames.takeWhile fun f => !f.stops).filterMap InitialFrame.chunk? := by
      rw [← p.quicCryptoFrames_payload]
      exact hchunk
    exact p.cut chunk (((takeWhile_sublist _).filterMap _).subset hin)

variable {p}

theorem Shown.initial_packet (h : p.Shown) (c : Primitives) :
    (p.packet c).initial = p.initial.report p.chunks := by
  have hframes : quicCryptoFrames p.initial.payload = p.chunks := by
    rw [p.payload_eq]
    exact (quicCryptoFrames_put_iff p.frames).mpr h
  exact congrArg p.initial.report hframes

end ClientPacket

namespace Assembler

variable {c : Primitives} {destConnID : Bytes} {s : CryptoStream}

/-- The chunks of the packets, in the order of arrival. -/
def chunksOf (packets : List (Packet c destConnID s)) : List QUICCryptoChunk :=
  packets.flatMap fun p => p.initial.crypto

theorem chunksOf_chunks (packets : List (Packet c destConnID s)) :
    ChunksOf s.bytes (chunksOf packets) := by
  intro chunk h
  obtain ⟨p, -, hp⟩ := mem_flatMap.mp h
  exact p.chunks chunk hp

theorem chunksOf_append (packets : List (Packet c destConnID s)) (p : Packet c destConnID s) :
    chunksOf (packets ++ [p]) = chunksOf packets ++ p.initial.crypto := by
  simp [chunksOf]

/-- The assembler's stream of a connection, whether or not there is one yet. -/
def streamOf (a : Assembler) (destConnID : Bytes) : QUICStream :=
  (a.quicStreams.lookup (hexEncode destConnID)).getD ⟨[], false⟩

/-- The stream behind a call that has seen the chunks. -/
def nextStream (chunks : List QUICCryptoChunk) (complete : Bool) : QUICStream :=
  if complete then ⟨[], true⟩ else ⟨chunks, false⟩

theorem addToStream_open {a : Assembler} {key : Bytes} {chunks : List QUICCryptoChunk}
    (h : (a.quicStreams.lookup key).getD ⟨[], false⟩ = ⟨chunks, false⟩) {initial : QUICInitial}
    {found : Option Hello}
    (hfound : helloOfStream (assembleCrypto (chunks ++ initial.crypto)) = .ok found) :
    a.addToStream key initial = .ok
      (found.map fun hello => ({ initial with crypto := chunks ++ initial.crypto }, hello),
        { a with
          quicStreams := a.quicStreams.insert key
            (nextStream (chunks ++ initial.crypto) found.isSome) }) := by
  simp only [addToStream, h, hfound, ok_bind]
  cases found with
  | none => rfl
  | some hello => rfl

theorem assembleQUIC_packet {a : Assembler} {chunks : List QUICCryptoChunk}
    (h : a.streamOf destConnID = ⟨chunks, false⟩) (hchunks : ChunksOf s.bytes chunks)
    {hello : Hello} (hhello : parseHello s.record.encode = .ok hello)
    (p : Packet c destConnID s) (hnew : ¬ s.Complete chunks) :
    ∃ a', a.assembleQUIC c p.datagram = .ok
        (if s.Complete (chunks ++ p.initial.crypto) then
          some ({ p.initial with crypto := chunks ++ p.initial.crypto }, hello) else none, a') ∧
      a'.streamOf destConnID =
        nextStream (chunks ++ p.initial.crypto) (s.Complete (chunks ++ p.initial.crypto)) := by
  rw [assembleQUIC, p.parsed]
  change ∃ a', (if p.initial.crypto = [] then _ else a.addToStream _ p.initial) = _ ∧ _
  by_cases hempty : p.initial.crypto = []
  · -- nothing has changed
    rw [if_pos hempty, hempty, append_nil, if_neg hnew, decide_eq_false hnew]
    exact ⟨a, rfl, h⟩
  · have hstream := CryptoStream.helloOfStream_chunks (hchunks.append p.chunks) hhello
    have hopen : (a.quicStreams.lookup (hexEncode p.initial.destConnID)).getD ⟨[], false⟩ =
        ⟨chunks, false⟩ := by
      rw [p.connection]
      exact h
    rw [if_neg hempty, addToStream_open hopen hstream]
    split_ifs with hcomplete
    · rw [decide_eq_true hcomplete]
      refine ⟨_, rfl, ?_⟩
      rw [streamOf, p.connection, AList.lookup_insert]
      rfl
    · rw [decide_eq_false hcomplete]
      refine ⟨_, rfl, ?_⟩
      rw [streamOf, p.connection, AList.lookup_insert]
      rfl

/-! ## Other packets -/

/-- The packet is not an Initial of the connection. -/
def ApartFrom (c : Primitives) (destConnID : Bytes) : Call → Prop
  | .tcp .. => True
  | .dtls .. => True
  | .quic payload => ∀ initial, parseQUICInitial c payload = .ok initial →
      initial.destConnID ≠ destConnID

theorem lookup_assembleQUIC {a a' : Assembler} {payload key : Bytes}
    {found : Option (QUICInitial × Hello)} (h : a.assembleQUIC c payload = .ok (found, a'))
    (hkey : ∀ initial, parseQUICInitial c payload = .ok initial →
      key ≠ hexEncode initial.destConnID) :
    a'.quicStreams.lookup key = a.quicStreams.lookup key := by
  obtain ⟨initial, hparse, h⟩ := bind_eq_ok.mp h
  cases initial with
  | none =>
    cases h
    rfl
  | some initial =>
    have hne : key ≠ hexEncode initial.destConnID := by
      apply hkey
      cases hp : parseQUICInitial c payload with
      | ok x =>
        rw [hp] at hparse
        cases hparse
        rfl
      | error e =>
        rw [hp] at hparse
        cases e <;> cases hparse
    dsimp only at h
    split at h
    · cases h
      rfl
    · rcases a.addToStream_cases h with ⟨-, rfl⟩ | ⟨-, stream', -, rfl⟩
      · rfl
      · exact AList.lookup_insert_ne hne

theorem streamOf_afterCall (a : Assembler) {call : Call} (h : ApartFrom c destConnID call) :
    (a.afterCall c call).streamOf destConnID = a.streamOf destConnID := by
  unfold streamOf
  cases call with
  | tcp flowKey payload | dtls flowKey payload => rw [a.quicStreams_afterCall c (by simp)]
  | quic payload =>
    rw [afterCall]
    cases hcall : a.assembleQUIC c payload with
    | error e => rfl
    | ok x =>
      obtain ⟨found, a'⟩ := x
      have hlookup := lookup_assembleQUIC hcall fun initial hparse hkey =>
        h initial hparse (hexEncode_injective hkey).symm
      change (a'.quicStreams.lookup _).getD _ = _
      rw [hlookup]

/-! ## After the hello -/

theorem assembleQUIC_done {a : Assembler} (h : a.streamOf destConnID = ⟨[], true⟩)
    {datagram : Bytes} {initial : QUICInitial} (hparse : parseQUICInitial c datagram = .ok initial)
    (hconn : initial.destConnID = destConnID) : a.assembleQUIC c datagram = .ok (none, a) := by
  rw [assembleQUIC, hparse]
  change (if initial.crypto = [] then _ else a.addToStream _ initial) = _
  split
  · rfl
  · rw [addToStream, hconn]
    change (if (a.streamOf destConnID).done = true then _ else _) = _
    rw [h]
    rfl

theorem streamOf_done {a : Assembler} (h : a.streamOf destConnID = ⟨[], true⟩) (calls : List Call) :
    (a.after c calls).streamOf destConnID = ⟨[], true⟩ := by
  induction calls generalizing a with
  | nil => exact h
  | cons call calls ih =>
    apply ih
    by_cases hapart : ApartFrom c destConnID call
    · rw [a.streamOf_afterCall hapart]
      exact h
    · cases call with
      | tcp flowKey payload => exact absurd trivial hapart
      | dtls flowKey payload => exact absurd trivial hapart
      | quic payload =>
        simp only [ApartFrom, not_forall, not_not] at hapart
        obtain ⟨initial, hparse, hconn⟩ := hapart
        rw [afterCall, assembleQUIC_done h hparse hconn]
        exact h

/-! ## Whole runs -/

def packetCall (p : Packet c destConnID s) : Call := .quic p.datagram

/-- **While the message is incomplete** the chunks are collected. -/
theorem streamOf_after {a : Assembler} (h : a.streamOf destConnID = ⟨[], false⟩)
    (events : List (Event (Packet c destConnID s) (ApartFrom c destConnID)))
    (hopen : ¬ s.Complete (chunksOf (arrived events))) :
    (a.after c (events.map (Event.call packetCall))).streamOf destConnID =
      ⟨chunksOf (arrived events), false⟩ := by
  obtain ⟨hello, hhello⟩ := s.parseHello_encode_returns
  refine foldl_events
    (fun (a : Assembler) packets => a.streamOf destConnID = ⟨chunksOf packets, false⟩)
    (fun packets => ¬ s.Complete (chunksOf packets)) ?_ ?_ ?_ h events hopen
  · intro packets p hopen hcomplete
    rw [chunksOf_append] at hopen
    exact hopen (hcomplete.append _)
  · intro a packets p hstream hopen
    rw [chunksOf_append] at hopen ⊢
    obtain ⟨a', hcall, hnext⟩ := assembleQUIC_packet hstream (chunksOf_chunks packets) hhello p
      fun hcomplete => hopen (hcomplete.append _)
    rw [decide_eq_false hopen] at hnext
    change ((a.assembleQUIC c p.datagram).toOption.elim a Prod.snd).streamOf destConnID = _
    rw [hcall]
    exact hnext
  · intro a packets call hstream apart
    rw [a.streamOf_afterCall apart]
    exact hstream

/-- The same for packets that come from items of another kind. -/
theorem streamOf_after_map {a : Assembler} (h : a.streamOf destConnID = ⟨[], false⟩) {Item : Type}
    (packet : Item → Packet c destConnID s)
    (events : List (Event Item (ApartFrom c destConnID)))
    (hopen : ¬ s.Complete (chunksOf ((arrived events).map packet))) :
    (a.after c (events.map (Event.call fun i => packetCall (packet i)))).streamOf destConnID =
      ⟨chunksOf ((arrived events).map packet), false⟩ := by
  have hstream := streamOf_after h (events.map (Event.map packet)) (by rwa [arrived_map])
  rwa [arrived_map, Event.calls_map] at hstream

/-- **QUIC reassembly is exact** for packets that show all their CRYPTO frames. The chunks
seen so far give the longest covered prefix of the stream, and depend on nothing else. For
a connection that is new to the assembler, a packet returns a hello iff it is the one whose
frames complete the message, and that is the hello of the message in a TLS record;
afterwards every packet of the connection returns nothing, whatever is called in between. -/
theorem assembleQUIC_exact (c : Primitives) (s : CryptoStream) :
    (∀ chunks, ChunksOf s.bytes chunks →
      (∃ n, FirstGap (covered chunks) n ∧ assembleCrypto chunks = s.bytes.take n) ∧
      ∀ chunks', (∀ chunk, chunk ∈ chunks' ↔ chunk ∈ chunks) →
        assembleCrypto chunks' = assembleCrypto chunks) ∧
    ∀ (destConnID : Bytes) (a : Assembler), a.quicStreams.lookup (hexEncode destConnID) = none →
      ∀ (events : List (Event (ClientPacket destConnID s) (ApartFrom c destConnID)))
        (p : ClientPacket destConnID s), (∀ q ∈ arrived events ++ [p], q.Shown) →
        let before := (arrived events).flatMap ClientPacket.chunks
        let b := a.after c (events.map (Event.call fun q => .quic (q.initial.datagram c)))
        (¬ s.Complete (before ++ p.chunks) →
          ∃ b', b.assembleQUIC c (p.initial.datagram c) = .ok (none, b')) ∧
        (¬ s.Complete before → s.Complete (before ++ p.chunks) →
          ∃ record hello b', cryptoRecord s.message = .ok record ∧ parseHello record = .ok hello ∧
            b.assembleQUIC c (p.initial.datagram c) =
              .ok (some (p.initial.report (before ++ p.chunks), hello), b') ∧
            ∀ (later : List Call) (datagram : Bytes) (initial : QUICInitial),
              parseQUICInitial c datagram = .ok initial → initial.destConnID = destConnID →
                ∃ b'', (b'.after c later).assembleQUIC c datagram = .ok (none, b'')) := by
  have hfits : s.bytes.length ≤ quicMaxCryptoLen := s.length_bytes_le.trans (by decide)
  refine ⟨?_, ?_⟩
  · intro chunks hchunks
    obtain ⟨n, hgap, -, hrun⟩ := assembleCrypto_eq_take hchunks hfits
    exact ⟨⟨n, hgap, hrun⟩, fun chunks' hsame => assembleCrypto_of_mem_iff hchunks hfits hsame⟩
  · intro destConnID a hfresh events p hshown
    obtain ⟨hello, hhello⟩ := s.parseHello_encode_returns
    have hnew : a.streamOf destConnID = ⟨[], false⟩ := by
      rw [streamOf, hfresh]
      rfl
    have hbefore : chunksOf ((arrived events).map (ClientPacket.packet c)) =
        (arrived events).flatMap ClientPacket.chunks := by
      rw [chunksOf, flatMap_map]
      refine flatMap_congr fun q hq => ?_
      rw [(hshown q (mem_append_left _ hq)).initial_packet c]
      rfl
    have hcall := fun hopen => assembleQUIC_packet
      (streamOf_after_map hnew (ClientPacket.packet c) events hopen) (chunksOf_chunks _) hhello
      (p.packet c) hopen
    have hcrypto : (p.initial.report p.chunks).crypto = p.chunks := rfl
    rw [hbefore, (hshown p (by simp)).initial_packet c, hcrypto] at hcall
    refine ⟨?_, ?_⟩
    · intro hopen
      obtain ⟨b', hresult, -⟩ := hcall fun hcomplete => hopen (hcomplete.append _)
      rw [if_neg hopen] at hresult
      exact ⟨b', hresult⟩
    · intro hopen hcomplete
      obtain ⟨b', hresult, hnext⟩ := hcall hopen
      rw [if_pos hcomplete] at hresult
      refine ⟨s.record.encode, hello, b', s.cryptoRecord_message, hhello, hresult, ?_⟩
      intro later datagram initial hparse hconn
      rw [decide_eq_true hcomplete] at hnext
      exact ⟨_, assembleQUIC_done (streamOf_done hnext later) hparse hconn⟩

/-! ### A message in two packets -/

/-- A ClientHello message without extensions, and one byte behind it. -/
def quicClientHello : CryptoStream where
  record := {
    framing := .tls 0x0301 isDTLSVersion_tls10
    fields := .minimal 0x1301
    extensions := none
    fits := fun _ h => nomatch h }
  tail := [0x14]
  framed := rfl
  client := rfl
  fits := by decide

/-- A CRYPTO frame with a part of the stream. -/
def partFrame (offset length : Nat) (ho : offset ≤ 63) (hl : length ≤ 63)
    (h : length = ((quicClientHello.bytes.drop offset).take length).length) : InitialFrame :=
  .crypto (shortVarint offset (Nat.lt_succ_of_le ho)) (shortVarint length (Nat.lt_succ_of_le hl))
    ((quicClientHello.bytes.drop offset).take length) h

def framePacket (payload : Bytes) (hlong : 3 ≤ payload.length) (hshort : payload.length ≤ 16000) :
    InitialPacket where
  destConnID := [8, 7, 6, 5]
  srcConnID := [9]
  token := [3, 4, 5]
  tokenLength := shortVarint 3 (by decide)
  length := ⟨1, 1 + (payload.length + 16), by decide, by omega⟩
  packetNum := 7
  numberLen := 1
  payload := payload
  trailing := []
  destConnID_fits := by decide
  srcConnID_fits := by decide
  token_fits := by decide
  tokenLength_eq := rfl
  numberLen_pos := by decide
  numberLen_le := by decide
  packetNum_fits := by decide
  payload_long := by omega
  length_eq := rfl

def clientPacket (frames : List InitialFrame)
    (hlong : 3 ≤ (frames.flatMap InitialFrame.put).length)
    (hshort : (frames.flatMap InitialFrame.put).length ≤ 16000)
    (hcut : ChunksOf quicClientHello.bytes (frames.filterMap InitialFrame.chunk?)) :
    ClientPacket [8, 7, 6, 5] quicClientHello :=
  ⟨framePacket _ hlong hshort, frames, rfl, rfl, hcut⟩

theorem chunksOf_partFrame (offset length : Nat) (ho : offset ≤ 63) (hl : length ≤ 63)
    (h : length = ((quicClientHello.bytes.drop offset).take length).length)
    (hinside : offset + length ≤ quicClientHello.bytes.length) :
    ChunksOf quicClientHello.bytes (partFrame offset length ho hl h).chunk?.toList := by
  intro chunk hchunk
  obtain rfl := mem_singleton.mp hchunk
  exact ⟨Part.cutFrom_chunk ⟨offset, length, hinside⟩ 0,
    Part.finish_chunk ⟨offset, length, hinside⟩⟩

/-- The end of the message, and the byte behind it. -/
def endPacket : ClientPacket [8, 7, 6, 5] quicClientHello :=
  clientPacket [.ping, partFrame 20 27 (by decide) (by decide) (by decide)] (by decide) (by decide)
    (chunksOf_partFrame 20 27 (by decide) (by decide) (by decide) (by decide))

def startPacket : ClientPacket [8, 7, 6, 5] quicClientHello :=
  clientPacket [partFrame 0 24 (by decide) (by decide) (by decide), .padding] (by decide)
    (by decide) (chunksOf_partFrame 0 24 (by decide) (by decide) (by decide) (by decide))

theorem quicClientHello_completed : ∃ record hello b',
    cryptoRecord quicClientHello.message = .ok record ∧ parseHello record = .ok hello ∧
      (Assembler.new.after plainPrimitives
          [.quic (endPacket.initial.datagram plainPrimitives)]).assembleQUIC plainPrimitives
          (startPacket.initial.datagram plainPrimitives) =
        .ok (some (startPacket.initial.report
          (endPacket.chunks ++ startPacket.chunks), hello), b') ∧
      ∃ b'', b'.assembleQUIC plainPrimitives (startPacket.initial.datagram plainPrimitives) =
        .ok (none, b'') := by
  have hexact := (assembleQUIC_exact plainPrimitives quicClientHello).2 _ .new rfl
    [.item endPacket] startPacket (by decide +kernel)
  obtain ⟨record, hello, b', hrecord, hhello, hresult, hlater⟩ :=
    hexact.2 (by decide +kernel) (by decide +kernel)
  exact ⟨record, hello, b', hrecord, hhello, hresult,
    hlater [] _ _ (startPacket.initial.parseQUICInitial_datagram plainPrimitives) rfl⟩

/-- The whole message in one CRYPTO frame, behind a CONNECTION_CLOSE. -/
def closedPacket : ClientPacket [8, 7, 6, 5] quicClientHello :=
  clientPacket [closeFrame, partFrame 0 46 (by decide) (by decide) (by decide)] (by decide)
    (by decide) (chunksOf_partFrame 0 46 (by decide) (by decide) (by decide) (by decide))

/-- **The frames of the packet complete the message, and the tool returns nothing.** -/
theorem quicClientHello_lost : quicClientHello.Complete closedPacket.chunks ∧
    Assembler.new.assembleQUIC plainPrimitives (closedPacket.initial.datagram plainPrimitives) =
      .ok (none, Assembler.new) := by
  refine ⟨by decide +kernel, ?_⟩
  rw [assembleQUIC, closedPacket.initial.parseQUICInitial_datagram plainPrimitives,
    closedPacket.quicCryptoFrames_payload]
  rfl

end Assembler

end HeadlessClient.Capture
