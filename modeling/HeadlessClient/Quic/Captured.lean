import HeadlessClient.Capture.AssembleQUIC
import HeadlessClient.Quic.ChaosStream

/-!
# Quic — the capture tool reads the packets of the client

`appendPacketPayload` of the packer against `AssembleQUIC` of the capture tool.
Protected or not, a payload gives the tool the parts of the stream that the packer
was given, so the hello comes with the packet whose frames complete it.
-/

namespace HeadlessClient.Quic

open Base Capture List

/-! ## One payload -/

/-- PINGs and CRYPTO frames with parts of the stream, perhaps behind an ACK. -/
structure Payload.CutFrom (store : Store) (stream : Bytes) (pl : Payload) : Prop where
  valid : ∀ r ∈ pl.frames, store.Valid r
  kind : ∀ r ∈ pl.frames, r = .ping ∨ ∃ a, r = .crypto a
  cut : ∀ f, Frame.crypto f ∈ pl.frames.map store.load → f.CutFrom stream
  only : pl.streamFrames = []

/-- The chunks of the frames, as the packer gets them. -/
def Payload.chunks (store : Store) (pl : Payload) : List QUICCryptoChunk :=
  chunksOf (pl.frames.map store.load)

/-- The capture tool gets from the bytes what the frames hold of the stream. -/
def Payload.Gives (store : Store) (stream : Bytes) (pl : Payload) (bytes : Bytes) : Prop :=
  Carries (stream.getD · 0) (lastFinish (pl.chunks store)) (covered (pl.chunks store))
    (quicCryptoFrames bytes)

section

variable {store : Store} {stream bytes ack : Bytes} {pl : Payload} {paddingLen : Int}
  {random : Rand}

theorem load_grow {r : FrameRef} (h : store.Valid r) (t : Store) :
    (store ++ t).load r = store.load r := by
  cases r with
  | crypto a => rw [Store.load, Store.load, getD_append _ _ _ _ h]
  | ping | other f => rfl

/-- Without protection the frames are shuffled, with padding behind them. -/
theorem plainPayload_parses (hread : ∀ f ∈ pl.frames.map store.load, f.Readable)
    (honly : pl.streamFrames = []) (hack : Parses ack [])
    (hok : plainPayload store pl paddingLen ack random = .ok bytes) :
    ∃ chunks, Parses bytes chunks ∧ chunks.Perm (pl.chunks store) := by
  obtain ⟨control, hcontrol, hok⟩ := bind_eq_ok.mp hok
  obtain ⟨streams, hstreams, hok⟩ := bind_eq_ok.mp hok
  obtain ⟨-, hok⟩ := guard_eq_ok.mp hok
  rw [honly] at hstreams
  cases hstreams
  cases hok
  have hperm : (if pl.frames.length > 1 then (random.shuffle pl.frames).1 else pl.frames).Perm
      pl.frames := by
    split
    · exact random.shuffle_perm _
    · exact .refl _
  have hloaded := hperm.map store.load
  have hpadding : Parses (if paddingLen > 0 then List.replicate paddingLen.toNat 0 else []) [] := by
    split
    · exact parses_padding _
    · exact .nil
  refine ⟨_, ((hack.append (parses_appendFrames hcontrol fun f hf =>
    hread f (hloaded.mem_iff.mp hf))).append .nil).append hpadding, ?_⟩
  rw [append_nil, append_nil, nil_append]
  exact hloaded.filterMap Frame.chunk?

theorem Payload.CutFrom.gives_plain (h : pl.CutFrom store stream) (hlen : stream.length ≤ 65536)
    (hack : Parses ack []) {store' : Store}
    (hload : pl.frames.map store'.load = pl.frames.map store.load)
    (hok : plainPayload store' pl paddingLen ack random = .ok bytes) :
    pl.Gives store stream bytes := by
  obtain ⟨hin, hn⟩ := carries_of_cut h.cut
  obtain ⟨chunks, hparses, hperm⟩ := plainPayload_parses
    (hload ▸ readable_of_carries hin (hn.trans hlen) (others_ping h.kind)) h.only hack hok
  rw [Payload.chunks, hload] at hperm
  rw [Payload.Gives, hparses.quicCryptoFrames_eq]
  exact hin.perm hperm

/-- **The tool gets what the packer was given**, on every path of the packer. -/
theorem Payload.CutFrom.gives (h : pl.CutFrom store stream) (hlen : stream.length ≤ 65536)
    {chaos : Bool} (hok : appendPacketPayload store pl paddingLen chaos random = .ok bytes) :
    pl.Gives store stream bytes := by
  obtain ⟨ack, hack, hok⟩ := bind_eq_ok.mp hok
  have hackParses := parses_appendAck hack
  split_ifs at hok with hchaos
  · obtain ⟨r, hrun, ⟨t, hstore⟩, -, hprotected⟩ := chaosProtect_total h.valid
      (fun f hf => by have := (h.cut f hf).finish; omega) paddingLen random
    rw [hrun, liftPanic, ok_bind] at hok
    cases hentries : r.entries with
    | none =>
      -- the packer falls back to the frames, in the store that the attempt has left
      rw [hentries] at hok
      refine h.gives_plain hlen hackParses ?_ hok
      rw [hstore]
      exact map_congr_left fun r hr => load_grow (h.valid r hr) t
    | some entries =>
      rw [hentries] at hok
      obtain ⟨body, hbody, hok⟩ := bind_eq_ok.mp hok
      obtain ⟨-, hok⟩ := guard_eq_ok.mp hok
      cases hok
      have hprot := hprotected entries hentries
      obtain ⟨hin, hn⟩ := carries_of_cut h.cut
      have hout := hprot.carries hin
      obtain ⟨m, hothers⟩ := hprot.others_perm
      have hread := readable_of_carries hout (hn.trans hlen) fun f hf =>
        (mem_append.mp (hothers.mem_iff.mp hf)).elim (others_ping h.kind f) eq_of_mem_replicate
      rw [Payload.Gives, (hackParses.append (parses_appendEntries hbody hread)).quicCryptoFrames_eq]
      exact hout
  · exact h.gives_plain hlen hackParses rfl hok

end

/-! ## The packets of a connection -/

/-- A client Initial with a payload of the packer. -/
structure SentPacket (destConnID : Bytes) (s : CryptoStream) where
  store : Store
  payload : Payload
  cut : payload.CutFrom store s.bytes
  paddingLen : Int
  chaos : Bool
  random : Rand
  initial : InitialPacket
  packed : appendPacketPayload store payload paddingLen chaos random = .ok initial.payload
  connection : initial.destConnID = destConnID

namespace SentPacket

variable {destConnID : Bytes} {s : CryptoStream}

def chunks (p : SentPacket destConnID s) : List QUICCryptoChunk := p.payload.chunks p.store

theorem gives (p : SentPacket destConnID s) :
    p.payload.Gives p.store s.bytes p.initial.payload :=
  p.cut.gives (s.length_bytes_le.trans (by decide)) p.packed

/-- The packet, as the capture tool sees it. -/
def packet (c : Primitives) (p : SentPacket destConnID s) : Packet c destConnID s where
  datagram := p.initial.datagram c
  initial := p.initial.report (quicCryptoFrames p.initial.payload)
  parsed := p.initial.parseQUICInitial_datagram c
  connection := p.connection
  chunks := by
    intro chunk hchunk
    exact ⟨p.gives.cut chunk hchunk, (finish_le_lastFinish hchunk).trans
      (p.gives.fin.trans_le (carries_of_cut p.cut.cut).2)⟩

theorem complete_iff (c : Primitives) (ps : List (SentPacket destConnID s)) :
    s.Complete (Assembler.chunksOf (ps.map (packet c))) ↔ s.Complete (ps.flatMap chunks) := by
  have hcovered : ∀ i,
      covered (Assembler.chunksOf (ps.map (packet c))) i = covered (ps.flatMap chunks) i := by
    intro i
    rw [Assembler.chunksOf, flatMap_map, covered, covered, any_flatMap, any_flatMap]
    exact congrArg ps.any (funext fun p => p.gives.cov i)
  simp only [CryptoStream.Complete, hcovered]

/-- **The capture tool reads what the client sends**: in whatever order the packets of a
new connection arrive, under whatever protection, and whatever arrives in between, a packet
gives the hello iff its frames complete the message. -/
theorem sent_packets_captured (c : Primitives) {a : Assembler}
    (hfresh : a.quicStreams.lookup (hexEncode destConnID) = none)
    (events : List (Event (SentPacket destConnID s) (Assembler.ApartFrom c destConnID)))
    (hopen : ¬ s.Complete ((arrived events).flatMap chunks)) (p : SentPacket destConnID s) :
    ∃ hello initial b', parseHello s.record.encode = .ok hello ∧
      (a.after c (events.map (Event.call fun p => .quic (p.initial.datagram c)))).assembleQUIC c
          (p.initial.datagram c) =
        .ok (if s.Complete ((arrived events ++ [p]).flatMap chunks) then some (initial, hello)
          else none, b') := by
  obtain ⟨hello, hhello⟩ := s.parseHello_encode_returns
  have hnew : a.streamOf destConnID = ⟨[], false⟩ := by
    rw [Assembler.streamOf, hfresh]
    rfl
  rw [← complete_iff c] at hopen
  obtain ⟨b', hcall, -⟩ := Assembler.assembleQUIC_packet
    (Assembler.streamOf_after_map hnew (packet c) events hopen) (Assembler.chunksOf_chunks _) hhello
    (p.packet c) hopen
  have hcomplete : s.Complete (Assembler.chunksOf ((arrived events).map (packet c)) ++
      (p.packet c).initial.crypto) ↔ s.Complete ((arrived events ++ [p]).flatMap chunks) := by
    rw [← Assembler.chunksOf_append, ← complete_iff c, map_append, map_singleton]
  exact ⟨hello, _, b', hhello,
    hcall.trans (congrArg (fun found => Except.ok (found, b')) (if_congr hcomplete rfl rfl))⟩

open Assembler

/-- The whole message in one CRYPTO frame. -/
def wholeStore : Store := [⟨0, quicClientHello.message⟩]

def wholePayload : Payload := ⟨[], [.crypto 0], none, 49⟩

theorem whole_cut : wholePayload.CutFrom wholeStore quicClientHello.bytes := by
  refine ⟨by simp [wholePayload, wholeStore, Store.Valid], by simp [wholePayload], ?_, rfl⟩
  intro f hf
  obtain rfl : f = ⟨0, quicClientHello.message⟩ := by injection mem_singleton.mp hf
  exact ⟨by decide, by decide⟩

/-- Draws that split the frame into six. -/
def wholeDraws : Rand := ⟨(List.range 40).reverse⟩

/-- The payload under chaos protection. -/
def wholeBytes : Bytes :=
  (appendPacketPayload wholeStore wholePayload 30 true wholeDraws).toOption.getD []

def wholeSent : SentPacket [8, 7, 6, 5] quicClientHello where
  store := wholeStore
  payload := wholePayload
  cut := whole_cut
  paddingLen := 30
  chaos := true
  random := wholeDraws
  initial := framePacket wholeBytes (by decide +kernel) (by decide +kernel)
  packed := by decide +kernel
  connection := rfl

/-- Six CRYPTO frames out of order, between PINGs and padding: the message is read from
one packet. -/
theorem sent_packets_captured_protected :
    (chaosProtect wholeStore wholePayload.frames 30 wholeDraws).toOption.any
        (·.entries.isSome) = true ∧
      (quicCryptoFrames wholeBytes).map (·.offset) = [38, 0, 44, 32, 30, 36] ∧
      ∃ hello initial b', parseHello quicClientHello.record.encode = .ok hello ∧
        Assembler.new.assembleQUIC plainPrimitives (wholeSent.initial.datagram plainPrimitives) =
          .ok (some (initial, hello), b') := by
  refine ⟨by decide +kernel, by decide +kernel, ?_⟩
  obtain ⟨hello, initial, b', hhello, hcall⟩ := @sent_packets_captured [8, 7, 6, 5] _
    plainPrimitives .new rfl [] (by decide) wholeSent
  rw [if_pos (by decide +kernel)] at hcall
  exact ⟨hello, initial, b', hhello, hcall⟩

end SentPacket

end HeadlessClient.Quic
