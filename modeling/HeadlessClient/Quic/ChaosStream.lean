import HeadlessClient.Capture.QuicCrypto
import HeadlessClient.Quic.ChaosSize

/-!
# Quic — chaos protection preserves the handshake bytes

Judged by an INDEPENDENT reader: the capture tool's frame loop and reassembler
(`Capture/QuicCrypto`) see the same stream in the protected payload as in the
frames it was made from. A split keeps what `Carries` says of the chunks, the
shuffle permutes them, PINGs and padding contribute none.
-/

namespace HeadlessClient.Quic

open Base Capture List

/-- The chunk a reader gets from a frame. -/
def Frame.chunk? (f : Frame) : Option QUICCryptoChunk :=
  f.crypto?.map fun f => ⟨f.offset, f.data⟩

/-- The chunks a reader gets from a list of frames. -/
def chunksOf (fs : List Frame) : List QUICCryptoChunk := fs.filterMap Frame.chunk?

/-! ## Splits and the stream -/

variable {g : Nat → UInt8} {n : Nat} {cov : Nat → Bool} {store : Store}

theorem SplitsTo.carries {xs ys : List Frame} (h : SplitsTo xs ys)
    (hc : Carries g n cov (chunksOf xs)) : Carries g n cov (chunksOf ys) := by
  obtain @⟨rest, f, k, -, hlt, before, after⟩ := h
  have hbefore : Carries g n cov (⟨f.offset, f.data⟩ :: chunksOf rest) :=
    hc.perm (before.filterMap Frame.chunk?).symm
  exact (hbefore.split hlt.le).perm (after.filterMap Frame.chunk?)

theorem SplitsToMany.carries {xs ys : List Frame} (h : SplitsToMany xs ys)
    (hc : Carries g n cov (chunksOf xs)) : Carries g n cov (chunksOf ys) := by
  induction h with
  | refl => exact hc
  | tail _ hstep ih => exact hstep.carries ih

theorem chunksOf_replicate_ping (m : Nat) : chunksOf (List.replicate m .ping) = [] := by
  induction m with
  | zero => rfl
  | succ m ih => exact ih

theorem Protected.carries {store' : Store} {input : List Frame} {paddingLen : Int}
    {entries : List ChaosEntry} (h : Protected store input paddingLen store' entries)
    (hc : Carries g n cov (chunksOf input)) :
    Carries g n cov (chunksOf (values store' entries)) := by
  obtain ⟨split, m, hsplit, hperm⟩ := h.frames
  have hchunks : (chunksOf (values store' entries)).Perm (chunksOf split) := by
    have := hperm.filterMap Frame.chunk?
    rwa [filterMap_append, show (List.replicate m Frame.ping).filterMap Frame.chunk? = []
      from chunksOf_replicate_ping m, append_nil] at this
  exact (hsplit.carries hc).perm hchunks

/-! ## What the capture tool reads -/

/-- A CRYPTO frame the tool accepts, or a PING. -/
def Frame.Readable : Frame → Prop
  | .crypto f => f.data.length ≤ quicMaxCryptoLen
  | .ping => True
  | .other _ => False

theorem Frame.parses_append {f : Frame} (hf : f.Readable) {b : Bytes} (h : f.append = .ok b) :
    Parses b f.chunk?.toList := by
  cases f with
  | ping => cases h; exact .of_reads reads_ping
  | other f => exact hf.elim
  | crypto f => exact .of_reads (reads_crypto (of_liftPanic h) hf)

theorem chunksOf_cons (f : Frame) (fs : List Frame) :
    chunksOf (f :: fs) = f.chunk?.toList ++ chunksOf fs := by
  cases h : f.chunk? <;> simp [chunksOf, h]

theorem parses_appendFrames {frames : List FrameRef} :
    ∀ {b : Bytes}, appendFrames store frames = .ok b →
      (∀ f ∈ frames.map store.load, f.Readable) → Parses b (chunksOf (frames.map store.load)) := by
  induction frames with
  | nil => intro b h _; cases h; exact .nil
  | cons r frames ih =>
    intro b h hread
    obtain ⟨x, hx, h⟩ := bind_eq_ok.mp h
    obtain ⟨xs, hxs, h⟩ := bind_eq_ok.mp h
    cases h
    rw [map_cons] at hread ⊢
    rw [chunksOf_cons]
    exact (Frame.parses_append (hread _ mem_cons_self) hx).append
      (ih hxs fun f hf => hread f (mem_cons_of_mem _ hf))

theorem parses_appendEntries {es : List ChaosEntry} :
    ∀ {b : Bytes}, appendEntries store es = .ok b →
      (∀ f ∈ values store es, f.Readable) → Parses b (chunksOf (values store es)) := by
  induction es with
  | nil => intro b h _; cases h; exact .nil
  | cons e es ih =>
    intro b h hread
    obtain ⟨fr, n⟩ := e
    cases fr with
    | none =>
      obtain ⟨xs, hxs, h⟩ := bind_eq_ok.mp h
      cases h
      exact (parses_padding n.toNat).append (ih hxs hread)
    | some r =>
      obtain ⟨x, hx, h⟩ := bind_eq_ok.mp h
      obtain ⟨xs, hxs, h⟩ := bind_eq_ok.mp h
      cases h
      have hcons : values store (⟨some r, n⟩ :: es) = store.load r :: values store es := rfl
      rw [hcons] at hread ⊢
      rw [chunksOf_cons]
      exact (Frame.parses_append (hread _ mem_cons_self) hx).append
        (ih hxs fun f hf => hread f (mem_cons_of_mem _ hf))

theorem parses_appendAck {ack : Option AckFrame} {b : Bytes} (h : appendAck ack = .ok b) :
    Parses b [] := by
  cases ack with
  | none => cases h; exact .nil
  | some f => exact .of_reads (reads_ack (of_liftPanic h))

/-! ## The main result -/

/-- **`chaosProtect` is total** on frames that end below `2^62`: it declines
exactly when there is no padding or no CRYPTO frame, and otherwise protects. -/
theorem chaosProtect_total {frames : List FrameRef} (hvalid : ∀ r ∈ frames, store.Valid r)
    (hend : ∀ f, Frame.crypto f ∈ frames.map store.load → f.finish < 2 ^ 62) (paddingLen : Int)
    (random : Rand) :
    ∃ r, chaosProtect store frames paddingLen random = .ok r ∧
      (∃ t, r.store = store ++ t) ∧
      (r.entries = none ↔ paddingLen ≤ 0 ∨ ¬∃ f, Frame.crypto f ∈ frames.map store.load) ∧
      ∀ entries, r.entries = some entries →
        Protected store (frames.map store.load) paddingLen r.store entries := by
  by_cases hcrypto : ∃ f, Frame.crypto f ∈ frames.map store.load
  · by_cases hp : 0 < paddingLen
    · obtain ⟨entries, store', random', hrun, hprot⟩ :=
        chaosProtect_spec hvalid hcrypto hend hp random
      refine ⟨_, hrun, hprot.caller, ?_, ?_⟩
      · constructor
        · intro h; cases h
        · rintro (h | h)
          · omega
          · exact absurd hcrypto h
      · rintro es ⟨rfl⟩
        exact hprot
    · refine ⟨_, if_pos (.inl (by omega)), ⟨[], (append_nil store).symm⟩, ?_, ?_⟩
      · exact ⟨fun _ => .inl (by omega), fun _ => rfl⟩
      · intro entries h; cases h
  · -- no CRYPTO frame: nothing is copied
    have hcopied := copyFrames_inv store frames hvalid
    have hseen : (copyFrames store frames).hasCryptoFrame = false := by
      rw [← Bool.not_eq_true]
      exact fun h => hcrypto (hcopied.seen.mp h)
    by_cases hstop : paddingLen ≤ 0 ∨ frames.length = 0
    · refine ⟨_, if_pos hstop, ⟨[], (append_nil store).symm⟩, ?_, ?_⟩
      · exact ⟨fun _ => .inr hcrypto, fun _ => rfl⟩
      · intro entries h; cases h
    · refine ⟨_, (if_neg hstop).trans (if_pos hseen), hcopied.grown, ?_, ?_⟩
      · exact ⟨fun _ => .inr hcrypto, fun _ => rfl⟩
      · intro entries h; cases h

theorem Protected.others_perm {store' : Store} {input : List Frame} {paddingLen : Int}
    {entries : List ChaosEntry} (h : Protected store input paddingLen store' entries) :
    ∃ m, (others (values store' entries)).Perm (others input ++ List.replicate m .ping) := by
  obtain ⟨split, m, hsplit, hperm⟩ := h.frames
  have hpings : others (List.replicate m .ping) = List.replicate m .ping := by
    rw [others, filter_replicate]; rfl
  refine ⟨m, (hperm.filter _).trans ?_⟩
  show (others (split ++ _)).Perm _
  rw [others_append, hpings]
  exact hsplit.others_perm.append_right _

theorem others_ping {frames : List FrameRef}
    (hkind : ∀ r ∈ frames, r = .ping ∨ ∃ a, r = .crypto a) :
    ∀ f ∈ others (frames.map store.load), f = .ping := by
  intro f hf
  obtain ⟨hmem, hnot⟩ := mem_filter.mp hf
  obtain ⟨r, hr, rfl⟩ := mem_map.mp hmem
  rcases hkind r hr with rfl | ⟨a, rfl⟩
  · rfl
  · cases hnot

/-- The CRYPTO frame holds bytes of the stream, at their offset. -/
structure CryptoFrame.CutFrom (stream : Bytes) (f : CryptoFrame) : Prop where
  finish : f.finish ≤ stream.length
  data : f.data = (stream.drop f.offset).take f.data.length

theorem CryptoFrame.CutFrom.chunk {stream : Bytes} {f : CryptoFrame} (h : f.CutFrom stream) :
    Chunk.CutFrom (stream.getD · 0) ⟨f.offset, f.data⟩ := by
  intro j hj
  have hfin := h.finish
  unfold CryptoFrame.finish at hfin
  have hj' : j < f.data.length := hj
  have hget : f.data[j]? = ((stream.drop f.offset).take f.data.length)[j]? := by rw [← h.data]
  rw [getElem?_take_of_lt hj', getElem?_drop, getElem?_eq_getElem hj',
    getElem?_eq_getElem (by omega)] at hget
  show f.data[j] = stream.getD (f.offset + j) 0
  rw [getD_eq_getElem _ _ (by omega)]
  exact Option.some.inj hget

theorem mem_chunksOf {fs : List Frame} {c : QUICCryptoChunk} (h : c ∈ chunksOf fs) :
    ∃ f, Frame.crypto f ∈ fs ∧ c = ⟨f.offset, f.data⟩ := by
  obtain ⟨x, hx, hxc⟩ := mem_filterMap.mp h
  obtain ⟨f, hf, rfl⟩ := Option.map_eq_some_iff.mp hxc
  obtain rfl := Frame.crypto?_eq_some.mp hf
  exact ⟨f, hx, rfl⟩

theorem carries_of_cut {stream : Bytes} {fs : List Frame}
    (hcut : ∀ f, Frame.crypto f ∈ fs → f.CutFrom stream) :
    Carries (stream.getD · 0) (lastFinish (chunksOf fs)) (covered (chunksOf fs)) (chunksOf fs) ∧
      lastFinish (chunksOf fs) ≤ stream.length := by
  refine ⟨⟨fun c hc => ?_, rfl, fun _ => rfl⟩, lastFinish_le_iff.mpr fun c hc => ?_⟩
  · obtain ⟨f, hf, rfl⟩ := mem_chunksOf hc
    exact (hcut f hf).chunk
  · obtain ⟨f, hf, rfl⟩ := mem_chunksOf hc
    exact (hcut f hf).finish

section

variable {store : Store} {frames : List FrameRef} {stream : Bytes}

/-- Frames that carry a stream of at most `2^16` bytes are all readable. -/
theorem readable_of_carries {fs : List Frame} (hc : Carries g n cov (chunksOf fs))
    (hn : n ≤ quicMaxCryptoLen) (hother : ∀ f ∈ others fs, f = .ping) : ∀ f ∈ fs, f.Readable := by
  intro f hf
  cases f with
  | ping => trivial
  | other o => exact absurd (hother _ (mem_filter.mpr ⟨hf, rfl⟩)) (by simp)
  | crypto f =>
    have hmem : (⟨f.offset, f.data⟩ : QUICCryptoChunk) ∈ chunksOf fs :=
      mem_filterMap.mpr ⟨_, hf, rfl⟩
    have hfin := finish_le_lastFinish hmem
    rw [hc.fin] at hfin
    unfold Chunk.finish at hfin
    show f.data.length ≤ quicMaxCryptoLen
    dsimp only at hfin
    omega

/-- **Chaos protection preserves the handshake bytes**, the other frames and the
caller's frames. -/
theorem chaosProtect_preserves_stream (hvalid : ∀ r ∈ frames, store.Valid r)
    (hkind : ∀ r ∈ frames, r = .ping ∨ ∃ a, r = .crypto a) (hlen : stream.length ≤ 65536)
    (hcut : ∀ f, Frame.crypto f ∈ frames.map store.load → f.CutFrom stream)
    {ack : Option AckFrame} {ackBytes : Bytes} (hack : appendAck ack = .ok ackBytes)
    (paddingLen : Int) (random : Rand) :
    ∃ r, chaosProtect store frames paddingLen random = .ok r ∧
      (∃ t, r.store = store ++ t) ∧
      (r.entries = none ↔ paddingLen ≤ 0 ∨ ¬∃ f, Frame.crypto f ∈ frames.map store.load) ∧
      ∀ entries, r.entries = some entries →
        (∃ input body, appendFrames store frames = .ok input ∧
          appendEntries r.store entries = .ok body ∧
          assembleCrypto (quicCryptoFrames (ackBytes ++ body))
            = assembleCrypto (quicCryptoFrames (ackBytes ++ input))) ∧
        ∃ m, (others (values r.store entries)).Perm
          (others (frames.map store.load) ++ List.replicate m .ping) := by
  have hend : ∀ f, Frame.crypto f ∈ frames.map store.load → f.finish < 2 ^ 62 := by
    intro f hf
    have := (hcut f hf).finish
    omega
  obtain ⟨r, hrun, hstore, hnone, hsome⟩ := chaosProtect_total hvalid hend paddingLen random
  refine ⟨r, hrun, hstore, hnone, fun entries he => ?_⟩
  have hprot := hsome entries he
  obtain ⟨m, hothers⟩ := hprot.others_perm
  refine ⟨?_, m, hothers⟩
  -- what both payloads carry
  obtain ⟨hin, hn⟩ := carries_of_cut hcut
  have hout := hprot.carries hin
  replace hn := hn.trans hlen
  have hpingIn := @others_ping store frames hkind
  have hpingOut : ∀ f ∈ others (values r.store entries), f = .ping := by
    intro f hf
    rcases mem_append.mp (hothers.mem_iff.mp hf) with hf | hf
    · exact hpingIn f hf
    · exact eq_of_mem_replicate hf
  have hreadIn := readable_of_carries hin hn hpingIn
  have hreadOut := readable_of_carries hout hn hpingOut
  -- both payloads are serialized and read back
  have hser : ∀ f ∈ frames.map store.load, f.Serializes := by
    intro f hf
    cases f with
    | ping => exact ⟨_, rfl⟩
    | crypto f => exact Frame.serializes_crypto (hend f hf)
    | other o => exact (hreadIn _ hf).elim
  obtain ⟨input, hinput⟩ := appendFrames_of_serializes hser
  obtain ⟨body, hbody⟩ := appendEntries_ok (hprot.serializes hser)
  refine ⟨input, body, hinput, hbody, ?_⟩
  have hackParses := parses_appendAck hack
  rw [(hackParses.append (parses_appendEntries hbody hreadOut)).quicCryptoFrames_eq,
    (hackParses.append (parses_appendFrames hinput hreadIn)).quicCryptoFrames_eq]
  exact assembleCrypto_congr hout.cut hin.cut hout.fin hout.cov

end

/-- Five stream bytes in two frames around a PING, behind an ACK. -/
theorem chaosProtect_preserves_stream_five_bytes :
    ∃ r, chaosProtect [⟨0, [1, 2, 3]⟩, ⟨3, [4, 5]⟩] [.crypto 1, .ping, .crypto 0] 30 ⟨[7, 2]⟩
        = .ok r ∧ ∀ entries, r.entries = some entries →
      ∃ input body, appendFrames [⟨0, [1, 2, 3]⟩, ⟨3, [4, 5]⟩] [.crypto 1, .ping, .crypto 0]
          = .ok input ∧ appendEntries r.store entries = .ok body ∧
        assembleCrypto (quicCryptoFrames ([2, 3, 0, 0, 1] ++ body))
          = assembleCrypto (quicCryptoFrames ([2, 3, 0, 0, 1] ++ input)) := by
  obtain ⟨r, hrun, -, -, hsome⟩ :=
    @chaosProtect_preserves_stream [⟨0, [1, 2, 3]⟩, ⟨3, [4, 5]⟩] [.crypto 1, .ping, .crypto 0]
      [1, 2, 3, 4, 5]
      (by simp [Store.Valid]) (by simp) (by decide)
      (by
        intro f hf
        rcases mem_cons.mp hf with hf | hf
        · obtain rfl : f = ⟨3, [4, 5]⟩ := by injection hf
          exact ⟨by decide, rfl⟩
        rcases mem_cons.mp hf with hf | hf
        · cases hf
        · obtain rfl : f = ⟨0, [1, 2, 3]⟩ := by injection mem_singleton.mp hf
          exact ⟨by decide, rfl⟩)
      (some ⟨[⟨2, 3⟩], 0, 0, 0, 0⟩) [2, 3, 0, 0, 1] rfl 30 ⟨[7, 2]⟩
  exact ⟨r, hrun, fun entries he => (hsome entries he).1⟩

end HeadlessClient.Quic
