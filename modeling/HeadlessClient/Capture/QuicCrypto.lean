import HeadlessClient.Base.Overlay
import HeadlessClient.Capture.QuicVarint
import HeadlessClient.Quic.Frame

/-!
# Capture — CRYPTO frames and the stream they carry

`quicCryptoFrames`, `skipQUICAck` and `AssembleCrypto` of the capture tool
(`stand/internal/wire/quicv1.go`).

The frame loop STOPS at the first thing it does not understand and keeps what
it has, so its result on a payload is determined frame by frame: `Parses bs cs`
says that the bytes `bs` contribute the chunks `cs` and that the loop then
continues behind them.
-/

namespace HeadlessClient.Capture

open Base Quic List

def quicMaxCryptoLen : Nat := 1 <<< 16
def quicFramePadding : UInt8 := 0x00
def quicFramePing : UInt8 := 0x01
def quicFrameAckLow : UInt8 := 0x02
def quicFrameAckHigh : UInt8 := 0x03
def quicFrameCrypto : UInt8 := 0x06

/-- `QUICCryptoChunk`: an offset and its bytes. -/
abbrev QUICCryptoChunk := Chunk UInt8

/-! ## The frame loop -/

/-- `n` calls of `readQUICVarint` whose values are dropped. -/
def skipVarints : Nat → Reader Unit
  | 0, r => .ok ((), r)
  | n + 1, r => do
      let (_, r') ← readQUICVarint r
      skipVarints n r'

/-- `skipQUICAck`. Each range is a pair. -/
def skipQUICAck (frameType : UInt8) (r : ByteReader) : Except WireError (Unit × ByteReader) := do
  let (_, r) ← skipVarints 2 r
  let (rangeCount, r) ← readQUICVarint r
  let (_, r) ← skipVarints 1 r
  let (_, r) ← skipVarints (2 * rangeCount) r
  if frameType = quicFrameAckHigh then skipVarints 3 r else .ok ((), r)

/-- One round of the loop: the chunk it collects, if any. An error stands for
`return chunks, nil`: the loop ends and the error is not reported. -/
def quicCryptoFrame (r : ByteReader) :
    Except WireError (Option QUICCryptoChunk × ByteReader) := do
  let (frameType, r) ← r.u8
  if frameType = quicFramePadding ∨ frameType = quicFramePing then .ok (none, r)
  else if frameType = quicFrameAckLow ∨ frameType = quicFrameAckHigh then
    let (_, r) ← skipQUICAck frameType r
    .ok (none, r)
  else if frameType = quicFrameCrypto then
    let (offset, r) ← readQUICVarint r
    let (length, r) ← readQUICVarint r
    if length > quicMaxCryptoLen then .error .truncated
    else
      let (data, r) ← r.bytes length
      .ok (some ⟨offset, data⟩, r)
  else .error .truncated

/-- `for reader.remaining() > 0`. Every round reads a byte, so as much fuel as
there are bytes is enough (`quicCryptoLoop_fuel`). -/
def quicCryptoLoop : Nat → ByteReader → List QUICCryptoChunk
  | 0, _ => []
  | fuel + 1, r =>
    if r.remaining = 0 then []
    else
      match quicCryptoFrame r with
      | .error _ => []
      | .ok (chunk, r') => chunk.toList ++ quicCryptoLoop fuel r'

/-- `quicCryptoFrames`; its error is always `nil`. -/
def quicCryptoFrames (plaintext : Bytes) : List QUICCryptoChunk :=
  quicCryptoLoop plaintext.length ⟨plaintext, 0⟩

/-! ## Assembling -/

/-- `AssembleCrypto`; `nil` is the empty list. -/
def assembleCrypto (chunks : List QUICCryptoChunk) : Bytes :=
  let fin := lastFinish chunks
  if fin = 0 ∨ fin > quicMaxCryptoLen then []
  else filledRun (layOut chunks (List.replicate fin 0, List.replicate fin false))

/-- What the assembler returns depends on the positions covered and on the last
end alone. -/
theorem assembleCrypto_congr {g : Nat → UInt8} {xs ys : List QUICCryptoChunk}
    (hxs : ∀ c ∈ xs, c.CutFrom g) (hys : ∀ c ∈ ys, c.CutFrom g)
    (hfin : lastFinish xs = lastFinish ys) (hcov : ∀ i, covered xs i = covered ys i) :
    assembleCrypto xs = assembleCrypto ys := by
  obtain hcov' : covered xs = covered ys := funext hcov
  rw [assembleCrypto, assembleCrypto, assembled_eq hxs, assembled_eq hys, hfin, hcov']

/-! ## The fuel is enough -/

theorem advances_skipVarints (n : Nat) : Advances (skipVarints n) := by
  induction n with
  | zero => intro r a r' h; cases h; exact Nat.le_refl _
  | succ n ih =>
    intro r a r' h
    obtain ⟨v, r₁, h₁, h⟩ := step_ok h
    exact (ih _ _ _ h).trans (advances_readQUICVarint _ _ _ h₁)

theorem advances_skipQUICAck (frameType : UInt8) : Advances (skipQUICAck frameType) := by
  intro r a r' h
  obtain ⟨_, r₁, h₁, h⟩ := step_ok h
  obtain ⟨count, r₂, h₂, h⟩ := step_ok h
  obtain ⟨_, r₃, h₃, h⟩ := step_ok h
  obtain ⟨_, r₄, h₄, h⟩ := step_ok h
  have := advances_skipVarints _ _ _ _ h₁
  have := advances_readQUICVarint _ _ _ h₂
  have := advances_skipVarints _ _ _ _ h₃
  have := advances_skipVarints _ _ _ _ h₄
  dsimp only at h
  split_ifs at h
  · have := advances_skipVarints _ _ _ _ h
    omega
  · cases h
    omega

variable {c : Option QUICCryptoChunk} {bs b : Bytes} {cs : List QUICCryptoChunk}

/-- Every round of the frame loop uses up a byte. -/
theorem quicCryptoFrame_remaining {r r' : ByteReader} (h : quicCryptoFrame r = .ok (c, r')) :
    r'.remaining < r.remaining := by
  obtain ⟨frameType, r₁, h₁, h⟩ := step_ok h
  have hu8 := u8_remaining h₁
  dsimp only at h
  split_ifs at h
  · cases h
    omega
  · obtain ⟨_, r₂, h₂, h⟩ := step_ok h
    have := advances_skipQUICAck _ _ _ _ h₂
    cases h
    dsimp only at *
    omega
  · obtain ⟨offset, r₂, h₂, h⟩ := step_ok h
    obtain ⟨length, r₃, h₃, h⟩ := step_ok h
    have := advances_readQUICVarint _ _ _ h₂
    have := advances_readQUICVarint _ _ _ h₃
    dsimp only at h
    split_ifs at h
    obtain ⟨data, r₄, h₄, h⟩ := step_ok h
    have := advances_bytes _ _ _ _ h₄
    cases h
    dsimp only at *
    omega

/-- **The fuel never runs out**: any amount that covers the unread bytes gives
the same result. -/
theorem quicCryptoLoop_fuel (fuel : Nat) : ∀ (fuel' : Nat) (r : ByteReader),
    r.remaining ≤ fuel → r.remaining ≤ fuel' → quicCryptoLoop fuel r = quicCryptoLoop fuel' r := by
  induction fuel with
  | zero =>
    intro fuel' r h _
    have hr : r.remaining = 0 := by omega
    cases fuel' with
    | zero => rfl
    | succ fuel' => rw [quicCryptoLoop, quicCryptoLoop, if_pos hr]
  | succ fuel ih =>
    intro fuel' r h h'
    by_cases hr : r.remaining = 0
    · cases fuel' with
      | zero => exact if_pos hr
      | succ fuel' => exact (if_pos hr).trans (if_pos hr).symm
    · obtain ⟨fuel', rfl⟩ : ∃ k, fuel' = k + 1 := ⟨fuel' - 1, by omega⟩
      rw [quicCryptoLoop, quicCryptoLoop, if_neg hr, if_neg hr]
      cases hframe : quicCryptoFrame r with
      | error e => rfl
      | ok p =>
        obtain ⟨c, r'⟩ := p
        have := quicCryptoFrame_remaining hframe
        dsimp only
        rw [ih fuel' r' (by omega) (by omega)]

/-! ## Reading what the stack writes -/

def framesFrom (r : ByteReader) : List QUICCryptoChunk := quicCryptoLoop r.remaining r

/-- The bytes `bs` contribute the chunks `cs`, whatever follows them. -/
def Parses (bs : Bytes) (cs : List QUICCryptoChunk) : Prop :=
  ∀ (r : ByteReader) (t : Bytes), r.rest = bs ++ t →
    ∃ r', r'.rest = t ∧ framesFrom r = cs ++ framesFrom r'

theorem Parses.nil : Parses [] [] := fun r _ hr => ⟨r, hr, rfl⟩

theorem Parses.append {bs' : Bytes} {cs' : List QUICCryptoChunk} (h : Parses bs cs)
    (h' : Parses bs' cs') : Parses (bs ++ bs') (cs ++ cs') := by
  intro r t hr
  obtain ⟨r₁, hr₁, h₁⟩ := h r (bs' ++ t) (by rw [hr, append_assoc])
  obtain ⟨r₂, hr₂, h₂⟩ := h' r₁ t hr₁
  exact ⟨r₂, hr₂, by rw [h₁, h₂, append_assoc]⟩

theorem Parses.of_reads (h : Reads quicCryptoFrame bs c) : Parses bs c.toList := by
  intro r t hr
  obtain ⟨r', hframe, hr'⟩ := h r t hr
  have hlt := quicCryptoFrame_remaining hframe
  refine ⟨r', hr', ?_⟩
  obtain ⟨n, hn⟩ : ∃ n, r.remaining = n + 1 := ⟨r.remaining - 1, by omega⟩
  rw [framesFrom, hn, quicCryptoLoop, if_neg (by omega), hframe]
  dsimp only
  rw [framesFrom, quicCryptoLoop_fuel n r'.remaining r' (by omega) (Nat.le_refl _)]

theorem Parses.quicCryptoFrames_eq (h : Parses bs cs) : quicCryptoFrames bs = cs := by
  obtain ⟨r', hr', heq⟩ := h ⟨bs, 0⟩ [] (append_nil bs).symm
  have hrem : r'.remaining = 0 := by rw [ByteReader.remaining_eq, hr']; rfl
  have hstart : quicCryptoFrames bs = framesFrom ⟨bs, 0⟩ := rfl
  rw [hstart, heq, framesFrom, hrem, quicCryptoLoop, append_nil]

theorem reads_padding : Reads quicCryptoFrame [0] none := by
  intro r t hr
  obtain ⟨r₁, h₁, hr₁⟩ := ByteReader.u8_cons hr
  exact ⟨r₁, by rw [quicCryptoFrame, h₁, ok_bind]; rfl, hr₁⟩

theorem reads_ping : Reads quicCryptoFrame [frameTypePing] none := by
  intro r t hr
  obtain ⟨r₁, h₁, hr₁⟩ := ByteReader.u8_cons hr
  exact ⟨r₁, by rw [quicCryptoFrame, h₁, ok_bind]; rfl, hr₁⟩

theorem parses_padding (n : Nat) : Parses (List.replicate n 0) [] := by
  induction n with
  | zero => exact .nil
  | succ n ih => exact Parses.append (.of_reads reads_padding) ih

theorem reads_crypto_fields {offset : Nat} {o l data : Bytes} (ho : Reads readQUICVarint o offset)
    (hl : Reads readQUICVarint l data.length) (hlen : data.length ≤ quicMaxCryptoLen) :
    Reads quicCryptoFrame (quicFrameCrypto :: (o ++ l ++ data)) (some ⟨offset, data⟩) := by
  intro r t hr
  rw [cons_append, append_assoc, append_assoc] at hr
  obtain ⟨r₁, h₁, hr₁⟩ := ByteReader.u8_cons hr
  obtain ⟨r₂, h₂, hr₂⟩ := ho r₁ _ hr₁
  obtain ⟨r₃, h₃, hr₃⟩ := hl r₂ _ hr₂
  obtain ⟨r₄, h₄, hr₄⟩ := ByteReader.reads_bytes hlen r₃ _ hr₃
  refine ⟨r₄, ?_, hr₄⟩
  rw [quicCryptoFrame, h₁, ok_bind]
  show (readQUICVarint r₁ >>= _) = _
  simp only [h₂, h₃, h₄, ok_bind, gt_iff_lt, Nat.not_lt.mpr hlen, if_false]

/-- **A CRYPTO frame the stack writes is read as its chunk.** -/
theorem reads_crypto {f : CryptoFrame} (h : f.append = .ok b)
    (hlen : f.data.length ≤ quicMaxCryptoLen) :
    Reads quicCryptoFrame b (some ⟨f.offset, f.data⟩) := by
  obtain ⟨o, ho, h⟩ := bind_eq_ok.mp h
  obtain ⟨l, hl, h⟩ := bind_eq_ok.mp h
  cases h
  exact reads_crypto_fields (reads_append ho) (reads_append hl) hlen

/-! ### ACK frames -/

theorem reads_skip_append {i n : Nat} (h : Reads readQUICVarint b i)
    (hs : Reads (skipVarints n) bs ()) : Reads (skipVarints (n + 1)) (b ++ bs) () := by
  intro r t hr
  rw [append_assoc] at hr
  obtain ⟨r₁, h₁, hr₁⟩ := h r _ hr
  obtain ⟨r₂, h₂, hr₂⟩ := hs r₁ t hr₁
  exact ⟨r₂, by simp only [skipVarints, h₁, ok_bind, h₂], hr₂⟩

theorem reads_skip_zero : Reads (skipVarints 0) [] () := fun r _ hr => ⟨r, rfl, hr⟩

theorem reads_skip_one {i : Nat} (h : Reads readQUICVarint b i) : Reads (skipVarints 1) b () := by
  have := reads_skip_append h reads_skip_zero
  rwa [append_nil] at this

theorem reads_skip_ranges {ranges : List AckRange} : ∀ {before : AckRange} {b : Bytes},
    AckFrame.appendRanges before ranges = .ok b →
      Reads (skipVarints (2 * ranges.length)) b () := by
  induction ranges with
  | nil => intro before b h; cases h; exact reads_skip_zero
  | cons range ranges ih =>
    intro before b h
    obtain ⟨g, hg, h⟩ := bind_eq_ok.mp h
    obtain ⟨l, hl, h⟩ := bind_eq_ok.mp h
    obtain ⟨tail, htail, h⟩ := bind_eq_ok.mp h
    cases h
    rw [append_assoc]
    exact reads_skip_append (reads_append hg) (reads_skip_append (reads_append hl) (ih htail))

theorem reads_ack_fields {largest delay count firstRange ranges : Bytes} {x y z n : Nat}
    (hlargest : Reads readQUICVarint largest x) (hdelay : Reads readQUICVarint delay y)
    (hcount : Reads readQUICVarint count n) (hfirst : Reads readQUICVarint firstRange z)
    (hranges : Reads (skipVarints (2 * n)) ranges ()) {frameType : UInt8} {ecn : Bytes}
    (hecn : Reads (fun r => if frameType = quicFrameAckHigh then skipVarints 3 r else .ok ((), r))
      ecn ()) :
    Reads (skipQUICAck frameType)
      (largest ++ delay ++ count ++ firstRange ++ ranges ++ ecn) () := by
  intro r t hr
  simp only [append_assoc] at hr
  rw [← append_assoc largest] at hr
  obtain ⟨r₁, h₁, hr₁⟩ := reads_skip_append hlargest (reads_skip_one hdelay) r _ hr
  obtain ⟨r₂, h₂, hr₂⟩ := hcount r₁ _ hr₁
  obtain ⟨r₃, h₃, hr₃⟩ := reads_skip_one hfirst r₂ _ hr₂
  obtain ⟨r₄, h₄, hr₄⟩ := hranges r₃ _ hr₃
  obtain ⟨r₅, h₅, hr₅⟩ := hecn r₄ _ hr₄
  refine ⟨r₅, ?_, hr₅⟩
  simp only [skipQUICAck, h₁, h₂, h₃, h₄, ok_bind]
  exact h₅

theorem reads_ack_frame {frameType : UInt8} {fields : Bytes}
    (htype : frameType = quicFrameAckLow ∨ frameType = quicFrameAckHigh)
    (hskip : Reads (skipQUICAck frameType) fields ()) :
    Reads quicCryptoFrame (frameType :: fields) none := by
  intro r t hr
  obtain ⟨r₁, h₁, hr₁⟩ := ByteReader.u8_cons hr
  obtain ⟨r₂, h₂, hr₂⟩ := hskip r₁ t hr₁
  refine ⟨r₂, ?_, hr₂⟩
  rw [quicCryptoFrame, h₁, ok_bind]
  dsimp only
  rw [if_neg (by rcases htype with rfl | rfl <;> decide), if_pos htype, h₂, ok_bind]

/-- **An ACK frame the stack writes is skipped.** -/
theorem reads_ack {f : AckFrame} (h : f.append = .ok b) : Reads quicCryptoFrame b none := by
  suffices hfields : ∃ frameType fields, b = frameType :: fields ∧
      (frameType = quicFrameAckLow ∨ frameType = quicFrameAckHigh) ∧
      Reads (skipQUICAck frameType) fields () by
    obtain ⟨frameType, fields, rfl, htype, hskip⟩ := hfields
    exact reads_ack_frame htype hskip
  unfold AckFrame.append at h
  cases hr : f.ackRanges with
  | nil => rw [hr] at h; cases h
  | cons first others =>
    rw [hr] at h
    dsimp only at h
    obtain ⟨largest, hlargest, h⟩ := bind_eq_ok.mp h
    obtain ⟨delay, hdelay, h⟩ := bind_eq_ok.mp h
    obtain ⟨count, hcount, h⟩ := bind_eq_ok.mp h
    obtain ⟨firstRange, hfirst, h⟩ := bind_eq_ok.mp h
    obtain ⟨ranges, hranges, h⟩ := bind_eq_ok.mp h
    have hskip := reads_skip_ranges hranges
    split_ifs at h with hecn
    · obtain ⟨ect0, h0, h⟩ := bind_eq_ok.mp h
      obtain ⟨ect1, h1, h⟩ := bind_eq_ok.mp h
      obtain ⟨ecnce, h2, h⟩ := bind_eq_ok.mp h
      cases h
      refine ⟨frameTypeAckECN, _, rfl, .inr rfl, ?_⟩
      refine reads_ack_fields (reads_append hlargest) (reads_append hdelay)
        (reads_append hcount) (reads_append hfirst) hskip ?_
      rw [append_assoc]
      exact reads_skip_append (reads_append h0)
        (reads_skip_append (reads_append h1) (reads_skip_one (reads_append h2)))
    · cases h
      refine ⟨frameTypeAck, _, rfl, .inl rfl, ?_⟩
      have hnoEcn : Reads (fun r => if frameTypeAck = quicFrameAckHigh then skipVarints 3 r
          else .ok ((), r)) [] () := fun r t hr => ⟨r, rfl, hr⟩
      have := reads_ack_fields (reads_append hlargest) (reads_append hdelay)
        (reads_append hcount) (reads_append hfirst) hskip hnoEcn
      rwa [append_nil] at this

end HeadlessClient.Capture
