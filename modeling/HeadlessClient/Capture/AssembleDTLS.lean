import HeadlessClient.Base.Interleave
import HeadlessClient.Capture.Assembler
import HeadlessClient.Capture.QuicProtection
import HeadlessClient.Capture.RecordHeader

/-!
# Capture — a hello out of DTLS fragments

A hello message is cut into fragments, each in a record of its own. They arrive
in any order, some twice, some overlapping, between packets of other messages,
flows and protocols. `assembleDTLS_exact`: nothing is returned while a byte is
missing, and the record that completes the message returns what the
UNFRAGMENTED record would have given.

Two facts carry the result. The key of the pending buffer determines the flow,
the message number and the length (`fragmentKey_inj`), so a buffer is as long as
its key says (`Sized`) and no index leaves it. And the pending buffer of the
message is what its fragments lay out (`Base.Laid`).
-/

namespace HeadlessClient.Capture

open Base Wire List
open Http1 (decimal decimal_injective digit_of_mem_decimal)

/-! ## The key of a pending message -/

/-- Splitting at the LAST separator. -/
theorem append_cons_inj_of_last {α : Type} {sep : α} {xs ys ds es : List α}
    (h : xs ++ sep :: ds = ys ++ sep :: es) (hds : sep ∉ ds) (hes : sep ∉ es) :
    xs = ys ∧ ds = es := by
  rcases append_eq_append_iff.mp h with ⟨more, hys, hmore⟩ | ⟨more, hxs, hmore⟩
  · cases more with
    | nil => exact ⟨by rw [hys, append_nil], (List.cons.inj hmore).2⟩
    | cons x more =>
      rw [cons_append] at hmore
      exact absurd (by rw [(List.cons.inj hmore).2]; simp) hds
  · cases more with
    | nil => exact ⟨by rw [hxs, append_nil], (List.cons.inj hmore).2.symm⟩
    | cons x more =>
      rw [cons_append] at hmore
      exact absurd (by rw [(List.cons.inj hmore).2]; simp) hes

theorem hash_notMem_decimal (n : Nat) : (35 : UInt8) ∉ decimal n := by
  intro h
  have := (digit_of_mem_decimal h).1
  exact absurd this (by decide)

namespace Assembler

/-- **The key determines the message**, whatever the flow key looks like. -/
theorem fragmentKey_inj {flowKey flowKey' : Bytes} {messageSeq messageSeq' : UInt16}
    {length length' : Nat}
    (h : fragmentKey flowKey messageSeq length = fragmentKey flowKey' messageSeq' length') :
    flowKey = flowKey' ∧ messageSeq = messageSeq' ∧ length = length' := by
  have hsep : ascii "#" = [35] := by decide
  simp only [fragmentKey, hsep, ← append_cons] at h
  obtain ⟨hfront, hlength⟩ := append_cons_inj_of_last h (hash_notMem_decimal _)
    (hash_notMem_decimal _)
  obtain ⟨hflow, hseq⟩ := append_cons_inj_of_last hfront (hash_notMem_decimal _)
    (hash_notMem_decimal _)
  exact ⟨hflow, UInt16.toNat_inj.mp (decimal_injective hseq), decimal_injective hlength⟩

/-! ## One fragment into one buffer -/

theorem markFilled_eq (n : Nat) : ∀ {i : Nat} {filled : List Bool}, i + n ≤ filled.length →
    markFilled i n filled = .ok (copyAt filled i (List.replicate n true)) := by
  induction n with
  | zero =>
    intro i filled _
    simp [markFilled, copyAt]
  | succ n ih =>
    intro i filled h
    have hcopy : i + (List.replicate (n + 1) true).length ≤ filled.length := by
      rw [length_replicate]
      exact h
    have hcopy' : i + 1 + (List.replicate n true).length ≤ (filled.set i true).length := by
      rw [length_replicate, length_set]
      omega
    rw [markFilled, index_eq (show i < filled.length by omega), ok_bind,
      ih (by rw [length_set]; omega)]
    congr 1
    refine ext_getElem? fun j => ?_
    rw [getElem?_copyAt hcopy', getElem?_copyAt hcopy]
    simp only [length_replicate, getElem?_replicate, getElem?_set]
    grind

theorem addFragment_eq {pending : DTLSAssembly} {fragment : DTLSFragment} {n : Nat}
    (hbody : pending.body.length = n) (hfilled : pending.filled.length = n)
    (h : fragment.offset + fragment.fragmentLen ≤ n) :
    addFragment pending fragment = .ok
      ⟨copyAt pending.body fragment.offset fragment.body,
        copyAt pending.filled fragment.offset (List.replicate fragment.fragmentLen true)⟩ := by
  rw [addFragment, sliceFrom_eq (by omega), ok_bind, markFilled_eq _ (by omega), ok_bind]

end Assembler

theorem parseDTLSFragment_inside {record : Bytes} {fragment : DTLSFragment}
    (h : parseDTLSFragment record = .ok fragment) :
    fragment.offset + fragment.fragmentLen ≤ fragment.length ∧
      fragment.body.length = fragment.fragmentLen := by
  obtain ⟨_, -, h⟩ := bind_eq_ok.mp h
  obtain ⟨contentType, -, h⟩ := bind_eq_ok.mp h
  obtain ⟨_, -, h⟩ := bind_eq_ok.mp h
  obtain ⟨pair, -, h⟩ := bind_eq_ok.mp h
  obtain ⟨_, -, h⟩ := bind_eq_ok.mp h
  obtain ⟨fragment', r, hread, h⟩ := step_ok h
  cases h
  obtain ⟨messageType, r₁, -, hread⟩ := step_ok hread
  obtain ⟨length, r₂, -, hread⟩ := step_ok hread
  obtain ⟨messageSeq, r₃, -, hread⟩ := step_ok hread
  obtain ⟨offset, r₄, -, hread⟩ := step_ok hread
  obtain ⟨fragmentLen, r₅, -, hread⟩ := step_ok hread
  obtain ⟨body, r₆, hbody, hread⟩ := step_ok hread
  obtain ⟨_, r₇, hcheck, hread⟩ := step_ok hread
  cases hread
  exact ⟨of_decide_eq_true (check_ok hcheck).1, (bytes_ok hbody).2.1⟩

/-! ## Any bytes -/

namespace Assembler

/-- Every pending buffer is as long as its key says. -/
def Sized (a : Assembler) : Prop :=
  ∀ flowKey messageSeq length pending,
    a.dtlsFrags.lookup (fragmentKey flowKey messageSeq length) = some pending →
      pending.body.length = length ∧ pending.filled.length = length

theorem sized_new : Sized .new := by
  intro flowKey messageSeq length pending h
  cases h

variable {a : Assembler}

theorem Sized.pending (h : a.Sized) (flowKey : Bytes) (messageSeq : UInt16) (length : Nat) :
    ((a.dtlsFrags.lookup (fragmentKey flowKey messageSeq length)).getD
        (emptyAssembly length)).body.length = length ∧
      ((a.dtlsFrags.lookup (fragmentKey flowKey messageSeq length)).getD
        (emptyAssembly length)).filled.length = length := by
  cases hlookup : a.dtlsFrags.lookup (fragmentKey flowKey messageSeq length) with
  | none => exact ⟨length_replicate, length_replicate⟩
  | some pending => exact h _ _ _ _ hlookup

/-- **One call on arbitrary bytes**: no index is out of range, and the buffers
keep their lengths. -/
theorem Sized.assembleDTLS (h : a.Sized) (flowKey payload : Bytes) :
    Safe .panic (a.assembleDTLS flowKey payload).1 ∧ (a.assembleDTLS flowKey payload).2.Sized := by
  unfold Assembler.assembleDTLS
  cases hparse : parseDTLSFragment payload with
  | error e =>
    refine ⟨?_, h⟩
    intro x hx
    rw [Except.error.inj hx] at hparse
    exact parseDTLSFragment_safe payload x hparse
  | ok fragment =>
    dsimp only
    split
    · exact ⟨Safe.ok _, h⟩
    · obtain ⟨hinside, hlength⟩ := parseDTLSFragment_inside hparse
      obtain ⟨hbody, hfilled⟩ := h.pending flowKey fragment.messageSeq fragment.length
      unfold addToPending
      dsimp only
      rw [addFragment_eq hbody hfilled hinside]
      dsimp only
      split
      · refine ⟨?_, ?_⟩
        · exact (parseHello_safe _).map some
        · intro flowKey' messageSeq' length' pending hlookup
          refine h flowKey' messageSeq' length' pending ?_
          by_cases hkey : fragmentKey flowKey' messageSeq' length' =
              fragmentKey flowKey fragment.messageSeq fragment.length
          · rw [hkey, AList.lookup_erase] at hlookup
            cases hlookup
          · rwa [AList.lookup_erase_ne hkey] at hlookup
      · refine ⟨Safe.ok _, ?_⟩
        intro flowKey' messageSeq' length' pending hlookup
        by_cases hkey : fragmentKey flowKey' messageSeq' length' =
            fragmentKey flowKey fragment.messageSeq fragment.length
        · obtain ⟨-, -, rfl⟩ := fragmentKey_inj hkey
          rw [hkey, AList.lookup_insert] at hlookup
          cases hlookup
          refine ⟨?_, ?_⟩
          · rw [length_copyAt (by omega), hbody]
          · rw [length_copyAt (by rw [length_replicate]; omega), hfilled]
        · rw [AList.lookup_insert_ne hkey] at hlookup
          exact h _ _ _ _ hlookup

theorem Sized.afterCall (h : a.Sized) (c : Primitives) (call : Call) :
    (a.afterCall c call).Sized := by
  have hframe : (∀ flowKey payload, call ≠ .dtls flowKey payload) → (a.afterCall c call).Sized := by
    intro hcall
    unfold Sized
    rw [a.dtlsFrags_afterCall c hcall]
    exact h
  cases call with
  | tcp flowKey payload => exact hframe (by simp)
  | quic payload => exact hframe (by simp)
  | dtls flowKey payload => exact (h.assembleDTLS flowKey payload).2

theorem Sized.after (h : a.Sized) (c : Primitives) (calls : List Call) :
    (a.after c calls).Sized := by
  induction calls generalizing a with
  | nil => exact h
  | cons call calls ih => exact ih (h.afterCall c call)

end Assembler

/-! ## A message in fragments -/

/-- A hello message with a body of 1 to 65536 bytes, which need not parse. -/
structure HelloMessage where
  messageType : UInt8
  messageSeq : UInt16
  body : Bytes
  isHello : messageType = handshakeClientHello ∨ messageType = handshakeServerHello
  nonempty : 1 ≤ body.length
  fits : body.length ≤ maxFlowBuffer

/-- The header of a DTLS record, up to its length field. -/
structure DTLSHeader where
  version : UInt16
  epochAndSequence : Bytes
  known : isDTLSVersion version = true
  size : epochAndSequence.length = 8

def DTLSHeader.framing (h : DTLSHeader) (messageSeq : UInt16) : Framing :=
  .dtls h.version h.known h.epochAndSequence h.size messageSeq

/-- The header that `Reassemble` writes. -/
def DTLSHeader.plain : DTLSHeader := ⟨versionDTLS12, List.replicate 8 0, isDTLSVersion_dtls12, rfl⟩

namespace HelloMessage

/-- `length` bytes of the body, behind the header of the fragment. -/
def putFragment (m : HelloMessage) (offset length : Nat) : Bytes :=
  [m.messageType] ++ (putUint 3 m.body.length ++ (putUint 2 m.messageSeq.toNat ++
    (putUint 3 offset ++ (putUint 3 length ++ ((m.body.drop offset).take length ++ [])))))

/-- The fragment as `ParseDTLSFragment` reports it. -/
def fragment (m : HelloMessage) (offset length : Nat) : DTLSFragment where
  messageType := m.messageType
  messageSeq := m.messageSeq
  length := m.body.length
  offset := offset
  fragmentLen := length
  body := (m.body.drop offset).take length

def fragmentRecord (m : HelloMessage) (header : DTLSHeader) (offset length : Nat) : Bytes :=
  (header.framing m.messageSeq).header (m.putFragment offset length).length ++
    m.putFragment offset length

def record (m : HelloMessage) (header : DTLSHeader) : Bytes :=
  m.fragmentRecord header 0 m.body.length

variable {m : HelloMessage} {offset length : Nat}

theorem length_data (h : offset + length ≤ m.body.length) :
    ((m.body.drop offset).take length).length = length := by
  rw [length_take, length_drop]
  omega

theorem length_lt (m : HelloMessage) : m.body.length < 256 ^ 3 :=
  Nat.lt_of_le_of_lt m.fits (by decide)

theorem exact_readFragment (h : offset + length ≤ m.body.length) :
    Exact readFragment (m.putFragment offset length) (m.fragment offset length) := by
  have hlt := m.length_lt
  have hdata : Exact (Parser.bytes length) ((m.body.drop offset).take length)
      ((m.body.drop offset).take length) := by
    have hsize : length ≤ maxReasonableHelloLength :=
      (Nat.le_of_add_left_le h).trans m.fits
    have := @exact_bytes ((m.body.drop offset).take length) (by rw [length_data h]; exact hsize)
    rwa [length_data h] at this
  refine (exact_u8 m.messageType).bind ((exact_u24 hlt).bind ((exact_u16 m.messageSeq).bind ?_))
  refine (exact_u24 (by omega)).bind ((exact_u24 (by omega)).bind (hdata.bind ?_))
  exact Exact.check (decide_eq_true h) _ (Exact.pure _)

/-- **A record with one fragment is read as that fragment.** -/
theorem parseDTLSFragment_fragmentRecord (header : DTLSHeader)
    (h : offset + length ≤ m.body.length) :
    parseDTLSFragment (m.fragmentRecord header offset length) = .ok (m.fragment offset length) := by
  obtain ⟨f, hf⟩ : ∃ f, f = header.framing m.messageSeq := ⟨_, rfl⟩
  obtain ⟨n, hn⟩ : ∃ n, n = (m.putFragment offset length).length := ⟨_, rfl⟩
  have hrecord :
      m.fragmentRecord header offset length = f.header n ++ m.putFragment offset length := by
    rw [fragmentRecord, hf, hn]
  have hheader : (f.header n).length = dtlsRecordHeaderLen := by
    rw [f.length_header, hf]
    rfl
  have hlong : dtlsRecordHeaderLen + dtlsHandshakeHeaderLen ≤
      (f.header n ++ m.putFragment offset length).length := by
    rw [length_append, hheader]
    simp only [putFragment, length_append, length_putUint, length_singleton]
    simp only [dtlsHandshakeHeaderLen]
    omega
  have hknown : isDTLSVersion f.version = true := by
    rw [f.isDTLSVersion_version, hf]
    rfl
  have hread := (m.exact_readFragment h).takes
    ⟨f.header n ++ m.putFragment offset length, dtlsRecordHeaderLen⟩ []
    (by rw [ByteReader.rest, ← hheader, drop_left, append_nil])
  rw [hrecord, parseDTLSFragment, decide_eq_true hlong, ensure_true, ok_bind, index_header,
    ok_bind, decide_eq_true rfl, ensure_true, ok_bind, slice_header, ok_bind, uint16_putUint,
    hknown, ensure_true,
    ok_bind, hread, ok_bind]

/-- `Reassemble` writes the unfragmented record, with a header of its own. -/
theorem reassemble_fragment :
    (m.fragment offset length).reassemble m.body = m.record DTLSHeader.plain := by
  have hpayload :
      (m.putFragment 0 m.body.length).length = dtlsHandshakeHeaderLen + m.body.length := by
    simp only [putFragment, length_append, length_putUint, length_singleton,
      drop_zero, take_length, length_nil, dtlsHandshakeHeaderLen]
    omega
  rw [record, fragmentRecord, hpayload]
  simp [DTLSFragment.reassemble, fragment, putFragment, Framing.header, DTLSHeader.framing,
    Framing.version, Framing.numbers, DTLSHeader.plain, versionDTLS12, putUint]

end HelloMessage

theorem HelloMessage.parseHello_record (m : HelloMessage) (header : DTLSHeader) :
    parseHello (m.record .plain) =
      (parseHello (m.record header)).map (Hello.relabel versionDTLS12 (m.record .plain)) :=
  @parseHello_reheader (header.framing m.messageSeq) (DTLSHeader.plain.framing m.messageSeq) rfl
    (m.putFragment 0 m.body.length).length (m.putFragment 0 m.body.length).length
    (m.putFragment 0 m.body.length)

/-- A fragment of the message, in a record of its own. -/
structure Piece (m : HelloMessage) extends Part m.body where
  header : DTLSHeader

namespace Piece

variable {m : HelloMessage}

def record (p : Piece m) : Bytes := m.fragmentRecord p.header p.offset p.length

def fragment (p : Piece m) : DTLSFragment := m.fragment p.offset p.length

end Piece

/-- Every byte of the body is in some piece. -/
def HelloMessage.Covered (m : HelloMessage) (pieces : List (Piece m)) : Prop :=
  ∀ i < m.body.length, ∃ p ∈ pieces, p.offset ≤ i ∧ i < p.offset + p.length

instance (m : HelloMessage) (pieces : List (Piece m)) : Decidable (m.Covered pieces) :=
  inferInstanceAs
    (Decidable (∀ i < m.body.length, ∃ p ∈ pieces, p.offset ≤ i ∧ i < p.offset + p.length))

namespace HelloMessage

variable {m : HelloMessage}

theorem Covered.mono {ps qs : List (Piece m)} (h : m.Covered ps) (hsub : ps ⊆ qs) :
    m.Covered qs := by
  intro i hi
  obtain ⟨p, hp, hin⟩ := h i hi
  exact ⟨p, hsub hp, hin⟩

/-- The body as a stream without an end. -/
def stream (m : HelloMessage) (i : Nat) : UInt8 := m.body.getD i 0

theorem map_stream (m : HelloMessage) : (List.range m.body.length).map m.stream = m.body :=
  (map_getD_range 0 (Nat.le_refl _)).trans take_length

theorem covered_iff_all {ps : List (Piece m)} :
    m.Covered ps ↔ ∀ i < m.body.length, covered (ps.map fun p => p.chunk) i = true := by
  refine forall₂_congr fun i _ => ?_
  rw [covered_iff]
  constructor
  · rintro ⟨p, hp, hin⟩
    exact ⟨p.chunk, mem_map_of_mem hp, Chunk.carries_iff.mpr (by rw [p.length_chunk]; exact hin)⟩
  · rintro ⟨c, hc, hin⟩
    obtain ⟨p, hp, rfl⟩ := mem_map.mp hc
    have hin := Chunk.carries_iff.mp hin
    rw [p.length_chunk] at hin
    exact ⟨p, hp, hin⟩

end HelloMessage

/-! ## The pending buffer -/

namespace Assembler

variable {m : HelloMessage} {flowKey : Bytes}

def keyOf (flowKey : Bytes) (m : HelloMessage) : Bytes :=
  fragmentKey flowKey m.messageSeq m.body.length

/-- The buffer of the message, whether or not it has been allocated yet. -/
def pendingOf (a : Assembler) (flowKey : Bytes) (m : HelloMessage) : DTLSAssembly :=
  (a.dtlsFrags.lookup (keyOf flowKey m)).getD (emptyAssembly m.body.length)

/-- The buffer holds what the pieces lay out. -/
def Collected (a : Assembler) (flowKey : Bytes) (m : HelloMessage) (pieces : List (Piece m)) :
    Prop :=
  Laid m.stream m.body.length (covered (pieces.map fun p => p.chunk))
    ((a.pendingOf flowKey m).body, (a.pendingOf flowKey m).filled)

variable {a : Assembler} {pieces : List (Piece m)}

theorem collected_fresh (h : a.dtlsFrags.lookup (keyOf flowKey m) = none) :
    a.Collected flowKey m [] := by
  unfold Collected pendingOf
  rw [h]
  refine ⟨length_replicate, ?_, ?_⟩
  · change List.replicate m.body.length false = (List.range m.body.length).map fun _ => false
    rw [map_const', length_range]
  · intro i _ hcov
    cases hcov

theorem Collected.add (h : a.Collected flowKey m pieces) (p : Piece m) :
    ∃ pending, addFragment (a.pendingOf flowKey m) p.fragment = .ok pending ∧
      Laid m.stream m.body.length (covered ((pieces ++ [p]).map fun p => p.chunk))
        (pending.body, pending.filled) := by
  have hbody : (a.pendingOf flowKey m).body.length = m.body.length := h.length
  have hfilled : (a.pendingOf flowKey m).filled.length = m.body.length := by
    have := congrArg List.length h.marked
    rwa [length_map, length_range] at this
  refine ⟨_, addFragment_eq hbody hfilled p.inside, ?_⟩
  have hlaid := Laid.copy h (p.cutFrom_chunk 0) p.finish_chunk
  rw [p.length_chunk] at hlaid
  exact hlaid.congr fun i => by simp [covered]

/-! ## One record -/

theorem assembleDTLS_record (a : Assembler) (p : Piece m) :
    a.assembleDTLS flowKey p.record = a.addToPending (keyOf flowKey m) p.fragment := by
  have hparse : parseDTLSFragment p.record = .ok p.fragment :=
    HelloMessage.parseDTLSFragment_fragmentRecord p.header p.inside
  have hhello : p.fragment.isHello = true := by
    rcases m.isHello with h | h <;>
      simp [Piece.fragment, HelloMessage.fragment, DTLSFragment.isHello, h]
  have hfits : ¬ p.fragment.length > maxFlowBuffer := Nat.not_lt.mpr m.fits
  rw [assembleDTLS, hparse]
  simp only [hhello, hfits]
  rfl

theorem addToPending_ok {key : Bytes} {fragment : DTLSFragment}
    {pending : DTLSAssembly}
    (h : addFragment ((a.dtlsFrags.lookup key).getD (emptyAssembly fragment.length)) fragment =
      .ok pending) :
    a.addToPending key fragment =
      if pending.filled.all id then
        (some <$> parseHello (fragment.reassemble pending.body),
          { a with dtlsFrags := a.dtlsFrags.erase key })
      else (.ok none, { a with dtlsFrags := a.dtlsFrags.insert key pending }) := by
  simp only [addToPending, h]

/-- A record that leaves a byte missing is kept without a result. -/
theorem Collected.incomplete (h : a.Collected flowKey m pieces) {p : Piece m}
    (hmissing : ¬ m.Covered (pieces ++ [p])) :
    (a.assembleDTLS flowKey p.record).1 = .ok none ∧
      (a.assembleDTLS flowKey p.record).2.Collected flowKey m (pieces ++ [p]) := by
  obtain ⟨pending, hadd, hlaid⟩ := h.add p
  have hall : ¬ pending.filled.all id = true := by
    intro hall
    exact hmissing (HelloMessage.covered_iff_all.mpr (hlaid.all_marked_iff.mp hall))
  have hcall : a.assembleDTLS flowKey p.record =
      (.ok none, { a with dtlsFrags := a.dtlsFrags.insert (keyOf flowKey m) pending }) := by
    rw [assembleDTLS_record, addToPending_ok hadd, if_neg hall]
  rw [hcall]
  refine ⟨rfl, ?_⟩
  unfold Collected pendingOf
  rw [AList.lookup_insert]
  exact hlaid

/-- **The record that completes the message** returns what the unfragmented
record gives, and the buffer is forgotten. -/
theorem Collected.complete (h : a.Collected flowKey m pieces) {p : Piece m}
    (hcovered : m.Covered (pieces ++ [p])) :
    (a.assembleDTLS flowKey p.record).1 = some <$> parseHello (m.record .plain) ∧
      (a.assembleDTLS flowKey p.record).2.dtlsFrags.lookup (keyOf flowKey m) = none := by
  obtain ⟨pending, hadd, hlaid⟩ := h.add p
  have hcovered := HelloMessage.covered_iff_all.mp hcovered
  have hall : pending.filled.all id = true := hlaid.all_marked_iff.mpr hcovered
  have hbody : pending.body = m.body := (hlaid.eq_map hcovered).trans m.map_stream
  have hcall : a.assembleDTLS flowKey p.record =
      (some <$> parseHello (m.record .plain),
        { a with dtlsFrags := a.dtlsFrags.erase (keyOf flowKey m) }) := by
    rw [assembleDTLS_record, addToPending_ok hadd, if_pos hall, hbody, Piece.fragment,
      HelloMessage.reassemble_fragment]
  rw [hcall]
  exact ⟨rfl, AList.lookup_erase _ _⟩

/-! ## Other packets -/

/-- The packet is not a fragment of the message: it belongs to another protocol
or another flow, is not a fragment of a hello, or has another message number or
length. -/
def Apart (flowKey : Bytes) (m : HelloMessage) : Call → Prop
  | .tcp .. => True
  | .quic _ => True
  | .dtls flowKey' payload => ∀ f, parseDTLSFragment payload = .ok f → f.isHello = true →
      ¬ (flowKey' = flowKey ∧ f.messageSeq = m.messageSeq ∧ f.length = m.body.length)

theorem lookup_addToPending {key key' : Bytes} (hne : key ≠ key') (fragment : DTLSFragment) :
    (a.addToPending key' fragment).2.dtlsFrags.lookup key = a.dtlsFrags.lookup key := by
  unfold addToPending
  dsimp only
  cases addFragment _ fragment with
  | error e => rfl
  | ok pending =>
    dsimp only
    split
    · exact AList.lookup_erase_ne hne
    · exact AList.lookup_insert_ne hne

theorem lookup_afterCall (a : Assembler) (c : Primitives) {call : Call} (h : Apart flowKey m call) :
    (a.afterCall c call).dtlsFrags.lookup (keyOf flowKey m) =
      a.dtlsFrags.lookup (keyOf flowKey m) := by
  cases call with
  | tcp flowKey' payload | quic payload => rw [a.dtlsFrags_afterCall c (by simp)]
  | dtls flowKey' payload =>
    change (a.assembleDTLS flowKey' payload).2.dtlsFrags.lookup _ = _
    unfold assembleDTLS
    cases hparse : parseDTLSFragment payload with
    | error e => rfl
    | ok fragment =>
      dsimp only
      by_cases hskip : (!fragment.isHello || decide (fragment.length > maxFlowBuffer)) = true
      · rw [if_pos hskip]
      · have hhello : fragment.isHello = true := by
          cases hf : fragment.isHello with
          | true => rfl
          | false => exact absurd (by simp [hf]) hskip
        rw [if_neg hskip]
        apply lookup_addToPending
        intro hkey
        obtain ⟨hflow, hseq, hlength⟩ := fragmentKey_inj hkey
        exact h fragment hparse hhello ⟨hflow.symm, hseq.symm, hlength.symm⟩

/-! ## Whole runs -/

def pieceCall (flowKey : Bytes) (p : Piece m) : Call := .dtls flowKey p.record

/-- **While a byte is missing** the buffer holds what has arrived. -/
theorem Collected.after (c : Primitives) (h : a.Collected flowKey m [])
    (events : List (Event (Piece m) (Apart flowKey m))) (hmissing : ¬ m.Covered (arrived events)) :
    (a.after c (events.map (Event.call (pieceCall flowKey)))).Collected flowKey m
      (arrived events) := by
  refine foldl_events (fun (a : Assembler) pieces => a.Collected flowKey m pieces)
    (fun pieces => ¬ m.Covered pieces) ?_ ?_ ?_ h events hmissing
  · intro pieces p hopen hcovered
    exact hopen (hcovered.mono (subset_append_left _ _))
  · intro a pieces p hcollected hopen
    exact (hcollected.incomplete hopen).2
  · intro a pieces call hcollected apart
    unfold Collected pendingOf
    rw [a.lookup_afterCall c apart]
    exact hcollected

/-- **DTLS reassembly is exact.** From any state the assembler can be in:

* no bytes lead to an index out of range;
* for a message of which nothing is pending, nothing is returned while a byte of
  it is missing, and the record that completes it returns what the unfragmented
  record gives — in whatever header — up to `recordVersion` and `raw`, and
  leaves nothing pending. -/
theorem assembleDTLS_exact (c : Primitives) (earlier : List Call) :
    (∀ flowKey payload,
      Safe .panic ((Assembler.new.after c earlier).assembleDTLS flowKey payload).1) ∧
    ∀ (flowKey : Bytes) (m : HelloMessage),
      (Assembler.new.after c earlier).dtlsFrags.lookup (keyOf flowKey m) = none →
      ∀ (events : List (Event (Piece m) (Apart flowKey m))) (p : Piece m),
        let a := (Assembler.new.after c earlier).after c
          (events.map (Event.call (pieceCall flowKey)))
        (¬ m.Covered (arrived events ++ [p]) → (a.assembleDTLS flowKey p.record).1 = .ok none) ∧
        (¬ m.Covered (arrived events) → m.Covered (arrived events ++ [p]) →
          (∀ header, (a.assembleDTLS flowKey p.record).1 =
            (parseHello (m.record header)).map fun hello =>
              some (hello.relabel versionDTLS12 (m.record .plain))) ∧
          (a.assembleDTLS flowKey p.record).2.dtlsFrags.lookup (keyOf flowKey m) = none) := by
  refine ⟨fun flowKey payload => ((sized_new.after c earlier).assembleDTLS flowKey payload).1, ?_⟩
  intro flowKey m hfresh events p
  have hcollected := fun hmissing => (collected_fresh hfresh).after c events hmissing
  refine ⟨?_, ?_⟩
  · intro hmissing
    have hbefore := hcollected fun hcovered =>
      hmissing (hcovered.mono (subset_append_left _ _))
    exact (hbefore.incomplete hmissing).1
  · intro hmissing hcovered
    obtain ⟨hresult, hforgotten⟩ := (hcollected hmissing).complete hcovered
    refine ⟨?_, hforgotten⟩
    intro header
    rw [hresult, m.parseHello_record header]
    cases parseHello (m.record header) with
    | error e => rfl
    | ok hello => rfl

/-! ### A message in two overlapping pieces -/

/-- A ClientHello without extensions. -/
def dtlsClientHello : HelloMessage where
  messageType := handshakeClientHello
  messageSeq := 1
  body := [0xfe, 0xfd] ++ List.replicate 32 5 ++ [0, 0, 0, 2, 0xc0, 0x2b, 1, 0]
  isHello := .inl rfl
  nonempty := by decide
  fits := by decide

/-- The end of the message, which arrives first. -/
def laterPiece : Piece dtlsClientHello := ⟨⟨20, 22, by decide⟩, .plain⟩

/-- The start of the message, in a DTLS 1.0 record. -/
def firstPiece : Piece dtlsClientHello :=
  ⟨⟨0, 25, by decide⟩, ⟨versionDTLS10, [0, 0, 0, 0, 0, 0, 0, 9], rfl, rfl⟩⟩

/-- A packet of a TCP flow in between. -/
def laterEvents : List (Event (Piece dtlsClientHello) (Apart (ascii "flow") dtlsClientHello)) :=
  [.item laterPiece, .other (.tcp (ascii "other") [22]) trivial]

theorem dtlsClientHello_completed :
    (Assembler.new.assembleDTLS (ascii "flow") laterPiece.record).1 = .ok none ∧
    ((Assembler.new.after plainPrimitives
        (laterEvents.map (Event.call (pieceCall (ascii "flow"))))).assembleDTLS
          (ascii "flow") firstPiece.record).1 =
      (parseHello (dtlsClientHello.record firstPiece.header)).map (fun hello =>
        some (hello.relabel versionDTLS12 (dtlsClientHello.record .plain))) ∧
    (parseHello (dtlsClientHello.record firstPiece.header)).toOption.map
      (fun hello => hello.cipherSuites) = some [0xc02b] := by
  have hexact := (assembleDTLS_exact plainPrimitives []).2 (ascii "flow") dtlsClientHello rfl
  refine ⟨?_, ?_, by decide +kernel⟩
  · exact (hexact [] laterPiece).1 (by decide +kernel)
  · exact ((hexact laterEvents firstPiece).2 (by decide +kernel) (by decide +kernel)).1
      firstPiece.header

end Assembler

end HeadlessClient.Capture
