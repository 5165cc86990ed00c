import HeadlessClient.Wirediff.Fields
import HeadlessClient.Wirediff.ReadCapture

/-!
# Wirediff — each hello once

A hello that is retransmitted should be reported once. A TCP flow and a QUIC
connection remember that they are done; a DTLS message is FORGOTTEN when it is
complete, so the next transmission starts it anew. `reports_once` says what holds
of a whole capture: reports are distinct as long as no DTLS hello arrives
completely twice.
-/

namespace HeadlessClient.Wirediff

open Base Wire Capture List

/-! ## Reports -/

/-- What makes two hellos the same: the TCP flow, the DTLS flow and message
number, or the QUIC destination connection ID. -/
inductive ReportKey where
  | tcp (flowKey : Bytes)
  | dtls (flowKey : Bytes) (messageSeq : UInt16)
  | quic (destConnID : Bytes)
deriving DecidableEq

/-- The hello that a packet belongs to, by its own bytes. -/
def packetKey (c : Primitives) : Packet → Option ReportKey
  | .tcp flowKey .. => some (.tcp flowKey)
  | .udp flowKey _ payload =>
    if payload.head? = some dtlsHandshakeContentType then
      (parseDTLSFragment payload).toOption.map fun f => .dtls flowKey f.messageSeq
    else (parseQUICInitial c payload).toOption.map fun initial => .quic initial.destConnID
  | .other => none

section Runs

variable (c : Primitives)

def next (a : Assembler) (packet : Packet) : Assembler :=
  (Reading.assemble c a packet).toOption.elim a Prod.snd

/-- The hello that the assembler reports on a packet, with its key. -/
def report (a : Assembler) (packet : Packet) : Option (ReportKey × Hello) :=
  match Reading.assemble c a packet with
  | .ok (some hello, _) => (packetKey c packet).map fun key => (key, hello)
  | _ => none

/-- The reports of one packet after another. -/
def reports : Assembler → List Packet → List (ReportKey × Hello)
  | _, [] => []
  | a, packet :: packets => (report c a packet).toList ++ reports (next c a packet) packets

def afterPackets (a : Assembler) (packets : List Packet) : Assembler := packets.foldl (next c) a

theorem reports_append (packets : List Packet) (packet : Packet) : ∀ a : Assembler,
    reports c a (packets ++ [packet]) =
      reports c a packets ++ (report c (afterPackets c a packets) packet).toList := by
  induction packets with
  | nil =>
    intro a
    simp [reports, afterPackets]
  | cons p packets ih =>
    intro a
    rw [cons_append, reports, reports, ih, append_assoc]
    rfl

theorem afterPackets_append (a : Assembler) (packets : List Packet) (packet : Packet) :
    afterPackets c a (packets ++ [packet]) = next c (afterPackets c a packets) packet := by
  simp [afterPackets]

end Runs

/-! ## What stays done -/

section Done

variable {a a' : Assembler} {flowKey payload : Bytes}

theorem assembleTCP_report {hello : Hello}
    (h : a.assembleTCP flowKey payload = .ok (some hello, a')) :
    (∀ flow, a.tcpFlows.lookup flowKey = some flow → flow.done = false) ∧
      ∃ flow, a'.tcpFlows.lookup flowKey = some flow ∧ flow.done = true := by
  rcases a.assembleTCP_cases h with ⟨hnone, -⟩ | ⟨hopen, flow', hdone, rfl⟩
  · cases hnone
  · exact ⟨hopen, flow', AList.lookup_insert _, hdone rfl⟩

variable {key : Bytes}

theorem assembleTCP_keeps {hello : Option Hello}
    (h : a.assembleTCP flowKey payload = .ok (hello, a')) {flow : TCPFlow}
    (hkey : a.tcpFlows.lookup key = some flow) (hdone : flow.done = true) :
    a'.tcpFlows.lookup key = some flow := by
  rcases a.assembleTCP_cases h with ⟨-, rfl⟩ | ⟨hopen, flow', -, rfl⟩
  · exact hkey
  · have hne : key ≠ flowKey := by
      intro heq
      rw [heq] at hkey
      rw [hopen flow hkey] at hdone
      cases hdone
    exact (AList.lookup_insert_ne hne).trans hkey

theorem addToStream_report {initial initial' : QUICInitial} {hello : Hello}
    (h : a.addToStream key initial = .ok (some (initial', hello), a')) :
    (∀ stream, a.quicStreams.lookup key = some stream → stream.done = false) ∧
      ∃ stream, a'.quicStreams.lookup key = some stream ∧ stream.done = true := by
  rcases a.addToStream_cases h with ⟨hnone, -⟩ | ⟨hopen, stream', hdone, rfl⟩
  · cases hnone
  · exact ⟨hopen, stream', AList.lookup_insert _, hdone rfl⟩

theorem addToStream_keeps {key' : Bytes} {initial : QUICInitial}
    {found : Option (QUICInitial × Hello)} (h : a.addToStream key initial = .ok (found, a'))
    {stream : QUICStream} (hkey : a.quicStreams.lookup key' = some stream)
    (hdone : stream.done = true) : a'.quicStreams.lookup key' = some stream := by
  rcases a.addToStream_cases h with ⟨-, rfl⟩ | ⟨hopen, stream', -, rfl⟩
  · exact hkey
  · have hne : key' ≠ key := by
      intro heq
      rw [heq] at hkey
      rw [hopen stream hkey] at hdone
      cases hdone
    exact (AList.lookup_insert_ne hne).trans hkey

end Done

/-! ## One packet -/

section Step

variable {c : Primitives} {a a' : Assembler} {packet : Packet}

theorem assemble_cases {hello : Option Hello} (h : Reading.assemble c a packet = .ok (hello, a')) :
    (hello = none ∧ a' = a) ∨
    (∃ flowKey reverse target syn sequence payload,
      packet = .tcp flowKey reverse target syn sequence payload ∧ payload ≠ [] ∧
      a.assembleTCP flowKey payload = .ok (hello, a')) ∨
    (∃ flowKey target payload, packet = .udp flowKey target payload ∧
      payload.head? = some dtlsHandshakeContentType ∧
      Reading.skipError (a.assembleDTLS flowKey payload).1 = .ok hello ∧
      a' = (a.assembleDTLS flowKey payload).2) ∨
    ∃ initial found, packetKey c packet = some (.quic initial.destConnID) ∧
      a.addToStream (hexEncode initial.destConnID) initial = .ok (found, a') ∧
      hello = found.map Prod.snd := by
  cases packet with
  | other =>
    cases h
    exact .inl ⟨rfl, rfl⟩
  | tcp flowKey reverse target syn sequence payload =>
    rw [Reading.assemble] at h
    split_ifs at h with hempty
    · cases h
      exact .inl ⟨rfl, rfl⟩
    · exact .inr (.inl ⟨flowKey, reverse, target, syn, sequence, payload, rfl, hempty, h⟩)
  | udp flowKey target payload =>
    rw [Reading.assemble] at h
    cases payload with
    | nil =>
      cases h
      exact .inl ⟨rfl, rfl⟩
    | cons first rest =>
      simp only [reduceCtorEq, if_false] at h
      change (if first = dtlsHandshakeContentType then _ else _) = _ at h
      by_cases hdtls : first = dtlsHandshakeContentType
      · rw [if_pos hdtls] at h
        obtain ⟨hello', hskip, h⟩ := bind_eq_ok.mp h
        cases h
        exact .inr (.inr (.inl ⟨flowKey, target, first :: rest, rfl, by simp [hdtls], hskip, rfl⟩))
      · rw [if_neg hdtls] at h
        split_ifs at h with hshort
        · cases h
          exact .inl ⟨rfl, rfl⟩
        · obtain ⟨found, a₁, hquic, h⟩ := step_ok h
          cases h
          obtain ⟨initial, hparse, hquic⟩ := bind_eq_ok.mp hquic
          cases initial with
          | none =>
            cases hquic
            exact .inl ⟨rfl, rfl⟩
          | some initial =>
            dsimp only at hquic
            split_ifs at hquic with hcrypto
            · cases hquic
              exact .inl ⟨rfl, rfl⟩
            · refine .inr (.inr (.inr ⟨initial, found, ?_, hquic, rfl⟩))
              cases hp : parseQUICInitial c (first :: rest) with
              | error e =>
                rw [hp] at hparse
                cases e <;> cases hparse
              | ok initial' =>
                rw [hp] at hparse
                cases hparse
                simp [packetKey, hdtls, hp, Except.toOption]

/-- The hello is not reported again. A DTLS message never gets there. -/
def Finished (a : Assembler) : ReportKey → Prop
  | .tcp flowKey => ∃ flow, a.tcpFlows.lookup flowKey = some flow ∧ flow.done = true
  | .quic destConnID =>
    ∃ stream, a.quicStreams.lookup (hexEncode destConnID) = some stream ∧ stream.done = true
  | .dtls .. => False

variable {key : ReportKey}

theorem Finished.of_eq (h : Finished a key) (htcp : a'.tcpFlows = a.tcpFlows)
    (hquic : a'.quicStreams = a.quicStreams) : Finished a' key := by
  cases key with
  | tcp flowKey =>
    unfold Finished
    rw [htcp]
    exact h
  | quic destConnID =>
    unfold Finished
    rw [hquic]
    exact h
  | dtls flowKey messageSeq => exact h

theorem next_of_ok {hello : Option Hello} (h : Reading.assemble c a packet = .ok (hello, a')) :
    next c a packet = a' := by
  rw [next, h]
  rfl

theorem next_of_error {e : WireError} (h : Reading.assemble c a packet = .error e) :
    next c a packet = a := by
  rw [next, h]
  rfl

/-- **Done stays done.** -/
theorem Finished.next (h : Finished a key) : Finished (next c a packet) key := by
  cases hcall : Reading.assemble c a packet with
  | error e =>
    rw [next_of_error hcall]
    exact h
  | ok x =>
    obtain ⟨hello, a'⟩ := x
    rw [next_of_ok hcall]
    obtain ⟨-, rfl⟩ | ⟨flowKey, _, _, _, _, payload, -, -, htcp⟩ |
      ⟨flowKey, target, payload, -, -, -, rfl⟩ |
      ⟨initial, found, -, hquic, -⟩ := assemble_cases hcall
    · exact h
    · cases key with
      | tcp key =>
        obtain ⟨flow, hflow, hdone⟩ := h
        exact ⟨flow, assembleTCP_keeps htcp hflow hdone, hdone⟩
      | quic destConnID =>
        unfold Finished
        rw [(a.assembleTCP_frame htcp).2]
        exact h
      | dtls flowKey messageSeq => exact h
    · have hframe := a.assembleDTLS_frame flowKey payload
      exact h.of_eq hframe.1 hframe.2
    · cases key with
      | tcp key =>
        unfold Finished
        rw [(a.addToStream_frame hquic).1]
        exact h
      | quic destConnID =>
        obtain ⟨stream, hstream, hdone⟩ := h
        exact ⟨stream, addToStream_keeps hquic hstream hdone, hdone⟩
      | dtls flowKey messageSeq => exact h

theorem report_eq_some {hello : Hello} (h : report c a packet = some (key, hello)) :
    packetKey c packet = some key ∧
      Reading.assemble c a packet = .ok (some hello, next c a packet) := by
  unfold report at h
  cases hcall : Reading.assemble c a packet with
  | error e =>
    rw [hcall] at h
    cases h
  | ok x =>
    obtain ⟨hello', a'⟩ := x
    rw [hcall] at h
    cases hello' with
    | none => cases h
    | some hello' =>
      obtain ⟨key', hkey, heq⟩ := Option.map_eq_some_iff.mp h
      cases heq
      rw [next_of_ok hcall]
      exact ⟨hkey, rfl⟩

theorem packetKey_dtls {flowKey target payload : Bytes}
    (hdtls : payload.head? = some dtlsHandshakeContentType)
    (h : packetKey c (.udp flowKey target payload) = some key) :
    ∃ f, parseDTLSFragment payload = .ok f ∧ key = .dtls flowKey f.messageSeq := by
  rw [packetKey, if_pos hdtls] at h
  cases hparse : parseDTLSFragment payload with
  | error e =>
    rw [hparse] at h
    cases h
  | ok f =>
    rw [hparse] at h
    cases h
    exact ⟨f, rfl, rfl⟩

/-- **A report of a TCP flow or a QUIC connection is its last.** -/
theorem report_finishes {hello : Hello} (h : report c a packet = some (key, hello))
    (hkey : ∀ flowKey messageSeq, key ≠ .dtls flowKey messageSeq) :
    ¬ Finished a key ∧ Finished (next c a packet) key := by
  obtain ⟨hpacket, hcall⟩ := report_eq_some h
  obtain ⟨hnone, -⟩ | ⟨flowKey, _, _, _, _, payload, rfl, -, htcp⟩ |
    ⟨flowKey, target, payload, rfl, hdtls, -, -⟩ | ⟨initial, found, hquicKey, hquic, hfound⟩ :=
      assemble_cases hcall
  · cases hnone
  · cases hpacket
    obtain ⟨hopen, hdone⟩ := assembleTCP_report htcp
    apply And.intro _ hdone
    rintro ⟨flow, hflow, hdone'⟩
    rw [hopen flow hflow] at hdone'
    cases hdone'
  · obtain ⟨f, -, rfl⟩ := packetKey_dtls hdtls hpacket
    exact absurd rfl (hkey _ _)
  · rw [hpacket] at hquicKey
    cases hquicKey
    cases found with
    | none => cases hfound
    | some x =>
      obtain ⟨hopen, hdone⟩ := addToStream_report hquic
      apply And.intro _ hdone
      rintro ⟨stream, hstream, hdone'⟩
      rw [hopen stream hstream] at hdone'
      cases hdone'

theorem sized_next (h : a.Sized) : (next c a packet).Sized := by
  obtain ⟨⟨hello, a'⟩, hcall⟩ := assemble_returns c h packet
  rw [next_of_ok hcall]
  obtain ⟨-, rfl⟩ | ⟨flowKey, _, _, _, _, payload, -, -, htcp⟩ |
    ⟨flowKey, target, payload, -, -, -, rfl⟩ |
    ⟨initial, found, -, hquic, -⟩ := assemble_cases hcall
  · exact h
  · unfold Assembler.Sized
    rw [(a.assembleTCP_frame htcp).1]
    exact h
  · exact (h.assembleDTLS flowKey payload).2
  · unfold Assembler.Sized
    rw [(a.addToStream_frame hquic).2]
    exact h

end Step

/-! ## DTLS messages -/

/-- The fragment of a hello with this flow and number that a packet carries. -/
def helloFragment (flowKey : Bytes) (messageSeq : UInt16) : Packet → Option DTLSFragment
  | .udp flowKey' _ payload =>
    (parseDTLSFragment payload).toOption.filter fun f =>
      flowKey' = flowKey && f.isHello && f.messageSeq = messageSeq
  | _ => none

def helloFragments (flowKey : Bytes) (messageSeq : UInt16) (packets : List Packet) :
    List DTLSFragment :=
  packets.filterMap (helloFragment flowKey messageSeq)

def Carried (fragments : List DTLSFragment) (length i : Nat) : Prop :=
  ∃ f ∈ fragments, f.length = length ∧ f.offset ≤ i ∧ i < f.offset + f.fragmentLen

/-- A whole message is there. -/
def Complete (fragments : List DTLSFragment) : Prop :=
  ∃ f ∈ fragments, ∀ i < f.length, Carried fragments f.length i

instance (fs : List DTLSFragment) (length i : Nat) : Decidable (Carried fs length i) :=
  inferInstanceAs (Decidable (∃ f ∈ fs, f.length = length ∧ f.offset ≤ i ∧
    i < f.offset + f.fragmentLen))

instance (fs : List DTLSFragment) : Decidable (Complete fs) :=
  inferInstanceAs (Decidable (∃ f ∈ fs, ∀ i < f.length, Carried fs f.length i))

variable {fs gs : List DTLSFragment}

theorem Carried.mono {length i : Nat} (h : Carried fs length i) (hsub : fs ⊆ gs) :
    Carried gs length i := by
  obtain ⟨f, hf, hin⟩ := h
  exact ⟨f, hsub hf, hin⟩

theorem Complete.mono (h : Complete fs) (hsub : fs ⊆ gs) : Complete gs := by
  obtain ⟨f, hf, hall⟩ := h
  exact ⟨f, hsub hf, fun i hi => (hall i hi).mono hsub⟩

theorem helloFragment_udp {flowKey target payload : Bytes} {f : DTLSFragment}
    (hparse : parseDTLSFragment payload = .ok f) (hhello : f.isHello = true) :
    helloFragment flowKey f.messageSeq (.udp flowKey target payload) = some f := by
  simp [helloFragment, hparse, Except.toOption, Option.filter, hhello]

/-- What is marked as filled has been carried by some fragment. -/
def Marks (a : Assembler) (flowKey : Bytes) (messageSeq : UInt16) (fs : List DTLSFragment) : Prop :=
  ∀ length pending,
    a.dtlsFrags.lookup (Assembler.fragmentKey flowKey messageSeq length) = some pending →
    ∀ i, pending.filled[i]? = some true → Carried fs length i

section Marks

variable {c : Primitives} {a : Assembler} {flowKey : Bytes} {messageSeq : UInt16}
  {fs : List DTLSFragment}

theorem Marks.mono (h : Marks a flowKey messageSeq fs) (hsub : fs ⊆ gs) :
    Marks a flowKey messageSeq gs := by
  intro length pending hlookup i hi
  exact (h length pending hlookup i hi).mono hsub

theorem Marks.of_eq {a' : Assembler} (h : Marks a flowKey messageSeq fs)
    (heq : a'.dtlsFrags = a.dtlsFrags) : Marks a' flowKey messageSeq fs := by
  unfold Marks
  rw [heq]
  exact h

theorem Marks.filled {f : DTLSFragment} (h : Marks a flowKey f.messageSeq fs) (hsized : a.Sized)
    (hinside : f.offset + f.fragmentLen ≤ f.length) {pending : DTLSAssembly}
    (hadd : Assembler.addFragment ((a.dtlsFrags.lookup
      (Assembler.fragmentKey flowKey f.messageSeq f.length)).getD
        (Assembler.emptyAssembly f.length)) f = .ok pending) :
    pending.filled.length = f.length ∧
      ∀ i, pending.filled[i]? = some true → Carried (fs ++ [f]) f.length i := by
  obtain ⟨hbody, hfilled⟩ := hsized.pending flowKey f.messageSeq f.length
  rw [Assembler.addFragment_eq hbody hfilled hinside] at hadd
  cases hadd
  have hfits : f.offset + (List.replicate f.fragmentLen true).length ≤
      ((a.dtlsFrags.lookup (Assembler.fragmentKey flowKey f.messageSeq f.length)).getD
        (Assembler.emptyAssembly f.length)).filled.length := by
    rw [length_replicate, hfilled]
    exact hinside
  refine ⟨(length_copyAt hfits).trans hfilled, ?_⟩
  intro i hi
  rw [getElem?_copyAt hfits, length_replicate] at hi
  by_cases hin : f.offset ≤ i ∧ i < f.offset + f.fragmentLen
  · exact ⟨f, by simp, rfl, hin⟩
  · rw [if_neg hin] at hi
    cases hlookup : a.dtlsFrags.lookup (Assembler.fragmentKey flowKey f.messageSeq f.length) with
    | none =>
      rw [hlookup] at hi
      have hmem := mem_of_getElem? hi
      simp [Assembler.emptyAssembly] at hmem
    | some old =>
      rw [hlookup] at hi
      apply (h f.length old hlookup i hi).mono
      simp

theorem assembleDTLS_hello (a : Assembler) (flowKey : Bytes) {payload : Bytes} {f : DTLSFragment}
    (hparse : parseDTLSFragment payload = .ok f) :
    (a.assembleDTLS flowKey payload = (.ok none, a)) ∨
      (f.isHello = true ∧ a.assembleDTLS flowKey payload =
        a.addToPending (Assembler.fragmentKey flowKey f.messageSeq f.length) f) := by
  unfold Assembler.assembleDTLS
  rw [hparse]
  dsimp only
  split_ifs with hskip
  · exact .inl rfl
  · refine .inr ⟨?_, rfl⟩
    cases hhello : f.isHello with
    | true => rfl
    | false => simp [hhello] at hskip

theorem Marks.assembleDTLS (h : Marks a flowKey messageSeq fs) (hsized : a.Sized)
    (flowKey' target payload : Bytes) :
    Marks (a.assembleDTLS flowKey' payload).2 flowKey messageSeq
      (fs ++ (helloFragment flowKey messageSeq (.udp flowKey' target payload)).toList) := by
  cases hparse : parseDTLSFragment payload with
  | error e =>
    unfold Assembler.assembleDTLS
    rw [hparse]
    exact h.mono (subset_append_left _ _)
  | ok f =>
    obtain hskip | ⟨hhello, hadd⟩ := assembleDTLS_hello a flowKey' hparse
    · rw [hskip]
      exact h.mono (subset_append_left _ _)
    · rw [hadd]
      intro length pending hlookup i hi
      by_cases hkey : Assembler.fragmentKey flowKey messageSeq length =
          Assembler.fragmentKey flowKey' f.messageSeq f.length
      · obtain ⟨rfl, rfl, rfl⟩ := Assembler.fragmentKey_inj hkey
        rw [helloFragment_udp hparse hhello]
        obtain ⟨hinside, -⟩ := parseDTLSFragment_inside hparse
        obtain ⟨hbody, hfilled⟩ := hsized.pending flowKey f.messageSeq f.length
        have hcopy := Assembler.addFragment_eq hbody hfilled hinside
        rw [Assembler.addToPending_ok hcopy] at hlookup
        split at hlookup
        · rw [AList.lookup_erase] at hlookup
          cases hlookup
        · rw [AList.lookup_insert] at hlookup
          cases hlookup
          exact (h.filled hsized hinside hcopy).2 i hi
      · rw [Assembler.lookup_addToPending hkey] at hlookup
        exact (h length pending hlookup i hi).mono (subset_append_left _ _)

/-- **The marks follow the packets.** -/
theorem Marks.next (h : Marks a flowKey messageSeq fs) (hsized : a.Sized) (packet : Packet) :
    Marks (next c a packet) flowKey messageSeq
      (fs ++ (helloFragment flowKey messageSeq packet).toList) := by
  obtain ⟨⟨hello, a'⟩, hcall⟩ := assemble_returns c hsized packet
  rw [next_of_ok hcall]
  obtain ⟨-, rfl⟩ | ⟨flowKey', _, _, _, _, payload, -, -, htcp⟩ |
    ⟨flowKey', target, payload, rfl, -, -, rfl⟩ |
    ⟨initial, found, -, hquic, -⟩ := assemble_cases hcall
  · exact h.mono (subset_append_left _ _)
  · exact (h.of_eq (a.assembleTCP_frame htcp).1).mono (subset_append_left _ _)
  · exact h.assembleDTLS hsized flowKey' target payload
  · exact (h.of_eq (a.addToStream_frame hquic).2).mono (subset_append_left _ _)

/-- **A reported message is complete**, and forgotten. -/
theorem Marks.report {packet : Packet} {hello : Hello} (h : Marks a flowKey messageSeq fs)
    (hsized : a.Sized) (hreport : report c a packet = some (.dtls flowKey messageSeq, hello)) :
    ∃ f, helloFragment flowKey messageSeq packet = some f ∧ Complete (fs ++ [f]) ∧
      (Wirediff.next c a packet).dtlsFrags.lookup
        (Assembler.fragmentKey flowKey messageSeq f.length) = none := by
  obtain ⟨hpacket, hcall⟩ := report_eq_some hreport
  obtain ⟨hnone, -⟩ | ⟨_, _, _, _, _, _, rfl, -, -⟩ |
    ⟨flowKey', target, payload, rfl, hdtls, hskip, hnext⟩ | ⟨initial, found, hquicKey, -, -⟩ :=
      assemble_cases hcall
  · cases hnone
  · cases hpacket
  · obtain ⟨f, hparse, heq⟩ := packetKey_dtls hdtls hpacket
    cases heq
    rw [hnext]
    obtain hnothing | ⟨hhello, hadd⟩ := assembleDTLS_hello a flowKey hparse
    · rw [hnothing] at hskip
      cases hskip
    · obtain ⟨hinside, -⟩ := parseDTLSFragment_inside hparse
      obtain ⟨hbody, hfilled⟩ := hsized.pending flowKey f.messageSeq f.length
      have hcopy := Assembler.addFragment_eq hbody hfilled hinside
      obtain ⟨hlength, hmarks⟩ := h.filled hsized hinside hcopy
      rw [hadd, Assembler.addToPending_ok hcopy] at hskip ⊢
      split at hskip
      · rename_i hall
        rw [if_pos hall]
        refine ⟨f, helloFragment_udp hparse hhello, ?_, AList.lookup_erase _ _⟩
        refine ⟨f, by simp, ?_⟩
        intro i hi
        apply hmarks
        rw [getElem?_eq_getElem (by rw [hlength]; exact hi)]
        exact congrArg some (all_eq_true.mp hall _ (getElem_mem _))
      · cases hskip
  · rw [hpacket] at hquicKey
    cases hquicKey

/-- Nothing is marked if all fragments were of one length, whose buffer is gone. -/
theorem Marks.forgotten {length : Nat} (h : Marks a flowKey messageSeq fs)
    (hlength : ∀ f ∈ fs, f.length = length)
    (hgone : a.dtlsFrags.lookup (Assembler.fragmentKey flowKey messageSeq length) = none) :
    Marks a flowKey messageSeq [] := by
  intro length' pending hlookup i hi
  obtain ⟨f, hf, hsame, -⟩ := h length' pending hlookup i hi
  rw [← hsame, hlength f hf, hgone] at hlookup
  cases hlookup

end Marks

/-! ## A whole capture -/

/-- No DTLS hello arrives completely and then completely AGAIN. The fragments
with one flow and message number are of one message, so they name one length. -/
structure Unrepeated (packets : List Packet) : Prop where
  length_eq : ∀ flowKey messageSeq, ∀ f ∈ helloFragments flowKey messageSeq packets,
    ∀ g ∈ helloFragments flowKey messageSeq packets, f.length = g.length
  once : ∀ flowKey messageSeq ps qs, packets = ps ++ qs →
    Complete (helloFragments flowKey messageSeq ps) →
      ¬ Complete (helloFragments flowKey messageSeq qs)

theorem helloFragments_snoc (flowKey : Bytes) (messageSeq : UInt16) (packets : List Packet)
    (packet : Packet) :
    helloFragments flowKey messageSeq (packets ++ [packet]) =
      helloFragments flowKey messageSeq packets ++
        (helloFragment flowKey messageSeq packet).toList := by
  rw [helloFragments, filterMap_append]
  rfl

theorem Unrepeated.init {packets : List Packet} {packet : Packet}
    (h : Unrepeated (packets ++ [packet])) : Unrepeated packets where
  length_eq := by
    intro flowKey messageSeq f hf g hg
    apply h.length_eq flowKey messageSeq
    · rw [helloFragments_snoc]
      exact mem_append_left _ hf
    · rw [helloFragments_snoc]
      exact mem_append_left _ hg
  once := by
    intro flowKey messageSeq ps qs hsplit hps hqs
    apply h.once flowKey messageSeq ps (qs ++ [packet]) _ hps
    · rw [helloFragments_snoc]
      exact hqs.mono (subset_append_left _ _)
    · rw [hsplit, append_assoc]

/-- What is true after each packet. -/
structure Told (c : Primitives) (packets : List Packet) : Prop where
  sized : (afterPackets c .new packets).Sized
  nodup : ((reports c .new packets).map Prod.fst).Nodup
  finished : ∀ key ∈ (reports c .new packets).map Prod.fst,
    (∀ flowKey messageSeq, key ≠ .dtls flowKey messageSeq) →
      Finished (afterPackets c .new packets) key
  /-- A DTLS hello has not been reported, or what is marked came after it was
  complete. -/
  dtls : ∀ flowKey messageSeq,
    (.dtls flowKey messageSeq ∉ (reports c .new packets).map Prod.fst ∧
      Marks (afterPackets c .new packets) flowKey messageSeq
        (helloFragments flowKey messageSeq packets)) ∨
    ∃ ps qs, packets = ps ++ qs ∧ Complete (helloFragments flowKey messageSeq ps) ∧
      Marks (afterPackets c .new packets) flowKey messageSeq (helloFragments flowKey messageSeq qs)

section Told

variable {c : Primitives} {packets : List Packet} {packet : Packet}

theorem told_nil (c : Primitives) : Told c [] where
  sized := Assembler.sized_new
  nodup := nodup_nil
  finished := by simp [reports]
  dtls := by
    intro flowKey messageSeq
    apply Or.inl
    apply And.intro (by simp [reports])
    intro length pending hlookup
    cases hlookup

/-- What the next packet reports has not been reported. -/
theorem Told.fresh (h : Told c packets) (hrun : Unrepeated (packets ++ [packet]))
    {key : ReportKey} {hello : Hello}
    (hreport : report c (afterPackets c .new packets) packet = some (key, hello)) :
    key ∉ (reports c .new packets).map Prod.fst := by
  by_cases hdtls : ∃ flowKey messageSeq, key = .dtls flowKey messageSeq
  · obtain ⟨flowKey, messageSeq, rfl⟩ := hdtls
    obtain ⟨hnot, -⟩ | ⟨ps, qs, hsplit, hps, hmarks⟩ := h.dtls flowKey messageSeq
    · exact hnot
    · obtain ⟨f, hf, hqs, -⟩ := hmarks.report h.sized hreport
      -- Both halves are complete, which is what the condition rules out.
      apply absurd _ (hrun.once flowKey messageSeq ps (qs ++ [packet]) _ hps)
      · rw [helloFragments_snoc, hf]
        exact hqs
      · rw [hsplit, append_assoc]
  · have hkey : ∀ flowKey messageSeq, key ≠ .dtls flowKey messageSeq := by
      intro flowKey messageSeq heq
      exact hdtls ⟨flowKey, messageSeq, heq⟩
    intro hmem
    exact (report_finishes hreport hkey).1 (h.finished key hmem hkey)

/-- **One packet.** -/
theorem Told.step (h : Told c packets) (hrun : Unrepeated (packets ++ [packet])) :
    Told c (packets ++ [packet]) where
  sized := by
    rw [afterPackets_append]
    exact sized_next h.sized
  nodup := by
    rw [reports_append]
    cases hreport : report c (afterPackets c .new packets) packet with
    | none => simpa using h.nodup
    | some x =>
      have hfresh := h.fresh hrun hreport
      rw [map_append]
      exact h.nodup.append (nodup_singleton _) (by simpa using hfresh)
  finished := by
    intro key hmem hkey
    rw [reports_append, map_append, mem_append] at hmem
    rw [afterPackets_append]
    rcases hmem with hold | hnew
    · exact (h.finished key hold hkey).next
    · cases hreport : report c (afterPackets c .new packets) packet with
      | none => simp [hreport] at hnew
      | some x =>
        obtain ⟨key', hello⟩ := x
        have heq : key = key' := by simpa [hreport] using hnew
        rw [heq] at hkey ⊢
        exact (report_finishes hreport hkey).2
  dtls := by
    intro flowKey messageSeq
    rw [afterPackets_append]
    obtain ⟨hnot, hmarks⟩ | ⟨ps, qs, hsplit, hps, hmarks⟩ := h.dtls flowKey messageSeq
    · have hnext := hmarks.next (c := c) h.sized packet
      by_cases hreport : ∃ hello,
          report c (afterPackets c .new packets) packet = some (.dtls flowKey messageSeq, hello)
      · obtain ⟨hello, hreport⟩ := hreport
        obtain ⟨f, hf, hcomplete, hgone⟩ := hmarks.report h.sized hreport
        have hall : helloFragments flowKey messageSeq (packets ++ [packet]) =
            helloFragments flowKey messageSeq packets ++ [f] := by
          rw [helloFragments_snoc, hf]
          rfl
        refine .inr ⟨packets ++ [packet], [], (append_nil _).symm, ?_, ?_⟩
        · rw [hall]
          exact hcomplete
        · rw [← helloFragments_snoc, hall] at hnext
          apply hnext.forgotten _ hgone
          intro g hg
          have hlength := hrun.length_eq flowKey messageSeq
          rw [hall] at hlength
          exact hlength g hg f (by simp)
      · refine .inl ⟨?_, ?_⟩
        · rw [reports_append, map_append, mem_append]
          rintro (hold | hnew)
          · exact hnot hold
          · obtain ⟨⟨key, hello⟩, hmem, rfl⟩ := mem_map.mp hnew
            exact hreport ⟨hello, Option.mem_toList.mp hmem⟩
        · rw [helloFragments_snoc]
          exact hnext
    · refine .inr ⟨ps, qs ++ [packet], by rw [hsplit, append_assoc], hps, ?_⟩
      rw [helloFragments_snoc]
      exact hmarks.next h.sized packet

/-- **All packets**, by induction on the capture from its end. -/
theorem told (c : Primitives) (packets : List Packet) (h : Unrepeated packets) :
    Told c packets := by
  induction packets using List.reverseRecOn with
  | nil => exact told_nil c
  | append_singleton packets packet ih => exact (ih h.init).step h

end Told

/-! ## Observations and verdicts -/

section Observations

variable {c : Primitives} {a : Assembler} {packet : Packet}

theorem report_of_hello {a' : Assembler} {hello : Hello}
    (h : Reading.assemble c a packet = .ok (some hello, a')) :
    ∃ key, report c a packet = some (key, hello) := by
  have hkey : ∃ key, packetKey c packet = some key := by
    obtain ⟨hnone, -⟩ | ⟨flowKey, _, _, _, _, _, rfl, -, -⟩ |
      ⟨flowKey, target, payload, rfl, hdtls, hskip, -⟩ | ⟨initial, found, hkey, -, -⟩ :=
        assemble_cases h
    · cases hnone
    · exact ⟨.tcp flowKey, rfl⟩
    · cases hparse : parseDTLSFragment payload with
      | error e =>
        rw [Assembler.assembleDTLS, hparse] at hskip
        cases e <;> cases hskip
      | ok f => simp [packetKey, hdtls, hparse, Except.toOption]
    · exact ⟨_, hkey⟩
  obtain ⟨key, hkey⟩ := hkey
  refine ⟨key, ?_⟩
  simp [report, h, hkey]

theorem observations_observe (s : Reading) (hello : Option Hello) (target : Bytes)
    (transport : TransportName) :
    ((s.observe hello target transport).observations.map Observation.hello) =
      s.observations.map Observation.hello ++ hello.toList := by
  cases hello with
  | none => simp [Reading.observe]
  | some hello => simp [Reading.observe]

theorem assembler_observe (s : Reading) (hello : Option Hello) (target : Bytes)
    (transport : TransportName) : (s.observe hello target transport).assembler = s.assembler := by
  cases hello with
  | none => rfl
  | some hello => rfl

theorem read_report (s : Reading) (h : s.assembler.Sized) (packet : Packet) :
    ∃ s', Reading.read c s packet = .ok s' ∧ s'.assembler = next c s.assembler packet ∧
      s'.observations.map Observation.hello = s.observations.map Observation.hello ++
        ((report c s.assembler packet).toList.map Prod.snd) := by
  obtain ⟨⟨hello, a'⟩, hcall⟩ := assemble_returns c h packet
  have hreport : (report c s.assembler packet).toList.map Prod.snd = hello.toList := by
    cases hello with
    | none => simp [report, hcall]
    | some hello =>
      obtain ⟨key, hreport⟩ := report_of_hello hcall
      rw [hreport]
      rfl
  rw [hreport, next_of_ok hcall, Reading.read, hcall]
  refine ⟨_, rfl, ?_⟩
  cases packet with
  | tcp flowKey reverse target syn sequence payload =>
    exact ⟨assembler_observe _ _ _ _, observations_observe _ _ _ _⟩
  | udp flowKey target payload =>
    have hcount : ∀ s' : Reading, (if payload = [] then s' else
        { s' with udpDatagrams := s'.udpDatagrams + 1 }).observations = s'.observations ∧
        (if payload = [] then s' else
          { s' with udpDatagrams := s'.udpDatagrams + 1 }).assembler = s'.assembler := by
      intro s'
      split <;> exact ⟨rfl, rfl⟩
    simp only [Reading.file]
    split
    · rw [assembler_observe, observations_observe, (hcount _).1, (hcount _).2]
      exact ⟨rfl, rfl⟩
    · rw [assembler_observe, observations_observe, (hcount _).1, (hcount _).2]
      exact ⟨rfl, rfl⟩
  | other =>
    cases hcall
    simp [Reading.file]

/-- **The observations are the reports.** -/
theorem read_reports (c : Primitives) (packets : List Packet) : ∀ s : Reading, s.assembler.Sized →
    ∃ s', packets.foldlM (Reading.read c) s = .ok s' ∧
      s'.observations.map Observation.hello =
        s.observations.map Observation.hello ++ (reports c s.assembler packets).map Prod.snd := by
  induction packets with
  | nil =>
    intro s _
    exact ⟨s, rfl, by simp [reports]⟩
  | cons packet packets ih =>
    intro s hsized
    obtain ⟨s₁, hread, hassembler, hobservations⟩ := read_report (c := c) s hsized packet
    obtain ⟨s₂, hrest, hall⟩ := ih s₁ (by rw [hassembler]; exact sized_next hsized)
    refine ⟨s₂, ?_, ?_⟩
    · rw [foldlM_cons, hread]
      exact hrest
    · rw [hall, hobservations, hassembler, reports, map_append, append_assoc]

theorem length_groupHellos (observations : List Observation) (sni : Bytes) (clientOnly : Bool) :
    ∀ g ∈ groupHellos observations sni clientOnly, g.hellos.length ≤ observations.length := by
  intro g hg
  obtain ⟨keys, -, -, hgroups⟩ := groupHellos_spec observations sni clientOnly
  rw [hgroups] at hg
  obtain ⟨key, -, rfl⟩ := mem_map.mp hg
  rw [groupOf, length_map]
  exact (length_filter_le _ _).trans (length_filter_le _ _)

theorem reports_subset (packets : List Packet) : ∀ (a : Assembler),
    ∀ key ∈ (reports c a packets).map Prod.fst, ∃ packet ∈ packets,
      packetKey c packet = some key := by
  induction packets with
  | nil => simp [reports]
  | cons packet packets ih =>
    intro a key hkey
    rw [reports, map_append, mem_append] at hkey
    rcases hkey with hfirst | hrest
    · obtain ⟨⟨key, hello⟩, hmem, rfl⟩ := mem_map.mp hfirst
      exact ⟨packet, by simp, (report_eq_some (Option.mem_toList.mp hmem)).1⟩
    · obtain ⟨packet', hmem, hkey⟩ := ih _ key hrest
      exact ⟨packet', mem_cons_of_mem _ hmem, hkey⟩

end Observations

/-- **Each hello once.** A capture in which no DTLS hello arrives completely twice
is read to its end; each hello is reported at most once; the observations are the
reports; and a capture of ONE hello gives no order verdict, however often its
packets were sent. -/
theorem reports_once (c : Primitives) (packets : List Packet) (h : Unrepeated packets) :
    ((reports c .new packets).map Prod.fst).Nodup ∧
    ∃ s, packets.foldlM (Reading.read c) .new = .ok s ∧
      s.observations.map Observation.hello = (reports c .new packets).map Prod.snd ∧
      ∀ key, (∀ packet ∈ packets, ∀ key', packetKey c packet = some key' → key' = key) →
        ∀ sni clientOnly, ∀ g ∈ groupHellos s.observations sni clientOnly, ∀ render,
          orderVerdict g.hellos render = .unknown := by
  have hnodup := (told c packets h).nodup
  apply And.intro hnodup
  obtain ⟨s, hread, hobservations⟩ := read_reports c packets .new Assembler.sized_new
  refine ⟨s, hread, hobservations, ?_⟩
  intro key hone sni clientOnly g hg render
  have hsub : (reports c .new packets).map Prod.fst ⊆ [key] := by
    intro key' hkey'
    obtain ⟨packet, hmem, hkey⟩ := reports_subset packets .new key' hkey'
    rw [hone packet hmem key' hkey]
    exact mem_singleton_self key
  have hreports : (reports c .new packets).length ≤ 1 := by
    have := (hnodup.subperm hsub).length_le
    rwa [length_map] at this
  have hcount : s.observations.length = (reports c .new packets).length := by
    have := congrArg List.length hobservations
    simpa [Reading.new] using this
  have hgroup := length_groupHellos s.observations sni clientOnly g hg
  exact if_pos (by omega)

/-- **Any capture is read to its end**, whatever bytes are in it, and each report is
filed once: the groups are those of the targets that were seen, and a group holds
its hellos as they were captured. -/
theorem capture_grouped (c : Primitives) (packets : List Packet) (sni : Bytes) (clientOnly : Bool) :
    ∃ (s : Reading) (keys : List (TransportName × Bytes)),
      packets.foldlM (Reading.read c) .new = .ok s ∧
      s.observations.map Observation.hello = (reports c .new packets).map Prod.snd ∧
      keys.Nodup ∧
      (∀ key, key ∈ keys ↔ ∃ o ∈ selected s.observations sni clientOnly, o.key = key) ∧
      groupHellos s.observations sni clientOnly =
        keys.map (groupOf (selected s.observations sni clientOnly)) := by
  obtain ⟨s, hread, hobservations⟩ := read_reports c packets .new Assembler.sized_new
  obtain ⟨keys, hgroups⟩ := groupHellos_spec s.observations sni clientOnly
  exact ⟨s, keys, hread, hobservations, hgroups⟩

/-! ### A hello of one message number -/

def piecePacket (p : Piece Assembler.dtlsClientHello) : Packet :=
  .udp (ascii "flow") (ascii "server") p.record

theorem helloFragments_pieces (flowKey : Bytes) (messageSeq : UInt16)
    (pieces : List (Piece Assembler.dtlsClientHello)) :
    helloFragments flowKey messageSeq (pieces.map piecePacket) =
      if flowKey = ascii "flow" ∧ messageSeq = 1 then pieces.map Piece.fragment else [] := by
  induction pieces with
  | nil => simp [helloFragments]
  | cons p pieces ih =>
    have hparse : parseDTLSFragment p.record = .ok p.fragment :=
      HelloMessage.parseDTLSFragment_fragmentRecord p.header p.inside
    rw [map_cons, helloFragments, filterMap_cons, ← helloFragments, ih]
    by_cases hkey : flowKey = ascii "flow" ∧ messageSeq = 1
    · obtain ⟨rfl, rfl⟩ := hkey
      have hfragment :=
        @helloFragment_udp (ascii "flow") (ascii "server") p.record p.fragment hparse rfl
      change helloFragment (ascii "flow") 1 (piecePacket p) = some p.fragment at hfragment
      simp [hfragment]
    · have hfragment : helloFragment flowKey messageSeq (piecePacket p) = none := by
        rw [piecePacket, helloFragment, hparse]
        apply Option.filter_eq_none_iff.mpr
        intro f hf hsame
        cases hf
        simp only [Bool.and_eq_true, decide_eq_true_eq] at hsame
        exact hkey ⟨hsame.1.1.symm, hsame.2.symm⟩
      simp [hfragment, hkey]

/-- The end of the hello arrives twice before its start. -/
def retransmittedEnd : List (Piece Assembler.dtlsClientHello) :=
  [Assembler.laterPiece, Assembler.laterPiece, Assembler.firstPiece]

theorem unrepeated_retransmittedEnd : Unrepeated (retransmittedEnd.map piecePacket) where
  length_eq := by
    intro flowKey messageSeq f hf g hg
    rw [helloFragments_pieces] at hf hg
    split at hf
    · obtain ⟨p, -, rfl⟩ := mem_map.mp hf
      rw [if_pos ‹_›] at hg
      obtain ⟨q, -, rfl⟩ := mem_map.mp hg
      rfl
    · cases hf
  once := by
    intro flowKey messageSeq ps qs hsplit hps hqs
    obtain ⟨pieces, rest, hpieces, rfl, rfl⟩ := map_eq_append_iff.mp hsplit
    rw [helloFragments_pieces] at hps hqs
    split at hps
    · rw [if_pos ‹_›] at hqs
      have hlength : pieces.length ≤ 3 := by
        have := congrArg List.length hpieces
        rw [length_append] at this
        have : retransmittedEnd.length = 3 := rfl
        omega
      have hall : ∀ n ≤ 3, ¬ (Complete ((retransmittedEnd.take n).map Piece.fragment) ∧
          Complete ((retransmittedEnd.drop n).map Piece.fragment)) := by decide +kernel
      apply hall pieces.length hlength
      rw [hpieces, take_left, drop_left]
      exact ⟨hps, hqs⟩
    · obtain ⟨f, hf, -⟩ := hps
      cases hf

theorem reports_once_retransmittedEnd :
    (reports plainPrimitives .new (retransmittedEnd.map piecePacket)).map Prod.fst =
      [.dtls (ascii "flow") 1] ∧
    ∃ s, (retransmittedEnd.map piecePacket).foldlM (Reading.read plainPrimitives) .new = .ok s ∧
      ∀ g ∈ groupHellos s.observations [] true,
        orderVerdict g.hellos extensionOrder = .unknown := by
  obtain ⟨-, s, hread, -, hunknown⟩ := reports_once plainPrimitives
    (retransmittedEnd.map piecePacket) unrepeated_retransmittedEnd
  refine ⟨by decide +kernel, s, hread, ?_⟩
  intro g hg
  apply hunknown (.dtls (ascii "flow") 1) _ [] true g hg
  decide +kernel

def wholeHello : Piece Assembler.dtlsClientHello := ⟨⟨0, 42, by decide⟩, .plain⟩

/-- **A retransmitted DTLS hello is reported again**, and a single handshake has
a stable extension order. -/
theorem dtls_hello_reported_twice :
    (reports plainPrimitives .new [piecePacket wholeHello, piecePacket wholeHello]).map Prod.fst =
      [.dtls (ascii "flow") 1, .dtls (ascii "flow") 1] ∧
    ([piecePacket wholeHello, piecePacket wholeHello].foldlM
        (Reading.read plainPrimitives) .new).map (fun s =>
      (groupHellos s.observations [] true).map fun g => orderVerdict g.hellos extensionOrder) =
      .ok [.stable] := by
  constructor
  · decide +kernel
  · rfl

end HeadlessClient.Wirediff
