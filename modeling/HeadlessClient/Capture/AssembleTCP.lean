import HeadlessClient.Capture.Assembler
import HeadlessClient.Capture.HelloFormat
import Mathlib.Data.List.Induction

/-!
# Capture — a hello out of TCP payloads

A ClientHello cut into payloads is reported by the call that completes it —
EXCEPT when a cut falls where the extension block begins. What has arrived then
parses as a hello without extensions (`HelloRecord.parseHello_without_block`):
it is reported at once, and the flow is done.
-/

namespace HeadlessClient.Capture

open Base Wire List

namespace Assembler

/-- `AssembleTCP` on one payload after another, with all results. -/
def feedTCP (flowKey : Bytes) : Assembler → List Bytes →
    Except WireError (List (Option Hello) × Assembler)
  | a, [] => .ok ([], a)
  | a, payload :: payloads => do
      let (hello, a) ← a.assembleTCP flowKey payload
      let (hellos, a) ← feedTCP flowKey a payloads
      .ok (hello :: hellos, a)

variable {flowKey body payload rest : Bytes} {a : Assembler}

theorem feedTCP_append (ps : List Bytes) : ∀ {a a' : Assembler}
    {rs : List (Option Hello)} (qs : List Bytes), feedTCP flowKey a ps = .ok (rs, a') →
      feedTCP flowKey a (ps ++ qs) = (feedTCP flowKey a' qs >>= fun x => .ok (rs ++ x.1, x.2)) := by
  induction ps with
  | nil =>
    intro a a' rs qs h
    cases h
    rw [nil_append]
    cases feedTCP flowKey a qs <;> rfl
  | cons p ps ih =>
    intro a a' rs qs h
    obtain ⟨hello, a₁, hcall, h⟩ := step_ok h
    obtain ⟨hellos, a₂, hrest, h⟩ := step_ok h
    cases h
    rw [cons_append, feedTCP, hcall, ok_bind]
    dsimp only
    rw [ih qs hrest]
    cases feedTCP flowKey a' qs <;> rfl

/-! ## One call -/

/-- The flow has been fed `body` and nothing has been reported. -/
def Fed (a : Assembler) (flowKey body : Bytes) : Prop :=
  if body = [] then a.tcpFlows.lookup flowKey = none
  else a.tcpFlows.lookup flowKey = some ⟨body, false⟩

variable (h : a.Fed flowKey body) (hrecord : body ++ payload = contentTypeHandshake :: rest)
  (hsize : (body ++ payload).length ≤ maxFlowBuffer)
include h hrecord hsize

theorem assembleTCP_fed :
    a.assembleTCP flowKey payload = (do
      let hello ← dropError (parseHello (body ++ payload))
      .ok (hello, { a with
        tcpFlows := a.tcpFlows.insert flowKey ⟨body ++ payload, hello.isSome⟩ })) := by
  unfold Fed at h
  by_cases hbody : body = []
  · subst hbody
    rw [if_pos rfl] at h
    rw [nil_append] at hrecord hsize
    rw [assembleTCP, h]
    dsimp only
    have hfirst : index WireError.panic payload 0 = .ok contentTypeHandshake := by
      rw [hrecord]
      rfl
    rw [hfirst, ok_bind, if_neg (not_not_intro rfl)]
    exact if_neg (Nat.not_lt.mpr hsize)
  · rw [if_neg hbody] at h
    rw [assembleTCP, h]
    exact if_neg (Nat.not_lt.mpr hsize)

/-- What is truncated so far is kept. -/
theorem assembleTCP_truncated (hparse : parseHello (body ++ payload) = .error .truncated) :
    ∃ a', a.assembleTCP flowKey payload = .ok (none, a') ∧ a'.Fed flowKey (body ++ payload) := by
  refine ⟨{ a with tcpFlows := a.tcpFlows.insert flowKey ⟨body ++ payload, false⟩ }, ?_, ?_⟩
  · rw [assembleTCP_fed h hrecord hsize, hparse]
    rfl
  · unfold Fed
    rw [if_neg (by rw [hrecord]; exact cons_ne_nil _ _)]
    exact AList.lookup_insert _

/-- What is a hello so far is reported. -/
theorem assembleTCP_hello {hello : Hello} (hparse : parseHello (body ++ payload) = .ok hello) :
    ∃ a', a.assembleTCP flowKey payload = .ok (some hello, a') := by
  rw [assembleTCP_fed h hrecord hsize, hparse]
  exact ⟨_, rfl⟩

end Assembler

/-! ## A record in payloads -/

namespace HelloRecord

variable {h : HelloRecord} {flowKey : Bytes}

theorem encode_cons (h : HelloRecord) : ∃ rest, h.encode = contentTypeHandshake :: rest := ⟨_, rfl⟩

theorem part_cons {part missing : Bytes} (hcut : part ++ missing = h.encode) (hne : part ≠ []) :
    ∃ rest, part = contentTypeHandshake :: rest := by
  obtain ⟨rest, hrest⟩ := h.encode_cons
  rw [hrest] at hcut
  cases part with
  | nil => exact absurd rfl hne
  | cons b part =>
    rw [cons_append, List.cons.injEq] at hcut
    exact ⟨part, by rw [hcut.1]⟩

/-- Payloads that do not complete the record, with no cut where the extension
block begins, are kept without a result. -/
theorem feedTCP_part (htls : h.framing.isDTLS = false) (hsize : h.encode.length ≤ 65536)
    {a : Assembler} (hfresh : a.tcpFlows.lookup flowKey = none) (ps : List Bytes) :
    ∀ {missing : Bytes}, ps.flatten ++ missing = h.encode → missing ≠ [] →
      (∀ p ∈ ps, p ≠ []) → (∀ k ≤ ps.length, (ps.take k).flatten.length ≠ h.blockOffset) →
        ∃ a', Assembler.feedTCP flowKey a ps = .ok (List.replicate ps.length none, a') ∧
          a'.Fed flowKey ps.flatten := by
  induction ps using List.reverseRecOn with
  | nil =>
    intro missing _ _ _ _
    exact ⟨a, rfl, hfresh⟩
  | append_singleton ps p ih =>
    intro missing hcut hmissing hne hoffset
    have hp : p ≠ [] := hne p (by simp)
    rw [flatten_append, flatten_singleton] at hcut
    obtain ⟨a', hfeed, hfed⟩ := ih (by rw [← hcut, append_assoc])
      (by simp [hp]) (fun q hq => hne q (mem_append_left _ hq)) (by
        intro k hk
        have := hoffset k (by rw [length_append]; omega)
        rwa [take_append_of_le_length hk] at this)
    have hhere := hoffset (ps ++ [p]).length (Nat.le_refl _)
    rw [take_length, flatten_append, flatten_singleton] at hhere
    obtain ⟨rest, hrest⟩ := part_cons hcut (by simp [hp])
    have hpart : (ps.flatten ++ p) <+: h.encode := ⟨_, hcut⟩
    obtain ⟨a'', hcall, hfed'⟩ := Assembler.assembleTCP_truncated hfed hrest
      (hpart.length_le.trans hsize)
      (h.parseHello_cut htls (bodyLength_lt hsize) hcut hmissing hhere)
    refine ⟨a'', ?_, by rwa [flatten_append, flatten_singleton]⟩
    rw [Assembler.feedTCP_append ps [p] hfeed, Assembler.feedTCP, hcall, ok_bind]
    simp [Assembler.feedTCP, replicate_succ']

theorem blockOffset_pos (h : HelloRecord) : 0 < h.blockOffset := by
  rw [blockOffset, length_append]
  exact Nat.add_pos_left (Nat.succ_pos _) _

theorem encode_ne_nil (h : HelloRecord) : h.encode ≠ [] := cons_ne_nil _ _

theorem part_eq_of_length {part missing : Bytes} (hcut : part ++ missing = h.encode)
    (hlen : part.length = h.blockOffset) : part = h.header ++ h.head := by
  have hsplit : h.encode = (h.header ++ h.head) ++ h.block := by
    rw [encode, append_assoc]
  rw [hsplit] at hcut
  exact (append_inj hcut hlen).1

/-- The flow is done too early when a cut falls where the block begins. -/
theorem feedTCP_early (htls : h.framing.isDTLS = false) (hsize : h.encode.length ≤ 65536)
    {a : Assembler} (hfresh : a.tcpFlows.lookup flowKey = none) {ps : List Bytes} {q : Bytes}
    {rest : List Bytes} (hjoin : (ps ++ q :: rest).flatten = h.encode)
    (hne : ∀ p ∈ ps ++ q :: rest, p ≠ [])
    (hoffset : ∀ k ≤ ps.length, (ps.take k).flatten.length ≠ h.blockOffset)
    (hcut : (ps ++ [q]).flatten.length = h.blockOffset) {rs : List (Option Hello)} {a' : Assembler}
    (hfeed : Assembler.feedTCP flowKey a (ps ++ q :: rest) = .ok (rs, a')) :
    ∃ hello, rs[ps.length]? = some (some hello) := by
  have hq : q ≠ [] := hne q (by simp)
  rw [flatten_append, flatten_cons, ← append_assoc] at hjoin
  rw [flatten_append, flatten_singleton] at hcut
  obtain ⟨a₁, hpart, hfed⟩ := feedTCP_part htls hsize hfresh ps
    (by rw [← append_assoc]; exact hjoin) (by simp [hq])
    (fun p hp => hne p (mem_append_left _ hp)) hoffset
  obtain ⟨tail, htail⟩ := part_cons hjoin (by simp [hq])
  have hbegin : (ps.flatten ++ q) <+: h.encode := ⟨_, hjoin⟩
  have hparse := h.parseHello_without_block hsize
  rw [← part_eq_of_length hjoin hcut] at hparse
  obtain ⟨a₂, hcall⟩ := Assembler.assembleTCP_hello hfed htail
    (hbegin.length_le.trans hsize) hparse
  rw [Assembler.feedTCP_append ps (q :: rest) hpart, Assembler.feedTCP, hcall, ok_bind] at hfeed
  obtain ⟨rs', a₃, hrest, heq⟩ := step_ok hfeed
  obtain ⟨rs'', a₄, -, hrest⟩ := step_ok hrest
  cases hrest
  cases heq
  refine ⟨headReport h.framing h.fields (ps.flatten ++ q), ?_⟩
  rw [getElem?_append_right (by rw [length_replicate]), length_replicate,
    Nat.sub_self]
  rfl

/-- **One hello, with the last payload**: this is what the calls return iff no
payload ends where the extension block begins. -/
theorem assembleTCP_once_iff (h : HelloRecord) (htls : h.framing.isDTLS = false)
    (hsize : h.encode.length ≤ 65536) {a : Assembler} {flowKey : Bytes}
    (hfresh : a.tcpFlows.lookup flowKey = none) {payloads : List Bytes}
    (hne : ∀ p ∈ payloads, p ≠ []) (hjoin : payloads.flatten = h.encode) :
    (∃ hello a', parseHello h.encode = .ok hello ∧
        Assembler.feedTCP flowKey a payloads =
          .ok (List.replicate (payloads.length - 1) none ++ [some hello], a')) ↔
      ∀ k < payloads.length, (payloads.take k).flatten.length ≠ h.blockOffset := by
  constructor
  · rintro ⟨hello, a', -, hfeed⟩
    by_contra hsome
    -- the first payload that ends there
    have hexists : ∃ k, k < payloads.length ∧
        (payloads.take k).flatten.length = h.blockOffset := by
      by_contra hnone
      exact hsome fun k hk heq => hnone ⟨k, hk, heq⟩
    classical
    obtain ⟨hlt, hcut⟩ := Nat.find_spec hexists
    have hmin : ∀ j < Nat.find hexists, (payloads.take j).flatten.length ≠ h.blockOffset :=
      fun j hj heq => Nat.find_min hexists hj ⟨hj.trans hlt, heq⟩
    obtain ⟨k, hk⟩ : ∃ k, Nat.find hexists = k + 1 := by
      refine ⟨Nat.find hexists - 1, ?_⟩
      have : Nat.find hexists ≠ 0 := by
        intro hzero
        rw [hzero] at hcut
        exact absurd hcut h.blockOffset_pos.ne
      omega
    rw [hk] at hlt hcut hmin
    have hget : k < payloads.length := by omega
    have htake : payloads.take (k + 1) = payloads.take k ++ [payloads[k]] :=
      take_succ_eq_append_getElem hget
    have hsplit : payloads = payloads.take k ++ payloads[k] :: payloads.drop (k + 1) := by
      rw [← drop_eq_getElem_cons hget, take_append_drop]
    have hklen : (payloads.take k).length = k := by
      rw [length_take]
      omega
    obtain ⟨hello', hearly⟩ := feedTCP_early htls hsize hfresh (by rw [← hsplit]; exact hjoin)
      (by rw [← hsplit]; exact hne) (by
        intro j hj
        rw [hklen] at hj
        rw [take_take, Nat.min_eq_left hj]
        exact hmin j (by omega)) (by rw [← htake]; exact hcut) (by rw [← hsplit]; exact hfeed)
    rw [hklen, getElem?_append_left (by rw [length_replicate]; omega),
      getElem?_replicate, if_pos (by omega)] at hearly
    cases hearly
  · intro hoffset
    have hpayloads : payloads ≠ [] := by
      intro hnil
      rw [hnil] at hjoin
      exact h.encode_ne_nil hjoin.symm
    obtain ⟨ps, p, rfl⟩ : ∃ ps p, payloads = ps ++ [p] :=
      ⟨_, _, (dropLast_concat_getLast hpayloads).symm⟩
    have hp : p ≠ [] := hne p (by simp)
    rw [flatten_append, flatten_singleton] at hjoin
    obtain ⟨a₁, hfeed, hfed⟩ := feedTCP_part htls hsize hfresh ps hjoin hp
      (fun q hq => hne q (mem_append_left _ hq)) (by
        intro k hk
        have := hoffset k (by rw [length_append, length_singleton]; omega)
        rwa [take_append_of_le_length hk] at this)
    obtain ⟨hello, hadd⟩ := addAll_returns (h.extensions.getD [])
      (headReport h.framing h.fields h.encode) (h.blockOffset + 2)
    have hparse := (h.parseHello_encode (bodyLength_lt hsize)).trans hadd
    obtain ⟨rest, hrest⟩ := h.encode_cons
    obtain ⟨a₂, hcall⟩ := Assembler.assembleTCP_hello hfed (hjoin.trans hrest)
      (by rw [hjoin]; exact hsize) (by rw [hjoin]; exact hparse)
    refine ⟨hello, a₂, hparse, ?_⟩
    rw [Assembler.feedTCP_append ps [p] hfeed, Assembler.feedTCP, hcall, ok_bind]
    simp [Assembler.feedTCP]

end HelloRecord

/-! ## A hello in two payloads -/

def tlsClientHello : HelloRecord where
  framing := .tls 0x0301 isDTLSVersion_tls10
  fields := .minimal 0x1301
  extensions := some [⟨0x0017, [], by decide⟩]
  fits := by
    intro es hes
    cases hes
    decide

/-- The record, cut after its first `n` bytes. -/
def tlsClientHelloCut (n : Nat) : List Bytes :=
  [tlsClientHello.encode.take n, tlsClientHello.encode.drop n]

theorem tlsClientHello_cut_inside : ∃ hello a', parseHello tlsClientHello.encode = .ok hello ∧
    Assembler.feedTCP (ascii "flow") .new (tlsClientHelloCut 20) = .ok ([none, some hello], a') :=
  (tlsClientHello.assembleTCP_once_iff rfl (by decide +kernel) rfl (by decide +kernel)
    (by decide +kernel)).mpr (by decide +kernel)

/-- The first payload is reported as a hello WITHOUT extensions, and the second
one is not looked at. -/
theorem tlsClientHello_cut_before_block :
    tlsClientHello.blockOffset = 51 ∧ (tlsClientHelloCut 51).flatten = tlsClientHello.encode ∧
      (parseHello tlsClientHello.encode).toOption.map (fun hello => hello.extensions) =
        some [⟨0x0017, 0, 53⟩] ∧
      (Assembler.feedTCP (ascii "flow") .new (tlsClientHelloCut 51)).toOption.map
          (fun r => r.1.map (Option.map fun hello => hello.extensions)) =
        some [some [], none] := by
  decide +kernel

end HeadlessClient.Capture
