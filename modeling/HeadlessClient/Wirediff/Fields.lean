import HeadlessClient.Capture.AssembleDTLS
import HeadlessClient.Capture.JA4

/-!
# Wirediff — the fields of a hello

`helloFields` of `stand/cmd/wirediff/main.go`: the seventeen lines in which two
hellos are compared, each a function from the hello to a text.

`dtls_fields_faithful_iff`: the fields of a DTLS hello that came in fragments are
those of the unfragmented record EXCEPT for the record version, which
`Reassemble` writes as DTLS 1.2 whatever the fragments carried.
-/

namespace HeadlessClient.Wirediff

open Base Wire Capture
open Http1 (decimal)

/-! ## Rendering -/

/-- `renderHex` of numbers that have been formatted. -/
def renderHex (parts : List Bytes) : Bytes := if parts = [] then ascii "-" else join parts " "

/-- `renderHex(values, 4)`. -/
def renderHex4 (values : List UInt16) : Bytes := renderHex (hexList values)

/-- `renderHex(values, 2)`. -/
def renderHex2 (values : List UInt8) : Bytes :=
  renderHex (values.map fun value => hexEncode [value])

def prefixedHex (value : UInt16) : Bytes := ascii "0x" ++ hex4 value

def ascending (values : List UInt16) : List UInt16 := values.insertionSort (· ≤ ·)

def extensionOrder (hello : Hello) : Bytes := renderHex4 (withoutGREASE hello.extensionTypes)

def cipherOrder (hello : Hello) : Bytes := renderHex4 (withoutGREASE hello.cipherSuites)

/-- The loop of `renderKeyShare` over the groups from index `i` on. -/
def keyShareParts (lengths : List Nat) : List UInt16 → Nat → Except RuntimeError (List Bytes)
  | [], _ => .ok []
  | group :: groups, i =>
    if isGREASE group then keyShareParts lengths groups (i + 1)
    else do
      let length ← index id lengths i
      let parts ← keyShareParts lengths groups (i + 1)
      .ok ((hex4 group ++ ascii "/" ++ decimal length) :: parts)

def renderKeyShare (hello : Hello) : Except RuntimeError Bytes := do
  let parts ← keyShareParts hello.keyShareLengths hello.keyShareGroups 0
  .ok (renderHex parts)

def renderALPN (hello : Hello) : Bytes :=
  if hello.alpn = [] then ascii "-" else join hello.alpn " "

/-! ## The fields -/

structure HelloField where
  name : Bytes
  render : Hello → Except RuntimeError Bytes

/-- A field whose text needs no index. -/
def HelloField.total (name : String) (render : Hello → Bytes) : HelloField :=
  ⟨ascii name, fun hello => .ok (render hello)⟩

def cipherOrderField : HelloField := .total "cipher order" cipherOrder

def extensionOrderField : HelloField := .total "extension order" extensionOrder

/-- `orderFields`: both render without an error. -/
def orderFields : List (Bytes × (Hello → Bytes)) :=
  [(extensionOrderField.name, extensionOrder), (cipherOrderField.name, cipherOrder)]

def recordVersionField : HelloField :=
  .total "record version" fun hello => prefixedHex hello.recordVersion

section Digest

variable (sha256 : Bytes → Bytes)

def helloFields : List HelloField :=
  [⟨ascii "ja4", Hello.ja4 sha256⟩, recordVersionField,
    .total "hello version" fun hello => prefixedHex hello.helloVersion,
    .total "session id len" fun hello => decimal hello.sessionIDLen,
    .total "cipher count" fun hello => decimal hello.cipherSuites.length,
    cipherOrderField,
    .total "extension count" fun hello => decimal hello.extensions.length,
    .total "extension set" fun hello =>
      renderHex4 (ascending (withoutGREASE hello.extensionTypes)),
    extensionOrderField,
    .total "supported versions" fun hello => renderHex4 (withoutGREASE hello.supportedVersions),
    .total "supported groups" fun hello => renderHex4 (withoutGREASE hello.supportedGroups),
    ⟨ascii "key share", renderKeyShare⟩,
    .total "signature algorithms" fun hello => renderHex4 hello.signatureAlgorithms,
    .total "alpn" renderALPN,
    .total "point formats" fun hello => renderHex2 hello.pointFormats,
    .total "compression" fun hello => renderHex2 hello.compressionMethods,
    .total "use srtp" fun hello => renderHex4 hello.useSRTPProfiles]

/-! ## What a change of the record version shows -/

theorem hex4_injective {v w : UInt16} (h : hex4 v = hex4 w) : v = w := by
  have hbytes : putUint 2 v.toNat = putUint 2 w.toNat := hexEncode_injective h
  have hvalue := congrArg uint16 hbytes
  rwa [uint16_putUint, uint16_putUint] at hvalue

theorem prefixedHex_injective {v w : UInt16} (h : prefixedHex v = prefixedHex w) : v = w :=
  hex4_injective (List.append_cancel_left h)

theorem render_relabel {field : HelloField} (hfield : field ∈ helloFields sha256)
    (hne : field ≠ recordVersionField) (version : UInt16) (raw : Bytes) (hello : Hello) :
    field.render (hello.relabel version raw) = field.render hello := by
  simp only [helloFields, List.mem_cons, List.not_mem_nil, or_false] at hfield
  rcases hfield with h | h | h | h | h | h | h | h | h | h | h | h | h | h | h | h | h
  case inr.inl => exact absurd h hne
  all_goals
    subst h
    rfl

/-- **A relabelled hello shows the same fields iff its version was right.** -/
theorem renders_alike_iff (version : UInt16) (raw : Bytes) (hello : Hello) :
    (∀ field ∈ helloFields sha256, field.render (hello.relabel version raw) = field.render hello) ↔
      hello.recordVersion = version := by
  constructor
  · intro h
    have hversion := h recordVersionField (by simp [helloFields])
    exact (prefixedHex_injective (Except.ok.inj hversion)).symm
  · rintro rfl field hfield
    by_cases hne : field = recordVersionField
    · subst hne
      rfl
    · exact render_relabel sha256 hfield hne _ raw hello

/-! ## DTLS hellos in fragments -/

theorem recordVersion_parseHello {m : HelloMessage} {header : DTLSHeader} {hello : Hello}
    (h : parseHello (m.record header) = .ok hello) : hello.recordVersion = header.version := by
  have hsame : parseHello (m.record header) =
      (parseHello (m.record header)).map (Hello.relabel header.version (m.record header)) :=
    @parseHello_reheader (header.framing m.messageSeq) (header.framing m.messageSeq) rfl
      (m.putFragment 0 m.body.length).length (m.putFragment 0 m.body.length).length
      (m.putFragment 0 m.body.length)
  rw [h] at hsame
  exact congrArg Hello.recordVersion (Except.ok.inj hsame)

/-- **What wirediff prints of a DTLS hello is what was on the wire iff the record
version was DTLS 1.2.** The hello arrived in pieces, in any order, between any
other packets, in records of one version; `direct` is read from the unfragmented
record of that version. -/
theorem dtls_fields_faithful_iff (c : Primitives) (earlier : List Assembler.Call)
    (flowKey : Bytes) (m : HelloMessage)
    (hfresh : (Assembler.new.after c earlier).dtlsFrags.lookup (Assembler.keyOf flowKey m) = none)
    (events : List (Event (Piece m) (Assembler.Apart flowKey m))) (p : Piece m)
    (hmissing : ¬ m.Covered (arrived events)) (hcovered : m.Covered (arrived events ++ [p]))
    (header : DTLSHeader)
    (hversion : ∀ q ∈ arrived events ++ [p], q.header.version = header.version)
    (direct : Hello) (hdirect : parseHello (m.record header) = .ok direct) :
    ∃ hello,
      (((Assembler.new.after c earlier).after c
        (events.map (Event.call (Assembler.pieceCall flowKey)))).assembleDTLS
          flowKey p.record).1 = .ok (some hello) ∧
      ((∀ field ∈ helloFields sha256, field.render hello = field.render direct) ↔
        p.header.version = versionDTLS12) := by
  have hresult :=
    (((Assembler.collected_fresh hfresh).after c events hmissing).complete hcovered).1
  rw [m.parseHello_record header, hdirect] at hresult
  refine ⟨direct.relabel versionDTLS12 (m.record .plain), hresult, ?_⟩
  rw [renders_alike_iff, recordVersion_parseHello hdirect, hversion p (by simp)]

end Digest

/-! ### A ClientHello in two pieces, and one in a DTLS 1.0 record -/

/-- The start of the message, which arrives behind its end. -/
def startPiece : Piece Assembler.dtlsClientHello := { Assembler.firstPiece with header := .plain }

theorem dtls_fields_faithful_out_of_order :
    ∃ direct hello, parseHello (Assembler.dtlsClientHello.record .plain) = .ok direct ∧
      ((Assembler.new.after plainPrimitives (Assembler.laterEvents.map
        (Event.call (Assembler.pieceCall (ascii "flow"))))).assembleDTLS (ascii "flow")
          startPiece.record).1 = .ok (some hello) ∧
      ∀ field ∈ helloFields (fun _ => List.replicate 32 0),
        field.render hello = field.render direct := by
  have hparses : (parseHello (Assembler.dtlsClientHello.record .plain)).toOption.isSome = true := by
    decide +kernel
  have hversion : ∀ q ∈ arrived Assembler.laterEvents ++ [startPiece],
      q.header.version = DTLSHeader.plain.version := by
    decide
  cases hdirect : parseHello (Assembler.dtlsClientHello.record .plain) with
  | error e =>
    rw [hdirect] at hparses
    cases hparses
  | ok direct =>
    obtain ⟨hello, hresult, hiff⟩ := dtls_fields_faithful_iff (fun _ => List.replicate 32 0)
      plainPrimitives [] (ascii "flow") Assembler.dtlsClientHello rfl Assembler.laterEvents
      startPiece (by decide +kernel) (by decide +kernel) .plain hversion direct hdirect
    exact ⟨direct, hello, rfl, hresult, hiff.mpr rfl⟩

/-- The DTLS 1.0 header that a client writes before a version is agreed on. -/
def dtls10Header : DTLSHeader :=
  ⟨versionDTLS10, [0, 0, 0, 0, 0, 0, 0, 3], isDTLSVersion_dtls10, rfl⟩

/-- All of the message, in a record with the header. -/
def wholePiece (header : DTLSHeader) : Piece Assembler.dtlsClientHello :=
  ⟨⟨0, Assembler.dtlsClientHello.body.length, by simp⟩, header⟩

/-- A DTLS 1.0 record is shown as a DTLS 1.2 record. -/
theorem dtls10_record_version_lost :
    (Assembler.new.assembleDTLS (ascii "flow") (wholePiece dtls10Header).record).1.toOption.map
        (Option.map recordVersionField.render) = some (some (.ok (ascii "0xfefd"))) ∧
      (parseHello (Assembler.dtlsClientHello.record dtls10Header)).toOption.map
        recordVersionField.render = some (.ok (ascii "0xfeff")) := by
  decide +kernel

end HeadlessClient.Wirediff
