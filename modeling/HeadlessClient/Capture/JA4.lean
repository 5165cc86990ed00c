import HeadlessClient.Capture.Hello
import HeadlessClient.Http1.Request

/-!
# Capture — the JA4 fingerprint

`JA4` of `stand/internal/wire/ja4.go` and the GREASE test of `ja3.go`.

The one partial operation is the ALPN code: it takes the first and the last byte
of the first protocol WITHOUT looking whether there is one, so the fingerprint
is an `Except`. The digest is a parameter.
-/

namespace HeadlessClient.Capture

open Base Wire
open Http1 (decimal)

def isGREASE (value : UInt16) : Bool :=
  (value &&& 0x0f0f) == 0x0a0a && (value >>> 8) == (value &&& 0xff)

def withoutGREASE (values : List UInt16) : List UInt16 := values.filter fun value => !isGREASE value

namespace Hello

def isDTLS (h : Hello) : Bool := h.kind == .dtlsClient || h.kind == .dtlsServer

def extensionTypes (h : Hello) : List UInt16 := h.extensions.map fun extension => extension.type

end Hello

/-! ## Texts -/

/-- `strings.Join`. -/
def join (parts : List Bytes) (sep : String) : Bytes := List.intercalate (ascii sep) parts

/-- `fmt.Sprintf("%04x", value)`. -/
def hex4 (value : UInt16) : Bytes := hexEncode (putUint 2 value.toNat)

def hexList (values : List UInt16) : List Bytes := values.map hex4

/-- `sort.Strings`. Equal strings cannot be told apart, so the order it leaves is
the only sorted one. -/
def sortStrings (strings : List Bytes) : List Bytes := strings.insertionSort (· ≤ ·)

/-- `string(b)` of a byte: the UTF-8 text of the code point `b`. -/
def runeText (b : UInt8) : Bytes :=
  if b < 0x80 then [b] else [(0xc0 : UInt8) ||| (b >>> 6), (0x80 : UInt8) ||| (b &&& 0x3f)]

/-- `fmt.Sprintf("%02d", n)` of a number below 100. -/
def decimal2 (n : Nat) : Bytes := if n < 10 then ascii "0" ++ decimal n else decimal n

/-! ## The fingerprint -/

def ja4Versions : List (UInt16 × String) :=
  [(0x0304, "13"), (0x0303, "12"), (0x0302, "11"), (0x0301, "10")]

/-- The highest version that the hello speaks of. -/
def ja4Version (h : Hello) : UInt16 :=
  h.supportedVersions.foldl (fun version offered =>
    if !isGREASE offered && offered > version then offered else version) h.helloVersion

def ja4ALPN (alpn : List Bytes) : Except RuntimeError Bytes :=
  match alpn with
  | [] => .ok (ascii "00")
  | first :: _ => do
      let head ← index id first 0
      -- `len(first)-1` of an empty name is -1: the index above has failed by then
      let last ← index id first (first.length - 1)
      .ok (runeText head ++ runeText last)

section Digest

variable (sha256 : Bytes → Bytes)

/-- `ja4Hash`; the digest has 32 bytes, so its text has the 12 that are taken. -/
def ja4Hash (value : Bytes) : Bytes :=
  if value = [] ∨ value = ascii "_" then List.replicate 12 48
  else (hexEncode (sha256 value)).take 12

def Hello.ja4 (h : Hello) : Except RuntimeError Bytes :=
  if h.isDTLS then .ok []
  else do
    let transport := if h.quicTransportParams.length > 0 then ascii "q" else ascii "t"
    let versionCode := ascii ((ja4Versions.lookup (ja4Version h)).getD "00")
    let serverNameCode := if h.serverName ≠ [] then ascii "d" else ascii "i"
    let alpnCode ← ja4ALPN h.alpn
    let suites := sortStrings (hexList (withoutGREASE h.cipherSuites))
    let extensions := hexList (withoutGREASE h.extensionTypes)
    let hashed := sortStrings (extensions.filter fun extension =>
      !(extension = ascii "0000" || extension = ascii "0010"))
    let signatures := hexList h.signatureAlgorithms
    .ok (transport ++ versionCode ++ serverNameCode ++
      decimal2 (min suites.length 99) ++ decimal2 (min extensions.length 99) ++ alpnCode ++
      ascii "_" ++ ja4Hash sha256 (join suites ",") ++
      ascii "_" ++ ja4Hash sha256 (join hashed "," ++ ascii "_" ++ join signatures ","))

end Digest

end HeadlessClient.Capture
