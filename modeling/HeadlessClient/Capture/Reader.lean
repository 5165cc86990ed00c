import HeadlessClient.Base.Runtime
import HeadlessClient.Base.Bytes

/-!
# Capture — the byte reader

`byteReader` of the capture tool (`stand/internal/wire`): a buffer and a
position. Its errors all wrap `ErrTruncated`.

`Reads p bs a` says what a reading function does on its own encoding: whenever
the unread part starts with `bs`, `p` returns `a` and stops right after `bs`.
The relation composes (`Reads.bind`), so a parser is shown correct in the order
it reads.
-/

namespace HeadlessClient.Capture

open Base List

def maxReasonableHelloLength : Nat := 1 <<< 16

/-- The sentinel errors of package `wire` that the modelled functions return, the
errors of the libraries they call, and the panics of the run time. -/
inductive WireError where
  | truncated
  | notHandshake
  | notHello
  | fragmented
  | notQUICInitial
  | quicVersion (version : Nat)
  | quicUnprotected
  /-- The AEAD rejects the packet. -/
  | openFailed
  | panic (e : RuntimeError)
deriving DecidableEq, Repr

structure ByteReader where
  buf : Bytes
  pos : Nat
deriving DecidableEq, Repr

namespace ByteReader

def rest (r : ByteReader) : Bytes := r.buf.drop r.pos

def remaining (r : ByteReader) : Nat := r.buf.length - r.pos

theorem remaining_eq (r : ByteReader) : r.remaining = r.rest.length := by
  simp [remaining, rest]

def u8 (r : ByteReader) : Except WireError (UInt8 × ByteReader) :=
  if r.remaining < 1 then .error .truncated
  else .ok (r.buf.getD r.pos 0, { r with pos := r.pos + 1 })

def bytes (n : Nat) (r : ByteReader) : Except WireError (Bytes × ByteReader) :=
  if maxReasonableHelloLength < n ∨ r.remaining < n then .error .truncated
  else .ok ((r.buf.drop r.pos).take n, { r with pos := r.pos + n })

end ByteReader

/-- A reading function of the tool: a value and the advanced reader, or an error. -/
abbrev Reader (α : Type) := ByteReader → Except WireError (α × ByteReader)

/-- `p` reads `bs` as `a`: on any reader whose unread part starts with `bs` it
returns `a` and leaves exactly what follows `bs` unread. -/
def Reads {α : Type} (p : Reader α) (bs : Bytes) (a : α) : Prop :=
  ∀ (r : ByteReader) (t : Bytes), r.rest = bs ++ t →
    ∃ r', p r = .ok (a, r') ∧ r'.rest = t

/-! ## Progress -/

/-- A reading function never moves backwards. -/
def Advances {α : Type} (p : Reader α) : Prop :=
  ∀ r a r', p r = .ok (a, r') → r'.remaining ≤ r.remaining

end HeadlessClient.Capture
