import HeadlessClient.Wire.Lines
import Mathlib.Data.List.TakeWhile

/-!
# Wire — delimiting a message body

How a recipient finds the end of an HTTP/1.1 message (RFC 9112, section 6): from
the `Transfer-Encoding` and `Content-Length` lines of its head, by chunks, by a
number of bytes, or by the end of the connection. Where the RFC leaves a
recipient the choice to reject a message (both fields, a repeated or malformed
length), it is rejected here: such a message is not one every recipient
delimits.

A complete body stays delimited in the same place whatever follows it
(`readBody_append`).
-/

namespace HeadlessClient.Wire

open Base List

/-! ## Fields -/

def lower (text : Bytes) : Bytes := text.map fun c => if 65 ≤ c && c ≤ 90 then c + 32 else c

def isBlank (c : UInt8) : Bool := c == 32 || c == 9

def trim (text : Bytes) : Bytes := ((text.dropWhile isBlank).reverse.dropWhile isBlank).reverse

def splitField (line : Bytes) : Option (Bytes × Bytes) :=
  if (58 : UInt8) ∈ line then
    some (line.takeWhile (· != 58), trim ((line.dropWhile (· != 58)).drop 1))
  else none

def fieldValues (name : Bytes) (lines : List Bytes) : List Bytes :=
  lines.filterMap fun line => (splitField line).bind fun (n, value) =>
    if lower n = name then some value else none

/-- The value of a digit in base 16. -/
def digit (c : UInt8) : Option Nat :=
  if 48 ≤ c && c ≤ 57 then some (c.toNat - 48)
  else if 97 ≤ c && c ≤ 102 then some (c.toNat - 87)
  else if 65 ≤ c && c ≤ 70 then some (c.toNat - 55)
  else none

/-- A number: digits of the base and nothing else. -/
def number (base : Nat) (text : Bytes) : Option Nat :=
  if text = [] then none
  else text.foldlM (fun n c => (digit c).bind fun d =>
    if d < base then some (n * base + d) else none) 0

/-- The last element of a comma-separated list. -/
def lastElement (text : Bytes) : Bytes := trim (text.reverse.takeWhile (· != 44)).reverse

/-! ## Bodies -/

inductive Framing where
  | length (n : Nat)
  | chunked
  | untilClose
deriving DecidableEq, Repr

/-- The chunks, the last one and the trailer, for a text of at most `fuel` chunks. -/
def readChunks : Nat → Bytes → Option (Bytes × Bytes)
  | 0, _ => none
  | fuel + 1, text => do
      let (line, after) ← cutLine text
      let size ← number 16 (line.takeWhile (· != 59))
      if size = 0 then
        let (_, rest) ← cutBlock after
        return ([], rest)
      else if crlf.isPrefixOf (after.drop size) then
        let (content, rest) ← readChunks fuel (after.drop (size + 2))
        return (after.take size ++ content, rest)
      else none

/-- The content of a body and what follows it. -/
def readBody : Framing → Bytes → Option (Bytes × Bytes)
  | .length n, text => if n ≤ text.length then some (text.take n, text.drop n) else none
  | .chunked, text => readChunks (text.length + 1) text
  | .untilClose, text => some (text, [])

theorem readChunks_append {fuel : Nat} : ∀ {text content rest : Bytes} {fuel' : Nat} (more : Bytes),
    fuel ≤ fuel' → readChunks fuel text = some (content, rest) →
      readChunks fuel' (text ++ more) = some (content, rest ++ more) := by
  induction fuel with
  | zero => intro text content rest fuel' more _ h; cases h
  | succ fuel ih =>
    intro text content rest fuel' more hfuel h
    obtain ⟨fuel', rfl⟩ := Nat.exists_eq_succ_of_ne_zero (Nat.ne_of_gt (Nat.lt_of_succ_le hfuel |>
      Nat.zero_lt_of_lt))
    rw [readChunks] at h ⊢
    obtain ⟨⟨line, after⟩, hline, h⟩ := Option.bind_eq_some_iff.mp h
    rw [cutLine_append hline]
    dsimp only [Option.bind_eq_bind, Option.bind_some] at h ⊢
    obtain ⟨size, hsize, h⟩ := Option.bind_eq_some_iff.mp h
    rw [hsize, Option.bind_some]
    by_cases hzero : size = 0
    · rw [if_pos hzero] at h ⊢
      obtain ⟨⟨trailer, rest'⟩, htrailer, h⟩ := Option.bind_eq_some_iff.mp h
      cases h
      rw [cutBlock_append htrailer]
      rfl
    · rw [if_neg hzero] at h ⊢
      by_cases hend : crlf.isPrefixOf (after.drop size) = true
      · rw [if_pos hend] at h
        obtain ⟨⟨content', rest'⟩, hchunks, h⟩ := Option.bind_eq_some_iff.mp h
        cases h
        -- the chunk and its CRLF were there already
        obtain ⟨tail, htail⟩ := isPrefixOf_iff_prefix.mp hend
        have hlen : size + 2 ≤ after.length := by
          have := congrArg List.length htail
          simp only [crlf, length_append, length_cons, length_nil, length_drop] at this
          omega
        have hdrop : ∀ n, n ≤ size + 2 → (after ++ more).drop n = after.drop n ++ more :=
          fun n hn => drop_append_of_le_length (Nat.le_trans hn hlen)
        have hend' : crlf.isPrefixOf ((after ++ more).drop size) = true := by
          rw [hdrop size (by omega), ← htail, append_assoc]
          exact isPrefixOf_iff_prefix.mpr (prefix_append _ _)
        rw [if_pos hend', hdrop _ (Nat.le_refl _), ih more (Nat.le_of_succ_le_succ hfuel) hchunks,
          take_append_of_le_length (by omega)]
        rfl
      · rw [if_neg hend] at h
        cases h

variable {framing : Framing}

/-- **A complete body is delimited in the same place whatever follows**, unless
only the end of the connection ends it. -/
theorem readBody_append {text content rest : Bytes} (hne : framing ≠ .untilClose)
    (h : readBody framing text = some (content, rest)) (more : Bytes) :
    readBody framing (text ++ more) = some (content, rest ++ more) := by
  cases framing with
  | untilClose => exact absurd rfl hne
  | length n =>
    rw [readBody] at h ⊢
    by_cases hn : n ≤ text.length
    · rw [if_pos hn] at h
      cases h
      rw [if_pos (by rw [length_append]; omega), take_append_of_le_length hn,
        drop_append_of_le_length hn]
    · rw [if_neg hn] at h
      cases h
  | chunked =>
    refine readChunks_append more ?_ h
    rw [length_append]
    omega

/-! ## Messages -/

/-- The codings end in `chunked`. -/
def endsChunked (codings : List Bytes) : Bool :=
  (codings.getLast?).any fun value => lower (lastElement value) = ascii "chunked"

/-- The framing that the fields announce, if they announce one every recipient
accepts. -/
def announced (lines : List Bytes) : Option (Option Framing) :=
  match fieldValues (ascii "transfer-encoding") lines,
    fieldValues (ascii "content-length") lines with
  | [], [] => some none
  | [], [value] => (number 10 value).map fun n => some (.length n)
  | codings, [] => if endsChunked codings then some (some .chunked) else none
  | _, _ => none

/-- A request without either field has no body. -/
def requestFraming (lines : List Bytes) : Option Framing :=
  (announced lines).map (·.getD (.length 0))

/-- A response to `HEAD` and one with a status that allows no body has none;
without either field, the end of the connection ends it. -/
def responseFraming (toHead : Bool) (status : Nat) (lines : List Bytes) : Option Framing :=
  if toHead || (100 ≤ status && status < 200) || status == 204 || status == 304 then
    some (.length 0)
  else (announced lines).map (·.getD .untilClose)

/-- A server reads one request: the bytes of its body, and where the next
request starts. -/
def readRequest (text : Bytes) : Option (Bytes × Bytes) := do
  let (lines, after) ← cutBlock text
  let framing ← requestFraming (lines.drop 1)
  let (_, rest) ← readBody framing after
  return (after.take (after.length - rest.length), rest)

theorem requestFraming_eq_some {lines : List Bytes} :
    requestFraming lines = some framing ↔
      (fieldValues (ascii "transfer-encoding") lines = [] ∧
        fieldValues (ascii "content-length") lines = [] ∧ framing = .length 0) ∨
      (fieldValues (ascii "transfer-encoding") lines = [] ∧
        ∃ value n, fieldValues (ascii "content-length") lines = [value] ∧
          number 10 value = some n ∧ framing = .length n) ∨
      (fieldValues (ascii "content-length") lines = [] ∧
        endsChunked (fieldValues (ascii "transfer-encoding") lines) = true ∧
          framing = .chunked) := by
  unfold requestFraming announced
  generalize fieldValues (ascii "transfer-encoding") lines = codings
  generalize fieldValues (ascii "content-length") lines = lengths
  cases codings with
  | nil =>
    cases lengths with
    | nil =>
      simp only [endsChunked, Option.map_some, Option.getD_none, Option.some.injEq]
      constructor
      · rintro rfl
        exact .inl ⟨trivial, trivial, rfl⟩
      · rintro (⟨-, -, rfl⟩ | ⟨-, value, n, h, -⟩ | ⟨-, h, -⟩)
        · rfl
        · cases h
        · cases h
    | cons value lengths =>
      cases lengths with
      | nil =>
        cases hnumber : number 10 value with
        | none => simp [hnumber]
        | some n => simp [hnumber, eq_comm (a := framing)]
      | cons value' lengths => simp
  | cons coding codings =>
    cases lengths with
    | nil =>
      by_cases hchunked : endsChunked (coding :: codings) = true
      · simp [hchunked, eq_comm (a := framing)]
      · simp [hchunked]
    | cons value lengths => simp

theorem requestFraming_ne_untilClose {lines : List Bytes}
    (h : requestFraming lines = some framing) :
    framing ≠ .untilClose := by
  rcases requestFraming_eq_some.mp h with ⟨-, -, rfl⟩ | ⟨-, value, n, -, -, rfl⟩ | ⟨-, -, rfl⟩ <;>
    exact nofun

/-- **Which bytes a server takes as exactly this body**: the ones whose head ends
right before it and announces a framing under which it is complete. -/
theorem readRequest_eq_iff {head body : Bytes} :
    (∀ rest, readRequest (head ++ body ++ rest) = some (body, rest)) ↔
      ∃ lines framing content, cutBlock head = some (lines, []) ∧
        requestFraming (lines.drop 1) = some framing ∧
          readBody framing body = some (content, []) := by
  constructor
  · intro h
    have h := h []
    rw [append_nil, readRequest] at h
    obtain ⟨⟨lines, after⟩, hcut, h⟩ := Option.bind_eq_some_iff.mp h
    obtain ⟨framing, hframing, h⟩ := Option.bind_eq_some_iff.mp h
    obtain ⟨⟨content, rest⟩, hbody, h⟩ := Option.bind_eq_some_iff.mp h
    simp only [Option.pure_def, Option.some.injEq, Prod.mk.injEq] at h
    obtain ⟨hraw, rfl⟩ := h
    rw [length_nil, Nat.sub_zero, take_length] at hraw
    subst hraw
    obtain ⟨htext, hplain⟩ := cutBlock_eq_some.mp hcut
    refine ⟨lines, framing, content, cutBlock_eq_some.mpr ⟨?_, hplain⟩, hframing, hbody⟩
    rw [append_nil]
    exact append_cancel_right htext
  · rintro ⟨lines, framing, content, hcut, hframing, hbody⟩ rest
    have hcut' := cutBlock_append hcut (body ++ rest)
    have hbody' := readBody_append (requestFraming_ne_untilClose hframing) hbody rest
    rw [nil_append] at hcut' hbody'
    rw [readRequest, append_assoc, hcut']
    simp only [Option.bind_eq_bind, Option.bind_some, hframing, hbody', Option.pure_def,
      length_append, Nat.add_sub_cancel, take_left']

end HeadlessClient.Wire
