import HeadlessClient.Wire.Deflate

/-!
# Wire — gzip and zlib

The two containers of DEFLATE data. A gzip file (RFC 1952) is a series of
MEMBERS: a header with optional fields, the data, and a trailer with a checksum
and the size of the content. The zlib format (RFC 1950) is two header bytes, the
data and another checksum.

* `Member.put` — a member as a writer may write it;
* `readHeader`, `gunzip` — a reader, which fails on a bad header and, later, on
  bad data. A header that fails has still been READ: the reader says what is
  left, in that case too;
* `gunzip_members` — the reader reads every series of members.
-/

namespace HeadlessClient.Wire

open Base List

/-! ## Little-endian numbers and checksums -/

def putLittle (w n : Nat) : Bytes := (putUint w n).reverse

def getLittle (bytes : Bytes) : Nat := getUint bytes.reverse

@[simp] theorem length_putLittle (w n : Nat) : (putLittle w n).length = w := by
  simp [putLittle]

@[simp] theorem getLittle_putLittle (w n : Nat) : getLittle (putLittle w n) = n % 256 ^ w := by
  simp [getLittle, putLittle, getUint_putUint_mod]

/-- One byte of the reflected CRC with polynomial 0x04c11db7. -/
def crcByte (crc : UInt32) (b : UInt8) : UInt32 :=
  (List.range 8).foldl (fun c _ => if c &&& 1 = 1 then (c >>> 1) ^^^ 0xedb88320 else c >>> 1)
    (crc ^^^ b.toUInt32)

def crc32 (bytes : Bytes) : Nat := (bytes.foldl crcByte 0xffffffff ^^^ 0xffffffff).toNat

/-- Two sums modulo the largest prime below 2^16. -/
def adler32 (bytes : Bytes) : Nat :=
  let sums := bytes.foldl
    (fun (sums : Nat × Nat) b =>
      let low := (sums.1 + b.toNat) % 65521
      (low, (sums.2 + low) % 65521)) (1, 0)
  sums.2 * 65536 + sums.1

theorem crc32_lt (bytes : Bytes) : crc32 bytes < 256 ^ 4 := UInt32.toNat_lt _

/-! ## The zlib format -/

/-- `body` is `content` in the zlib format: method 8 with a window of at most
32 KiB, no preset dictionary, header bytes that are a multiple of 31, and the
checksum of the content behind the data. -/
def IsZlib (content body : Bytes) : Prop :=
  ∃ (method flags : UInt8) (data : Bytes),
    (method &&& 15 = 8 ∧ method ≤ 0x78 ∧ flags &&& 32 = 0 ∧
      (method.toNat * 256 + flags.toNat) % 31 = 0) ∧
    inflate data = some (content, []) ∧
    body = [method, flags] ++ data ++ putUint 4 (adler32 content)

namespace Gzip

/-! ## Reading a header -/

/-- What has been read of a header, for its checksum, and what has not. -/
structure Progress where
  seen : Bytes
  unread : Bytes

/-- Takes from a stream; where it fails, what it has read is gone all the same. -/
abbrev Reader := OptionT (StateM Progress)

/-- `io.ReadFull`. -/
def readFull (n : Nat) : Reader Bytes := fun s =>
  if n ≤ s.unread.length then
    (some (s.unread.take n), ⟨s.seen ++ s.unread.take n, s.unread.drop n⟩)
  else (none, ⟨s.seen ++ s.unread, []⟩)

/-- Up to and with a zero byte. -/
def readString : Reader Unit := fun s =>
  let text := s.unread.takeWhile (· != 0)
  if text.length < s.unread.length then
    (some (), ⟨s.seen ++ (text ++ [0]), s.unread.drop (text.length + 1)⟩)
  else (none, ⟨s.seen ++ s.unread, []⟩)

def readExtra : Reader Unit := do
  let length ← readFull 2
  let _ ← readFull (getLittle length)
  pure ()

/-- The low half of the checksum of the header so far. -/
def readHeaderCRC : Reader Unit := fun s =>
  (do
    let sum ← readFull 2
    if getLittle sum = crc32 s.seen % 256 ^ 2 then pure () else failure : Reader Unit) s

def optional (present : Bool) (field : Reader Unit) : Reader Unit :=
  if present then field else pure ()

def flagHdrCrc : UInt8 := 2
def flagExtra : UInt8 := 4
def flagName : UInt8 := 8
def flagComment : UInt8 := 16

def readHeader : Reader Unit := do
  let fixed ← readFull 10
  if fixed.take 3 = [0x1f, 0x8b, 8] then do
    let flags := fixed.getD 3 0
    optional (flags &&& flagExtra != 0) readExtra
    optional (flags &&& flagName != 0) readString
    optional (flags &&& flagComment != 0) readString
    optional (flags &&& flagHdrCrc != 0) readHeaderCRC
  else failure

/-! ## What a header takes

A header that is not empty is never left in the stream whole, whether it is read
or fails. -/

section
variable {α β : Type} {r : Reader α} {next : α → Reader β}

theorem bind_run {s s' : Progress} {a : α} (h : r s = (some a, s')) :
    (r >>= next) s = next a s' := by
  simp only [bind, OptionT.bind, OptionT.mk, StateT.bind]
  rw [h]

theorem bind_fail {s s' : Progress} (h : r s = (none, s')) : (r >>= next) s = (none, s') := by
  simp only [bind, OptionT.bind, OptionT.mk, StateT.bind]
  rw [h]
  rfl

/-- The reader puts nothing back. -/
def Shrinks (r : Reader α) : Prop := ∀ s, (r s).2.unread.length ≤ s.unread.length

theorem shrinks_pure (a : α) : Shrinks (pure a) := fun _ => Nat.le_refl _

theorem shrinks_failure : Shrinks (failure : Reader α) := fun _ => Nat.le_refl _

theorem Shrinks.bind (h : Shrinks r) (hnext : ∀ a, Shrinks (next a)) : Shrinks (r >>= next) := by
  intro s
  have hr := h s
  cases hrun : r s with
  | mk result s' =>
    rw [hrun] at hr
    cases result with
    | none =>
      rw [bind_fail hrun]
      exact hr
    | some a =>
      rw [bind_run hrun]
      exact Nat.le_trans (hnext a s') hr

theorem shrinks_optional {present : Bool} {field : Reader Unit} (h : Shrinks field) :
    Shrinks (optional present field) := by
  cases present with
  | true => exact h
  | false => exact shrinks_pure ()

theorem shrinks_readFull (n : Nat) : Shrinks (readFull n) := by
  intro s
  rw [readFull]
  split <;> simp

theorem shrinks_readString : Shrinks readString := by
  intro s
  simp only [readString]
  split <;> simp

theorem shrinks_readExtra : Shrinks readExtra :=
  (shrinks_readFull 2).bind fun _ => (shrinks_readFull _).bind fun _ => shrinks_pure ()

theorem shrinks_readHeaderCRC : Shrinks readHeaderCRC := by
  intro s
  apply (shrinks_readFull 2).bind
  intro sum
  split
  · exact shrinks_pure ()
  · exact shrinks_failure

end

theorem readFull_takes {n : Nat} (hn : 0 < n) {s : Progress} (h : s.unread ≠ []) :
    (readFull n s).2.unread.length < s.unread.length := by
  have hlength := length_pos_iff.mpr h
  rw [readFull]
  split
  · rw [length_drop]
    omega
  · exact hlength

theorem readHeader_takes {s : Progress} (h : s.unread ≠ []) :
    (readHeader s).2.unread.length < s.unread.length := by
  have hfixed := readFull_takes (n := 10) (by decide) h
  cases hrun : readFull 10 s with
  | mk result s' =>
    rw [hrun] at hfixed
    cases result with
    | none =>
      rw [readHeader, bind_fail hrun]
      exact hfixed
    | some fixed =>
      rw [readHeader, bind_run hrun]
      apply Nat.lt_of_le_of_lt _ hfixed
      -- the fields behind the fixed part, or an error
      split
      · exact (shrinks_optional shrinks_readExtra).bind
          (fun _ => (shrinks_optional shrinks_readString).bind
            fun _ => (shrinks_optional shrinks_readString).bind
              fun _ => shrinks_optional shrinks_readHeaderCRC) s'
      · exact shrinks_failure s'

/-! ## Reading the members -/

def behindHeader (stream : Bytes) : Option Bytes :=
  let result := readHeader ⟨[], stream⟩
  result.1.map fun _ => result.2.unread

/-- The content from the data of a member on: the data, the trailer, and the next
member if the stream goes on. -/
def readMembers : (fuel : Nat) → Bytes → Option Bytes
  | 0, _ => none
  | fuel + 1, unread => do
      let (content, rest) ← inflate unread
      if 8 ≤ rest.length ∧ getLittle (rest.take 4) = crc32 content ∧
          getLittle ((rest.drop 4).take 4) = content.length % 256 ^ 4 then
        if rest.drop 8 = [] then some content
        else do
          let next ← behindHeader (rest.drop 8)
          let more ← readMembers fuel next
          some (content ++ more)
      else none

end Gzip

/-- The content of a gzip stream behind its first header. -/
def gunzip (unread : Bytes) : Option Bytes := Gzip.readMembers (unread.length + 1) unread

namespace Gzip

/-! ## Writing a member -/

/-- A member of a gzip file. -/
structure Member where
  text : Bool
  modified : Bytes
  compression : UInt8
  system : UInt8
  extra : Option Bytes
  name : Option Bytes
  comment : Option Bytes
  /-- The header has a checksum of its own. -/
  checked : Bool
  data : Bytes
  content : Bytes
  length_modified : modified.length = 4
  length_extra : ∀ bytes ∈ extra, bytes.length < 256 ^ 2
  name_ne_zero : ∀ text ∈ name, 0 ∉ text
  comment_ne_zero : ∀ text ∈ comment, 0 ∉ text
  inflate_data : inflate data = some (content, [])

namespace Member

variable (m : Member)

def flags : UInt8 :=
  m.text.toUInt8 ||| (if m.checked then flagHdrCrc else 0) |||
    (if m.extra.isSome then flagExtra else 0) ||| (if m.name.isSome then flagName else 0) |||
    (if m.comment.isSome then flagComment else 0)

def fixed : Bytes := [0x1f, 0x8b, 8, m.flags] ++ m.modified ++ [m.compression, m.system]

def extraField : Bytes := m.extra.elim [] fun bytes => putLittle 2 bytes.length ++ bytes

def nameField : Bytes := m.name.elim [] (· ++ [0])

def commentField : Bytes := m.comment.elim [] (· ++ [0])

/-- The header without its checksum. -/
def fields : Bytes := m.fixed ++ m.extraField ++ m.nameField ++ m.commentField

def headerCRC : Bytes := if m.checked then putLittle 2 (crc32 m.fields) else []

def header : Bytes := m.fields ++ m.headerCRC

def trailer : Bytes := putLittle 4 (crc32 m.content) ++ putLittle 4 m.content.length

def put : Bytes := m.header ++ (m.data ++ m.trailer)

end Member

/-! ## Reading what was written -/

variable {α β : Type}

/-- Behind `seen`, the reader takes exactly `field` and returns `a`. -/
def Takes (seen : Bytes) (r : Reader α) (field : Bytes) (a : α) : Prop :=
  ∀ more, r ⟨seen, field ++ more⟩ = (some a, ⟨seen ++ field, more⟩)

theorem takes_pure (seen : Bytes) (a : α) : Takes seen (pure a) [] a := by
  intro more
  rw [append_nil]
  rfl

theorem Takes.bind {seen : Bytes} {r : Reader α} {next : α → Reader β} {first second : Bytes}
    {a : α} {b : β} (h : Takes seen r first a) (hnext : Takes (seen ++ first) (next a) second b) :
    Takes seen (r >>= next) (first ++ second) b := by
  intro more
  have hfirst := h (second ++ more)
  have hsecond := hnext more
  rw [← append_assoc] at hfirst
  rw [append_assoc] at hsecond
  rw [bind_run hfirst, hsecond]

theorem takes_readFull (seen field : Bytes) : Takes seen (readFull field.length) field field := by
  intro more
  simp [readFull]

theorem takes_readString (seen : Bytes) {text : Bytes} (h : 0 ∉ text) :
    Takes seen readString (text ++ [0]) () := by
  intro more
  have htext : (text ++ [0] ++ more).takeWhile (· != 0) = text := by
    have hall : ∀ b ∈ text, (b != 0) = true := by
      intro b hb
      exact bne_iff_ne.mpr fun hzero => h (hzero ▸ hb)
    rw [append_assoc, takeWhile_append_of_pos hall]
    simp
  have hlength : text.length < (text ++ [0] ++ more).length := by
    simp
  simp only [readString, htext, if_pos hlength]
  simp

theorem takes_readExtra (seen : Bytes) {bytes : Bytes} (h : bytes.length < 256 ^ 2) :
    Takes seen readExtra (putLittle 2 bytes.length ++ bytes) () := by
  have hlength := takes_readFull seen (putLittle 2 bytes.length)
  rw [length_putLittle] at hlength
  have hget : getLittle (putLittle 2 bytes.length) = bytes.length := by
    rw [getLittle_putLittle, Nat.mod_eq_of_lt h]
  apply hlength.bind
  rw [hget]
  intro more
  exact bind_run (takes_readFull _ bytes more)

theorem takes_readHeaderCRC (seen : Bytes) :
    Takes seen readHeaderCRC (putLittle 2 (crc32 seen)) () := by
  have hsum := takes_readFull seen (putLittle 2 (crc32 seen))
  rw [length_putLittle] at hsum
  have hcheck : Takes (seen ++ putLittle 2 (crc32 seen))
      (if getLittle (putLittle 2 (crc32 seen)) = crc32 seen % 256 ^ 2 then pure () else failure)
      [] () := by
    rw [if_pos (getLittle_putLittle 2 _)]
    exact takes_pure _ ()
  intro more
  have hsum' := hsum more
  have hcheck' := hcheck more
  rw [nil_append, append_nil] at hcheck'
  exact (bind_run hsum').trans hcheck'

namespace Member

variable (m : Member)

theorem flags_spec :
    (m.flags &&& flagHdrCrc != 0) = m.checked ∧ (m.flags &&& flagExtra != 0) = m.extra.isSome ∧
    (m.flags &&& flagName != 0) = m.name.isSome ∧
    (m.flags &&& flagComment != 0) = m.comment.isSome := by
  rw [flags]
  generalize m.text = text, m.checked = checked, m.extra.isSome = extra, m.name.isSome = name,
    m.comment.isSome = comment
  revert text checked extra name comment
  decide

theorem length_fixed : m.fixed.length = 10 := by
  simp [fixed, m.length_modified]

theorem takes_extraField (seen : Bytes) :
    Takes seen (optional m.extra.isSome readExtra) m.extraField () := by
  have hfits := m.length_extra
  rw [extraField]
  cases hextra : m.extra with
  | none => exact takes_pure seen ()
  | some bytes => exact takes_readExtra seen (hfits bytes hextra)

theorem takes_textField (seen : Bytes) {field : Option Bytes} (h : ∀ text ∈ field, 0 ∉ text) :
    Takes seen (optional field.isSome readString) (field.elim [] (· ++ [0])) () := by
  cases field with
  | none => exact takes_pure seen ()
  | some text => exact takes_readString seen (h text rfl)

theorem takes_headerCRC : Takes m.fields (optional m.checked readHeaderCRC) m.headerCRC () := by
  rw [headerCRC]
  cases m.checked with
  | true => exact takes_readHeaderCRC m.fields
  | false => exact takes_pure m.fields ()

theorem takes_header : Takes [] readHeader m.header () := by
  have hfixed := takes_readFull [] m.fixed
  rw [length_fixed] at hfixed
  have hname := takes_textField (m.fixed ++ m.extraField) m.name_ne_zero
  have hcomment := takes_textField (m.fixed ++ m.extraField ++ m.nameField) m.comment_ne_zero
  obtain ⟨hcrcFlag, hextraFlag, hnameFlag, hcommentFlag⟩ := m.flags_spec
  have hfields : Takes m.fixed
      (do
        optional (m.flags &&& flagExtra != 0) readExtra
        optional (m.flags &&& flagName != 0) readString
        optional (m.flags &&& flagComment != 0) readString
        optional (m.flags &&& flagHdrCrc != 0) readHeaderCRC)
      (m.extraField ++ (m.nameField ++ (m.commentField ++ m.headerCRC))) () := by
    rw [hcrcFlag, hextraFlag, hnameFlag, hcommentFlag]
    exact (m.takes_extraField m.fixed).bind (hname.bind (hcomment.bind m.takes_headerCRC))
  have hheader : m.header
      = m.fixed ++ (m.extraField ++ (m.nameField ++ (m.commentField ++ m.headerCRC))) := by
    simp [header, fields]
  rw [hheader]
  apply hfixed.bind
  exact hfields

theorem behindHeader_put (more : Bytes) : behindHeader (m.header ++ more) = some more := by
  rw [behindHeader, m.takes_header more]
  rfl

theorem trailer_spec (more : Bytes) :
    8 ≤ (m.trailer ++ more).length ∧ getLittle ((m.trailer ++ more).take 4) = crc32 m.content ∧
    getLittle (((m.trailer ++ more).drop 4).take 4) = m.content.length % 256 ^ 4 ∧
    (m.trailer ++ more).drop 8 = more := by
  have hcrc := Nat.mod_eq_of_lt (crc32_lt m.content)
  have htake : (m.trailer ++ more).take 4 = putLittle 4 (crc32 m.content) := by
    simp [trailer]
  have hdrop : ((m.trailer ++ more).drop 4).take 4 = putLittle 4 m.content.length := by
    simp [trailer]
  have hrest : (m.trailer ++ more).drop 8 = more := by
    simp [trailer, drop_append]
  have hlength : 8 ≤ (m.trailer ++ more).length := by
    rw [length_append, trailer, length_append, length_putLittle, length_putLittle]
    omega
  rw [htake, hdrop, getLittle_putLittle, getLittle_putLittle, hcrc]
  exact ⟨hlength, rfl, rfl, hrest⟩

theorem put_ne_nil : m.put ≠ [] := by
  simp [put, header, fields, fixed]

end Member

theorem length_le_put (members : List Member) :
    members.length ≤ (members.flatMap Member.put).length := by
  induction members with
  | nil => exact Nat.zero_le _
  | cons m members ih =>
    have hm : 0 < m.put.length := length_pos_iff.mpr m.put_ne_nil
    rw [flatMap_cons, length_append, length_cons]
    omega

theorem readMembers_of_inflate {unread content rest : Bytes}
    (h : inflate unread = some (content, rest)) (fuel : Nat)
    (htrailer : 8 ≤ rest.length ∧ getLittle (rest.take 4) = crc32 content ∧
      getLittle ((rest.drop 4).take 4) = content.length % 256 ^ 4) :
    readMembers (fuel + 1) unread
      = if rest.drop 8 = [] then some content
        else (do
          let next ← behindHeader (rest.drop 8)
          let more ← readMembers fuel next
          some (content ++ more)) := by
  simp only [readMembers, h, Option.bind_eq_bind, Option.bind_some]
  rw [if_pos htrailer]

/-- One member off the front: its content, and what the reader goes on with. -/
theorem readMembers_succ (m : Member) (fuel : Nat) (more : Bytes) :
    readMembers (fuel + 1) (m.data ++ (m.trailer ++ more))
      = if more = [] then some m.content
        else (do
          let next ← behindHeader more
          let rest ← readMembers fuel next
          some (m.content ++ rest)) := by
  have hdata := inflate_append m.inflate_data (m.trailer ++ more)
  obtain ⟨hlength, hcrc, hsize, hrest⟩ := m.trailer_spec more
  rw [nil_append] at hdata
  rw [readMembers_of_inflate hdata fuel ⟨hlength, hcrc, hsize⟩, hrest]

theorem readMembers_put (m : Member) (members : List Member) {fuel : Nat}
    (hfuel : members.length < fuel) :
    readMembers fuel (m.data ++ (m.trailer ++ members.flatMap Member.put))
      = some ((m :: members).flatMap Member.content) := by
  induction members generalizing m fuel with
  | nil =>
    obtain ⟨k, rfl⟩ := Nat.exists_eq_add_one.mpr hfuel
    rw [readMembers_succ, flatMap_nil, if_pos rfl]
    simp
  | cons next members ih =>
    obtain ⟨k, rfl⟩ := Nat.exists_eq_add_one.mpr (Nat.zero_lt_of_lt hfuel)
    have hmore : next.put ++ members.flatMap Member.put
        = next.header ++ (next.data ++ (next.trailer ++ members.flatMap Member.put)) := by
      simp [Member.put]
    have hne : next.put ++ members.flatMap Member.put ≠ [] := by
      simp [next.put_ne_nil]
    have hheader := next.behindHeader_put
      (next.data ++ (next.trailer ++ members.flatMap Member.put))
    have hrest := ih next (Nat.lt_of_succ_lt_succ hfuel)
    rw [readMembers_succ, flatMap_cons, if_neg hne, hmore, hheader]
    simp only [bind, Option.bind, hrest]
    rfl

end Gzip

/-- `body` is `content` in the gzip format: a series of members, at least one. -/
def IsGzip (content body : Bytes) : Prop :=
  ∃ (first : Gzip.Member) (others : List Gzip.Member),
    content = (first :: others).flatMap Gzip.Member.content ∧
    body = (first :: others).flatMap Gzip.Member.put

/-- **A gzip file is read**: the first header, and then exactly the content. -/
theorem gunzip_members {content body : Bytes} (h : IsGzip content body) :
    ∃ s : Gzip.Progress, Gzip.readHeader ⟨[], body⟩ = (some (), s) ∧
      gunzip s.unread = some content := by
  obtain ⟨first, others, rfl, rfl⟩ := h
  have hbody : (first :: others).flatMap Gzip.Member.put
      = first.header ++ (first.data ++ (first.trailer ++ others.flatMap Gzip.Member.put)) := by
    simp [Gzip.Member.put]
  have hheader :=
    first.takes_header (first.data ++ (first.trailer ++ others.flatMap Gzip.Member.put))
  rw [hbody]
  refine ⟨_, hheader, ?_⟩
  apply Gzip.readMembers_put
  have hothers := Gzip.length_le_put others
  rw [length_append, length_append]
  omega

end HeadlessClient.Wire
