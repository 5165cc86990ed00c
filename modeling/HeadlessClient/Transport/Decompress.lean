import HeadlessClient.Transport.RoundTrip
import HeadlessClient.Wire.Gzip
import HeadlessClient.Wire.LetterCase

/-!
# Transport — decoding of response bodies

`chromeContentEncodings` and `decompressResponse` of `tls.go`: the codings the
transport offers in `Accept-Encoding`, and the reader it puts over the body of
a response in one of them.

A body is a STREAM: what has been read of it is gone. `gzip.NewReader` reads the
header at once, through a buffer, and so takes bytes from the body before it can
fail; the other readers take nothing until they are read.

`compress/gzip` and `compress/flate` read what their documents say (gzip files;
DEFLATE data, WITHOUT the zlib header). The readers for `br` and `zstd` are a
parameter, with the formats they are for.
-/

namespace HeadlessClient.Transport.Decompress

open Base Http1 Wire List

/-! ## Codings -/

/-- The entries of `chromeContentEncodings`. -/
inductive ContentEncoding where
  | gzip | deflate | br | zstd
deriving DecidableEq, Repr

def ContentEncoding.name : ContentEncoding → Bytes
  | .gzip => ascii "gzip"
  | .deflate => ascii "deflate"
  | .br => ascii "br"
  | .zstd => ascii "zstd"

def chromeContentEncodings : List ContentEncoding := [.gzip, .deflate, .br, .zstd]

/-- The names a server finds in the field: they stand between commas. -/
def advertised : List Bytes := (chromeAcceptEncoding.splitOn 44).map trim

/-- What other libraries compute: the content the brotli and zstd readers give, or
an error; and `strings.ToLower` of a text that is not ASCII. -/
structure Codecs where
  brotli : Bytes → Option Bytes
  zstd : Bytes → Option Bytes
  lowerUnicode : Bytes → Bytes

variable (codecs : Codecs)

/-- `strings.ToLower`. -/
def toLower (text : Bytes) : Bytes :=
  if text.all (· < 0x80) then lower text else codecs.lowerUnicode text

/-! ## Bodies -/

/-- How a body answers a read: it gives at least one byte while it has any. The
size of the reader's buffer bounds the number too; nothing here depends on it. -/
structure Delivery where
  amount : Bytes → Nat
  amount_pos : ∀ unread, unread ≠ [] → 0 < amount unread

/-- What is left of a body from which `wanted` bytes were read, if it had so many.
A read may give more than was wanted: it goes to a buffer. -/
def Delivery.drain (delivery : Delivery) : (fuel wanted : Nat) → (unread : Bytes) → Bytes
  | 0, _, unread => unread
  | fuel + 1, wanted, unread =>
    if wanted = 0 ∨ unread = [] then unread
    else
      let n := delivery.amount unread
      delivery.drain fuel (wanted - n) (unread.drop n)

/-- A body after the call: the body of the response, with what it has left, or a
`wrappedBody` with the content that its decompressor gives, or an error. -/
inductive Body where
  | live (unread : Bytes)
  | wrapped (content : Option Bytes)
deriving DecidableEq, Repr

/-- The bytes read from a body to its end; nothing on an error. -/
def Body.read : Body → Option Bytes
  | .live unread => some unread
  | .wrapped content => content

/-- The fields of `http.Response` that matter here, with bodies of type `β`. -/
structure Response (β : Type) where
  header : Header
  contentLength : Int
  body : Option β

/-- What `newReader` returns: the content to be read, or an error, with what it has
left of the body. -/
inductive Opened where
  | reader (content : Option Bytes)
  | failed (left : Bytes)

/-- `gzip.NewReader`. The bytes that the header took are read from the body. -/
def gzipNewReader (delivery : Delivery) (unread : Bytes) : Opened :=
  let result := Gzip.readHeader ⟨[], unread⟩
  match result.1 with
  | some _ => .reader (gunzip result.2.unread)
  | none =>
    .failed (delivery.drain unread.length (unread.length - result.2.unread.length) unread)

/-- The function of an entry. Only `gzip.NewReader` can fail: `zstd.NewReader` does
on bad options, and there are none. -/
def ContentEncoding.newReader (delivery : Delivery) (unread : Bytes) : ContentEncoding → Opened
  | .gzip => gzipNewReader delivery unread
  | .deflate => .reader ((inflate unread).map Prod.fst)
  | .br => .reader (codecs.brotli unread)
  | .zstd => .reader (codecs.zstd unread)

def contentEncoding : Bytes := ascii "Content-Encoding"

def contentLengthKey : Bytes := ascii "Content-Length"

/-- The entry for a response, if there is one. -/
def encodingOf (header : Header) : Option ContentEncoding :=
  let name := toLower codecs (header.get contentEncoding)
  chromeContentEncodings.find? fun encoding => encoding.name == name

/-- What the function does to a response with a body. -/
def decompressBody (delivery : Delivery) (response : Response Bytes) (unread : Bytes) :
    Response Body :=
  match encodingOf codecs response.header with
  | none => { response with body := some (.live unread) }
  | some encoding =>
    match encoding.newReader codecs delivery unread with
    | .failed left => { response with body := some (.live left) }
    | .reader content =>
      { header := (response.header.del contentEncoding).del contentLengthKey
        contentLength := -1
        body := some (.wrapped content) }

def decompressResponse (delivery : Delivery) (response : Option (Response Bytes)) :
    Option (Response Body) :=
  response.map fun response =>
    match response.body with
    | none => { response with body := none }
    | some unread => decompressBody codecs delivery response unread

/-! ## The formats -/

/-- The formats of the two other codings, which their readers read. -/
structure Formats where
  IsBrotli : Bytes → Bytes → Prop
  IsZstd : Bytes → Bytes → Prop
  brotli_read : ∀ {content body}, IsBrotli content body → codecs.brotli body = some content
  zstd_read : ∀ {content body}, IsZstd content body → codecs.zstd body = some content

variable {codecs}

/-- `body` is `content` in a coding of RFC 9110, where `deflate` is the zlib format. -/
def Formats.Encodes (formats : Formats codecs) : ContentEncoding → Bytes → Bytes → Prop
  | .gzip => IsGzip
  | .deflate => IsZlib
  | .br => formats.IsBrotli
  | .zstd => formats.IsZstd

/-- `body` is DEFLATE data of `content`, with nothing in front of it. -/
def IsDeflate (content body : Bytes) : Prop := ∃ rest, inflate body = some (content, rest)

/-- The response with the content `content`: the two fields are gone, the others
are as they were, and the length is not known. -/
structure DecodedTo (content : Bytes) (before : Response Bytes) (after : Response Body) : Prop where
  body : after.body.map Body.read = some (some content)
  removed : after.header.lookup contentEncoding = none ∧
    after.header.lookup contentLengthKey = none
  others : ∀ key, key ≠ contentEncoding → key ≠ contentLengthKey →
    after.header.lookup key = before.header.lookup key
  contentLength : after.contentLength = -1

/-- The same fields, the same length, and the same bytes to read. -/
structure Untouched (before : Response Bytes) (after : Response Body) : Prop where
  header : after.header = before.header
  contentLength : after.contentLength = before.contentLength
  body : after.body.map Body.read = before.body.map some

def Response.Installed (after : Response Body) : Prop :=
  ∃ content, after.body = some (.wrapped content)

/-! ## The coding of a response -/

theorem advertised_eq : advertised = chromeContentEncodings.map ContentEncoding.name := by
  decide +kernel

variable {encoding : ContentEncoding}

theorem toLower_of_lower {text : Bytes} (h : lower text = encoding.name) :
    toLower codecs text = encoding.name := by
  have hname : encoding.name.all (· < 0x80) = true := by
    cases encoding <;> decide
  have hlower : ∀ c ∈ lower text, c < 0x80 := by
    rw [h]
    simpa using hname
  have hascii : text.all (· < 0x80) = true := by
    simpa using ascii_of_lower hlower
  rw [toLower, if_pos hascii, h]

theorem find_name (encoding : ContentEncoding) :
    chromeContentEncodings.find? (fun e => e.name == encoding.name) = some encoding := by
  cases encoding <;> decide

theorem encodingOf_of_name {header : Header}
    (h : toLower codecs (header.get contentEncoding) = encoding.name) :
    encodingOf codecs header = some encoding := by
  rw [encodingOf, h, find_name]

theorem name_of_encodingOf {header : Header} (h : encodingOf codecs header = some encoding) :
    toLower codecs (header.get contentEncoding) = encoding.name := by
  have hname := find?_some h
  exact (beq_iff_eq.mp hname).symm

/-! ## Advertised codings decode -/

theorem canonical_contentEncoding : canonicalHeaderKey contentEncoding = contentEncoding := by
  decide

theorem canonical_contentLengthKey : canonicalHeaderKey contentLengthKey = contentLengthKey := by
  decide

theorem decodedTo_iff (response : Response Bytes) (content : Bytes) (given : Option Bytes) :
    DecodedTo content response
        { header := (response.header.del contentEncoding).del contentLengthKey
          contentLength := -1
          body := some (.wrapped given) } ↔
      given = some content := by
  constructor
  · intro h
    simpa [Body.read] using h.body
  · rintro rfl
    have hne : contentEncoding ≠ contentLengthKey := by decide
    refine ⟨rfl, ⟨?_, ?_⟩, ?_, rfl⟩
    · rw [Header.del, Header.del, canonical_contentEncoding, canonical_contentLengthKey,
        AList.lookup_erase_ne hne, AList.lookup_erase]
    · rw [Header.del, canonical_contentLengthKey, AList.lookup_erase]
    · intro key hencoding hlength
      rw [Header.del, Header.del, canonical_contentEncoding, canonical_contentLengthKey,
        AList.lookup_erase_ne hlength, AList.lookup_erase_ne hencoding]

/-- On a body in its coding every reader gives the content, but the one for
`deflate`, which gives what DEFLATE data the body starts with. -/
theorem newReader_encoded (formats : Formats codecs) (delivery : Delivery) {content body : Bytes}
    (h : formats.Encodes encoding content body) :
    ∃ given, encoding.newReader codecs delivery body = .reader given ∧
      (given = some content ↔ encoding ≠ .deflate ∨ IsDeflate content body) := by
  cases encoding with
  | gzip =>
    obtain ⟨s, hheader, hcontent⟩ := gunzip_members h
    refine ⟨gunzip s.unread, ?_, by simp [hcontent]⟩
    rw [ContentEncoding.newReader, gzipNewReader, hheader]
  | deflate =>
    refine ⟨_, rfl, ?_⟩
    simp [IsDeflate]
  | br => exact ⟨_, rfl, by simp [formats.brotli_read h]⟩
  | zstd => exact ⟨_, rfl, by simp [formats.zstd_read h]⟩

theorem decompressResponse_encoded (formats : Formats codecs) (delivery : Delivery)
    {response : Response Bytes} {content body : Bytes}
    (hname : lower (response.header.get contentEncoding) = encoding.name)
    (hbody : response.body = some body) (hencoded : formats.Encodes encoding content body) :
    (∃ after, decompressResponse codecs delivery (some response) = some after ∧
      DecodedTo content response after) ↔
      encoding ≠ .deflate ∨ IsDeflate content body := by
  obtain ⟨given, hreader, hgiven⟩ := newReader_encoded formats delivery hencoded
  have hlower : toLower codecs (response.header.get contentEncoding) = encoding.name :=
    toLower_of_lower hname
  have hencoding := encodingOf_of_name hlower
  have hafter : decompressResponse codecs delivery (some response)
      = some { header := (response.header.del contentEncoding).del contentLengthKey
               contentLength := -1
               body := some (.wrapped given) } := by
    simp only [decompressResponse, Option.map_some, hbody, decompressBody, hencoding, hreader]
  rw [← hgiven, ← decodedTo_iff response, hafter]
  simp

/-- **A body in an advertised coding is decoded, unless the coding is `deflate`**:
then it is only if the zlib-format body is, read without regard to its header,
DEFLATE data of the content. -/
theorem advertised_decodes_iff (formats : Formats codecs) (delivery : Delivery) (name : Bytes)
    (hadvertised : name ∈ advertised) :
    ∃ encoding : ContentEncoding, encoding.name = name ∧
      ∀ (response : Response Bytes) (content body : Bytes),
        lower (response.header.get contentEncoding) = name → response.body = some body →
        formats.Encodes encoding content body →
        ((∃ after, decompressResponse codecs delivery (some response) = some after ∧
          DecodedTo content response after) ↔
          encoding ≠ .deflate ∨ IsDeflate content body) := by
  rw [advertised_eq] at hadvertised
  obtain ⟨encoding, _, rfl⟩ := mem_map.mp hadvertised
  refine ⟨encoding, rfl, ?_⟩
  intro response content body hname hbody hencoded
  exact decompressResponse_encoded formats delivery hname hbody hencoded

/-- Brotli and zstd at the empty content: a last empty meta-block, and a frame with
one empty block. -/
def emptyCodecs : Codecs where
  brotli body := if body = [6] then some [] else none
  zstd body := if body = [0x28, 0xb5, 0x2f, 0xfd, 0x20, 0, 1, 0, 0] then some [] else none
  lowerUnicode := id

def emptyFormats : Formats emptyCodecs where
  IsBrotli content body := content = [] ∧ body = [6]
  IsZstd content body := content = [] ∧ body = [0x28, 0xb5, 0x2f, 0xfd, 0x20, 0, 1, 0, 0]
  brotli_read h := by
    obtain ⟨rfl, rfl⟩ := h
    rfl
  zstd_read h := by
    obtain ⟨rfl, rfl⟩ := h
    rfl

/-- Every read gives all there is. -/
def wholeDelivery : Delivery where
  amount unread := unread.length
  amount_pos _ h := length_pos_iff.mpr h

def sampleResponse (encoding : String) (body : Bytes) : Response Bytes where
  header := (∅ : Header).set contentEncoding (ascii encoding)
  contentLength := body.length
  body := some body

theorem inflate_hi : inflate [0xcb, 0xc8, 4, 0] = some (ascii "hi", []) := by
  decide +kernel

/-- A gzip file with a name and without other options. -/
def hiMember : Gzip.Member where
  text := false
  modified := [0, 0, 0, 0]
  compression := 0
  system := 3
  extra := none
  name := some (ascii "hi.txt")
  comment := none
  checked := false
  data := [0xcb, 0xc8, 4, 0]
  content := ascii "hi"
  length_modified := rfl
  length_extra := by simp
  name_ne_zero := by simp; decide
  comment_ne_zero := by simp
  inflate_data := inflate_hi

theorem advertised_decodes_gzip :
    ∃ after, decompressResponse emptyCodecs wholeDelivery
        (some (sampleResponse "GZip" hiMember.put)) = some after ∧
      DecodedTo (ascii "hi") (sampleResponse "GZip" hiMember.put) after := by
  have hadvertised : ascii "gzip" ∈ advertised := by
    rw [advertised_eq]
    exact mem_map.mpr ⟨.gzip, by decide, rfl⟩
  obtain ⟨encoding, hname, h⟩ :=
    advertised_decodes_iff emptyFormats wholeDelivery (ascii "gzip") hadvertised
  obtain rfl : encoding = .gzip := by
    cases encoding <;> first | rfl | exact absurd hname (by decide)
  exact (h _ _ _ (by decide) rfl ⟨hiMember, [], rfl, (append_nil _).symm⟩).mpr (.inl (by decide))

def hiZlib : Bytes := [0x78, 0x9c, 0xcb, 0xc8, 4, 0, 1, 0x3b, 0, 0xd2]

theorem isZlib_hi : IsZlib (ascii "hi") hiZlib :=
  ⟨0x78, 0x9c, [0xcb, 0xc8, 4, 0], by decide, inflate_hi, by decide⟩

/-- The reader for `deflate` takes the two header bytes of the zlib format for the
start of a stored block, and fails. -/
theorem deflate_not_decoded :
    emptyFormats.Encodes .deflate (ascii "hi") hiZlib ∧
    (decompressResponse emptyCodecs wholeDelivery (some (sampleResponse "deflate" hiZlib))).map
      Response.body = some (some (.wrapped none)) :=
  ⟨isZlib_hi, by decide +kernel⟩

/-! ## Responses that are not decoded -/

theorem Delivery.length_drain_le (delivery : Delivery) (fuel wanted : Nat) (unread : Bytes) :
    (delivery.drain fuel wanted unread).length ≤ unread.length := by
  induction fuel generalizing wanted unread with
  | zero => exact Nat.le_refl _
  | succ fuel ih =>
    rw [Delivery.drain]
    split
    · exact Nat.le_refl _
    · have hrest := ih (wanted - delivery.amount unread) (unread.drop (delivery.amount unread))
      rw [length_drop] at hrest
      exact Nat.le_trans hrest (Nat.sub_le _ _)

theorem Delivery.drain_lt (delivery : Delivery) {fuel wanted : Nat} {unread : Bytes}
    (hfuel : 0 < fuel) (hwanted : 0 < wanted) (hunread : unread ≠ []) :
    (delivery.drain fuel wanted unread).length < unread.length := by
  obtain ⟨k, rfl⟩ := Nat.exists_eq_add_one.mpr hfuel
  have hstop : ¬(wanted = 0 ∨ unread = []) := by
    intro h
    rcases h with h | h
    · omega
    · exact hunread h
  have hamount := delivery.amount_pos unread hunread
  have hlength := length_pos_iff.mpr hunread
  have hrest := delivery.length_drain_le k (wanted - delivery.amount unread)
    (unread.drop (delivery.amount unread))
  rw [length_drop] at hrest
  rw [Delivery.drain, if_neg hstop]
  show (delivery.drain k _ _).length < _
  omega

theorem Delivery.drain_nil (delivery : Delivery) (fuel wanted : Nat) :
    delivery.drain fuel wanted [] = [] := by
  have hlength := delivery.length_drain_le fuel wanted []
  exact eq_nil_of_length_eq_zero (Nat.le_zero.mp hlength)

/-- A failed `gzip.NewReader` leaves a body as it was only if there was nothing in it. -/
theorem gzipNewReader_failed {delivery : Delivery} {unread left : Bytes}
    (h : gzipNewReader delivery unread = .failed left) : left = unread ↔ unread = [] := by
  simp only [gzipNewReader] at h
  split at h
  · cases h
  · cases h
    constructor
    · intro hsame
      by_contra hunread
      have htaken := Gzip.readHeader_takes (s := ⟨[], unread⟩) hunread
      have hlength : 0 < unread.length := length_pos_iff.mpr hunread
      have hdrain := delivery.drain_lt hlength (Nat.sub_pos_of_lt htaken) hunread
      rw [hsame] at hdrain
      exact Nat.lt_irrefl _ hdrain
    · rintro rfl
      exact delivery.drain_nil _ _

theorem decompressBody_cases (delivery : Delivery) (response : Response Bytes) (unread : Bytes) :
    (decompressBody codecs delivery response unread).Installed ∨
    ∃ left, decompressBody codecs delivery response unread
        = { response with body := some (.live left) } ∧
      (left = unread ↔
        toLower codecs (response.header.get contentEncoding) ≠ ContentEncoding.gzip.name ∨
          unread = []) := by
  cases hencoding : encodingOf codecs response.header with
  | none =>
    right
    refine ⟨unread, by simp only [decompressBody, hencoding], ?_⟩
    have hname : toLower codecs (response.header.get contentEncoding)
        ≠ ContentEncoding.gzip.name := by
      intro hgzip
      rw [encodingOf_of_name hgzip] at hencoding
      cases hencoding
    simp [hname]
  | some encoding =>
    have hname := name_of_encodingOf hencoding
    cases hopened : encoding.newReader codecs delivery unread with
    | reader content =>
      left
      exact ⟨content, by simp only [decompressBody, hencoding, hopened]⟩
    | failed left =>
      right
      refine ⟨left, by simp only [decompressBody, hencoding, hopened], ?_⟩
      -- only `gzip.NewReader` fails
      cases encoding with
      | gzip => simp [hname, gzipNewReader_failed hopened]
      | deflate | br | zstd => cases hopened

/-- **A response that is not decoded is left untouched, unless it says `gzip`** and
has a body: `gzip.NewReader` then has read from the body before it failed. -/
theorem untouched_iff (delivery : Delivery) (before : Response Bytes) (after : Response Body)
    (hafter : decompressResponse codecs delivery (some before) = some after)
    (hinstalled : ¬after.Installed) :
    Untouched before after ↔
      toLower codecs (before.header.get contentEncoding) ≠ ContentEncoding.gzip.name ∨
        before.body.getD [] = [] := by
  cases hbody : before.body with
  | none =>
    simp only [decompressResponse, Option.map_some, hbody, Option.some.injEq] at hafter
    subst hafter
    have huntouched : Untouched before { before with body := none } := by
      refine ⟨rfl, rfl, ?_⟩
      rw [hbody]
      rfl
    simp [huntouched]
  | some unread =>
    simp only [decompressResponse, Option.map_some, hbody, Option.some.injEq] at hafter
    subst hafter
    rcases @decompressBody_cases codecs delivery before unread with h | h
    · exact absurd h hinstalled
    · obtain ⟨left, hleft, hiff⟩ := h
      rw [Option.getD_some, ← hiff, hleft]
      constructor
      · intro h
        have hread := h.body
        rw [hbody] at hread
        simpa [Body.read] using hread
      · rintro rfl
        refine ⟨rfl, rfl, ?_⟩
        rw [hbody]
        rfl

theorem untouched_unknown :
    ∃ after, decompressResponse emptyCodecs wholeDelivery
        (some (sampleResponse "identity" (ascii "hi"))) = some after ∧
      Untouched (sampleResponse "identity" (ascii "hi")) after := by
  refine ⟨_, rfl, (untouched_iff wholeDelivery _ _ rfl ?_).mpr (.inl (by decide))⟩
  rintro ⟨content, h⟩
  cases h

/-- A plain text that says `gzip`: no reader is installed, and the text is gone. -/
theorem plain_text_lost :
    ∃ after, decompressResponse emptyCodecs wholeDelivery
        (some (sampleResponse "gzip" (ascii "Bad gateway"))) = some after ∧
      ¬after.Installed ∧
      ¬Untouched (sampleResponse "gzip" (ascii "Bad gateway")) after ∧
      after.body = some (.live []) := by
  have hbody : ((decompressResponse emptyCodecs wholeDelivery
      (some (sampleResponse "gzip" (ascii "Bad gateway")))).map Response.body)
        = some (some (.live [])) := by
    decide +kernel
  obtain ⟨after, hafter, hlost⟩ := Option.map_eq_some_iff.mp hbody
  refine ⟨after, hafter, ?_, ?_, hlost⟩
  · rintro ⟨content, hcontent⟩
    rw [hlost] at hcontent
    cases hcontent
  · intro h
    have hread := h.body
    rw [hlost] at hread
    cases hread

end HeadlessClient.Transport.Decompress
