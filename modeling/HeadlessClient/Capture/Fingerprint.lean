import HeadlessClient.Capture.HelloExtent
import HeadlessClient.Capture.JA4

/-!
# Capture — the fingerprint of what was parsed

`JA4` of a hello that `ParseHello` has returned. It takes the first and the last
byte of the first ALPN protocol, and `parseALPN` does return an EMPTY name: a
TLS record whose ALPN list begins with a zero byte stops the program
(`ja4_returns_iff`).
-/

namespace HeadlessClient.Capture

open Base Wire List

/-! ## The first protocol name -/

/-- What a round of `parseALPN` does: stop, or append the name in front of it. -/
theorem alpnRound_cases (body : Bytes) (s : Scan Bytes) :
    (alpnRound body s = .ok (.done s.found) ∧ body[s.pos]? ≠ some 0) ∨
      ∃ length protocol smaller, body[s.pos]? = some length ∧ protocol.length = length.toNat ∧
        alpnRound body s =
          .ok (.next ⟨s.pos + 1 + length.toNat, s.found ++ [protocol]⟩ smaller) := by
  unfold alpnRound
  by_cases hpos : s.pos < body.length
  · rw [dif_pos hpos, index_eq hpos, ok_bind, getElem?_eq_getElem hpos]
    by_cases hlong : s.pos + 1 + (body[s.pos]).toNat > body.length
    · rw [if_pos hlong]
      refine .inl ⟨rfl, fun hzero => ?_⟩
      -- a zero always fits
      rw [Option.some.inj hzero, UInt8.toNat_zero] at hlong
      omega
    · rw [if_neg hlong, slice_eq (by omega) (by omega), ok_bind]
      refine .inr ⟨_, _, _, rfl, ?_, rfl⟩
      rw [length_drop, length_take]
      omega
  · rw [dif_neg hpos, getElem?_eq_none (Nat.not_lt.mp hpos)]
    exact .inl ⟨rfl, fun h => nomatch h⟩

theorem alpn_found {body : Bytes} {s : Scan Bytes} {names : List Bytes}
    (h : runLoop (Scan.unread body) (alpnRound body) s = .ok names) : s.found <+: names := by
  refine runLoop_induct (fun s' : Scan Bytes => s.found <+: s'.found)
    (fun x => ∀ names, x = .ok names → s.found <+: names) ?_ (prefix_refl _) names h
  intro s' hs'
  rcases alpnRound_cases body s' with ⟨hround, -⟩ | ⟨length, protocol, smaller, -, -, hround⟩
  · rw [hround]
    intro names heq
    cases heq
    exact hs'
  · rw [hround]
    exact hs'.trans (prefix_append _ _)

/-- **The first name is empty iff the list begins with a zero.** -/
theorem parseALPN_head {body : Bytes} {names : List Bytes} (h : parseALPN body = .ok names) :
    names.head? = some [] ↔ body[2]? = some 0 := by
  unfold parseALPN at h
  split_ifs at h with hshort
  · cases h
    simp [getElem?_eq_none (Nat.le_of_lt hshort)]
  · rcases alpnRound_cases body ⟨2, []⟩ with ⟨hround, hne⟩ |
      ⟨length, protocol, _, hlength, hlen, hround⟩
    · rw [runLoop_done hround] at h
      cases h
      exact ⟨fun hnil => (nomatch hnil), fun hzero => absurd hzero hne⟩
    · rw [runLoop_next hround] at h
      obtain ⟨more, rfl⟩ := alpn_found h
      change (some protocol = some []) ↔ _
      rw [hlength, Option.some.injEq, Option.some.injEq, ← length_eq_zero_iff, hlen,
        ← UInt8.toNat_inj]
      rfl

/-! ## Bodies in the record -/

def bodyAt (record : Bytes) (x : Extension) : Bytes :=
  (record.drop (x.offset + 4)).take x.length.toNat

variable {record : Bytes}

theorem bodyAt_listed {t : Bytes} {e : RawExtension} {offset : Nat}
    (h : record.drop offset = e.put ++ t) : bodyAt record (e.listed offset) = e.body := by
  have hput : e.put ++ t = putUint 2 e.type.toNat ++ putUint 2 e.body.length ++ (e.body ++ t) := by
    simp [RawExtension.put, vec]
  have hdrop : record.drop (offset + 4) = e.body ++ t := by
    rw [← drop_drop, h, hput, drop_left' (by simp)]
  show (record.drop (offset + 4)).take (UInt16.ofNat e.body.length).toNat = e.body
  rw [hdrop, toNat_ofNat_length16 e.fits, take_left]

theorem listAll_bodies (es : List RawExtension) : ∀ {offset : Nat} {t : Bytes},
    record.drop offset = putExtensions es ++ t → ∀ type,
      ((listAll offset es).filter fun x => x.type = type).map (bodyAt record) =
        bodiesOf type es := by
  induction es with
  | nil => exact fun _ _ => rfl
  | cons e es ih =>
    intro offset t h type
    have hput : putExtensions (e :: es) = e.put ++ putExtensions es := flatMap_cons
    rw [hput, append_assoc] at h
    have hrest : record.drop (offset + e.put.length) = putExtensions es ++ t := by
      rw [← drop_drop, h, drop_left]
    rw [listAll]
    by_cases htype : e.type = type
    · subst htype
      rw [filter_cons_of_pos (by simp [RawExtension.listed]), map_cons, ih hrest,
        bodyAt_listed h, bodiesOf_cons_self]
    · rw [filter_cons_of_neg (by simp [RawExtension.listed, htype]), ih hrest,
        bodiesOf_cons_ne htype]

/-- The bodies of the ALPN extensions of a record that was parsed as `hello`. -/
def alpnBodies (record : Bytes) (hello : Hello) : List Bytes :=
  (hello.extensions.filter fun x => x.type = extALPN).map (bodyAt record)

/-- The last ALPN extension decides. -/
theorem foldlM_parseALPN (bodies : List Bytes) : ∀ {names result : List Bytes},
    bodies.foldlM (fun _ body => parseALPN body) names = Except.ok result →
      (bodies = [] ∧ result = names) ∨
        ∃ body, bodies.getLast? = some body ∧ parseALPN body = .ok result := by
  induction bodies with
  | nil =>
    intro names result h
    cases h
    exact .inl ⟨rfl, rfl⟩
  | cons body bodies ih =>
    intro names result h
    rw [foldlM_cons] at h
    obtain ⟨first, hfirst, h⟩ := bind_eq_ok.mp h
    rcases ih h with ⟨rfl, rfl⟩ | ⟨last, hlast, hparse⟩
    · exact .inr ⟨body, rfl, hfirst⟩
    · refine .inr ⟨last, ?_, hparse⟩
      rw [getLast?_cons, hlast]
      rfl

/-- **The protocols that a parsed record reports** are those of its last ALPN
extension. -/
theorem parseHello_alpn {hello : Hello} (h : parseHello record = .ok hello) :
    (alpnBodies record hello = [] ∧ hello.alpn = []) ∨
      ∃ body, (alpnBodies record hello).getLast? = some body ∧ parseALPN body = .ok hello.alpn := by
  obtain ⟨hello₀, r', ⟨hnil, halpn⟩, -, hread⟩ := parseHello_ok h
  by_cases hmore : (⟨record, Layout.blockStart record⟩ : ByteReader).remaining = 0
  · rw [parseExtensions, if_pos hmore] at hread
    cases hread
    exact .inl ⟨by rw [alpnBodies, hnil]; rfl, halpn⟩
  · obtain ⟨length, r₁, hlength, -, hloop⟩ := parseExtensions_ok hmore hread
    obtain ⟨es, hadd, hrest, -, -⟩ := runLoop_extensions_ok hloop
    have hbuf : r₁.buf = record := by
      rw [(u16_ok hlength).2]
      rfl
    have hbodies : alpnBodies record hello = bodiesOf extALPN es := by
      rw [alpnBodies, addAll_extensions es hadd, hnil, nil_append]
      exact listAll_bodies es (by rw [← hbuf]; exact hrest) _
    have hfield := alpn_field.addAll es hello₀ r₁.pos
    rw [hadd, halpn] at hfield
    rw [hbodies]
    exact foldlM_parseALPN _ hfield.symm

/-! ## The fingerprint returns -/

section Digest

variable (sha256 : Bytes → Bytes)

theorem ja4ALPN_returns_iff (alpn : List Bytes) :
    Returns (ja4ALPN alpn) ↔ alpn.head? ≠ some [] := by
  unfold ja4ALPN
  cases alpn with
  | nil => exact ⟨fun _ h => (nomatch h), fun _ => .ok _⟩
  | cons first rest =>
    cases first with
    | nil => exact ⟨fun ⟨_, h⟩ => (nomatch h), fun h => absurd rfl h⟩
    | cons b bs =>
      refine ⟨fun _ h => (nomatch h), fun _ => ?_⟩
      dsimp only
      rw [index_eq (show 0 < (b :: bs).length by simp), ok_bind, index_eq (by simp), ok_bind]
      exact .ok _

theorem Hello.ja4_returns (hello : Hello) :
    Returns (hello.ja4 sha256) ↔ hello.isDTLS = true ∨ hello.alpn.head? ≠ some [] := by
  unfold Hello.ja4
  by_cases hdtls : hello.isDTLS = true
  · rw [if_pos hdtls]
    exact ⟨fun _ => .inl hdtls, fun _ => .ok _⟩
  · rw [if_neg hdtls, ← ja4ALPN_returns_iff]
    constructor
    · rintro ⟨text, htext⟩
      obtain ⟨code, hcode, -⟩ := bind_eq_ok.mp htext
      exact .inr ⟨code, hcode⟩
    · rintro (h | h)
      · exact absurd h hdtls
      · exact h.bind fun _ => .ok _

/-- **When the fingerprint of a parsed record can be computed**: it is a DTLS
record, or its last ALPN extension does not have a zero where the first name
begins. -/
theorem ja4_returns_iff {record : Bytes} {hello : Hello} (h : parseHello record = .ok hello) :
    Returns (hello.ja4 sha256) ↔ hello.isDTLS = true ∨
      ∀ body, (alpnBodies record hello).getLast? = some body → body[2]? ≠ some 0 := by
  rw [Hello.ja4_returns]
  refine or_congr Iff.rfl ?_
  rcases parseHello_alpn h with ⟨hnone, halpn⟩ | ⟨body, hlast, hparse⟩
  · rw [hnone, halpn]
    exact ⟨fun _ _ h => (nomatch h), fun _ h => (nomatch h)⟩
  · rw [hlast, Ne, parseALPN_head hparse]
    constructor
    · rintro hne body' heq
      cases heq
      exact hne
    · exact fun hall => hall body rfl

end Digest

/-! ### One ALPN extension -/

/-- A TLS ClientHello with this ALPN body. -/
def alpnHello (body : Bytes) (fits : body.length < 256 ^ 2)
    (block_fits : (putExtensions [⟨extALPN, body, fits⟩]).length < 256 ^ 2) : HelloRecord where
  framing := .tls 0x0301 isDTLSVersion_tls10
  fields := .minimal 0x1301
  extensions := some [⟨extALPN, body, fits⟩]
  fits := by
    rintro es ⟨⟩
    exact block_fits

theorem ja4_returns_h2 :
    ∃ hello, parseHello (alpnHello [0, 3, 2, 104, 50] (by decide) (by decide)).encode = .ok hello ∧
      Returns (hello.ja4 fun _ => List.replicate 32 0) := by
  have hparses : (parseHello (alpnHello [0, 3, 2, 104, 50] (by decide) (by decide)).encode).map
      (alpnBodies (alpnHello [0, 3, 2, 104, 50] (by decide) (by decide)).encode) =
        .ok [[0, 3, 2, 104, 50]] := by
    decide +kernel
  obtain ⟨hello, hparse, hbodies⟩ := map_eq_ok.mp hparses
  refine ⟨hello, hparse, (ja4_returns_iff _ hparse).mpr (.inr fun body hlast => ?_)⟩
  rw [hbodies] at hlast
  cases hlast
  decide

/-- One protocol, without a name. -/
theorem ja4_panics_empty_protocol :
    (parseHello (alpnHello [0, 1, 0] (by decide) (by decide)).encode).toOption.map
        (Hello.ja4 fun _ => List.replicate 32 0) = some (.error .indexOutOfRange) := by
  decide +kernel

end HeadlessClient.Capture
