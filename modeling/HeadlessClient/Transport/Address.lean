import HeadlessClient.Transport.Site

/-!
# Transport — hosts that are IP addresses

The text of an address, as `net/netip` reads it: four numbers with dots between
them, or eight groups of hexadecimal digits with colons between them, where `::`
stands for groups of zeros and the last two groups may be written with dots.

`sameSite` asks for the registrable domain of such a host as if it were a name.
`EffectiveTLDPlusOne` (`golang.org/x/net` v0.55.0) answers with an error, so an
address is of one site with itself alone.
-/

namespace HeadlessClient.Transport

open Base Http1 Wire List

/-! ## Texts of addresses -/

def dot : UInt8 := 46

/-- A number below 256 in decimal digits, without leading zeros. -/
def parseOctet (label : Bytes) : Option Nat := (List.range 256).find? fun n => decimal n = label

def parseIPv4 (text : Bytes) : Option (List Nat) :=
  ((text.splitOn dot).mapM parseOctet).filter (·.length = 4)

/-- The text before and after the first `::`. -/
def cutDouble : Bytes → Option (Bytes × Bytes)
  | [] => none
  | [_] => none
  | c :: d :: rest =>
    if c = colon ∧ d = colon then some ([], rest)
    else (cutDouble (d :: rest)).map fun (before, after) => (c :: before, after)

/-- One to four hexadecimal digits. -/
def parseGroup (text : Bytes) : Option Nat := if text.length ≤ 4 then number 16 text else none

def parseGroups (text : Bytes) : Option (List Nat) :=
  if text = [] then some [] else (text.splitOn colon).mapM parseGroup

/-- Eight groups, all of them in hexadecimal digits. -/
def parseHex (text : Bytes) : Option (List Nat) :=
  match cutDouble text with
  | none => (parseGroups text).filter (·.length = 8)
  | some (before, after) =>
    match parseGroups before, parseGroups after with
    | some high, some low =>
      if high.length + low.length < 8 then
        some (high ++ List.replicate (8 - high.length - low.length) 0 ++ low)
      else none
    | _, _ => none

inductive IPAddress where
  | v4 (octets : List Nat)
  | v6 (groups : List Nat)
deriving DecidableEq, Repr

/-- The two groups that four octets stand for. -/
def groupsOf : List Nat → List Nat
  | [a, b, c, d] => [a * 256 + b, c * 256 + d]
  | _ => []

def parseIPv6 (text : Bytes) : Option IPAddress :=
  match splitLast colon text with
  | none => none
  | some (before, last) =>
    if dot ∈ last then
      match parseIPv4 last, parseHex (before ++ ascii ":0:0") with
      | some octets, some groups => some (.v6 (groups.take 6 ++ groupsOf octets))
      | _, _ => none
    else (parseHex text).map .v6

/-- `netip.ParseAddr`, for addresses without a zone. -/
def parseAddr (text : Bytes) : Option IPAddress :=
  match parseIPv4 (lower text) with
  | some octets => some (.v4 octets)
  | none => parseIPv6 (lower text)

example : parseAddr (ascii "::FFFF:10.0.0.1") =
    some (.v6 [0, 0, 0, 0, 0, 0xffff, 0xa00, 1]) := by decide +kernel

/-! ## An address is written in ASCII -/

def IsASCII (text : Bytes) : Prop := ∀ c ∈ text, c < 0x80

variable {c : UInt8} {text : Bytes}

/-- A text of parts that are each accepted by a reader of ASCII texts. -/
theorem isASCII_intercalate {sep : UInt8} (hsep : sep < 0x80) {read : Bytes → Option Nat}
    (hread : ∀ {part n}, read part = some n → IsASCII part) {parts : List Bytes}
    {numbers : List Nat} (h : parts.mapM read = some numbers) :
    IsASCII ([sep].intercalate parts) := by
  induction parts generalizing numbers with
  | nil =>
    intro c hc
    cases hc
  | cons part parts ih =>
    rw [mapM_cons] at h
    obtain ⟨n, hn, h⟩ := Option.bind_eq_some_iff.mp h
    obtain ⟨rest, hrest, -⟩ := Option.bind_eq_some_iff.mp h
    cases parts with
    | nil =>
      rw [intercalate_singleton]
      exact hread hn
    | cons next parts =>
      rw [intercalate_cons_cons, IsASCII, forall_mem_append, forall_mem_append,
        forall_mem_singleton]
      exact ⟨⟨hread hn, hsep⟩, ih hrest⟩

theorem isASCII_of_splitOn {sep : UInt8} (hsep : sep < 0x80) {read : Bytes → Option Nat}
    (hread : ∀ {part n}, read part = some n → IsASCII part) {numbers : List Nat}
    (h : (text.splitOn sep).mapM read = some numbers) : IsASCII text := by
  have hparts := isASCII_intercalate hsep hread h
  rwa [intercalate_splitOn] at hparts

theorem isASCII_of_parseOctet {n : Nat} (h : parseOctet text = some n) : IsASCII text := by
  have hfound := find?_some h
  intro c hc
  rw [← of_decide_eq_true hfound] at hc
  have hdigit := digit_of_mem_decimal hc
  rw [UInt8.lt_iff_toNat_lt]
  show c.toNat < 128
  omega

theorem isASCII_of_parseIPv4 {octets : List Nat} (h : parseIPv4 text = some octets) :
    IsASCII text :=
  isASCII_of_splitOn (by decide) isASCII_of_parseOctet (Option.filter_eq_some_iff.mp h).1

theorem digit_lt : ∀ c : UInt8, (digit c).isSome = true → c < 0x80 :=
  forall_byte (by decide +kernel)

theorem isASCII_of_foldlM {base : Nat} : ∀ {n m : Nat},
    text.foldlM (fun n c => (digit c).bind fun d =>
      if d < base then some (n * base + d) else none) n = some m → IsASCII text := by
  induction text with
  | nil =>
    intro n m _ c hc
    cases hc
  | cons x text ih =>
    intro n m h c hc
    rw [foldlM_cons] at h
    obtain ⟨n', hx, hrest⟩ := Option.bind_eq_some_iff.mp h
    obtain ⟨d, hd, -⟩ := Option.bind_eq_some_iff.mp hx
    rcases mem_cons.mp hc with rfl | hmem
    · exact digit_lt c (by rw [hd]; rfl)
    · exact ih hrest c hmem

theorem isASCII_of_parseGroup {n : Nat} (h : parseGroup text = some n) : IsASCII text := by
  rw [parseGroup] at h
  split at h
  · rw [number] at h
    split at h
    · cases h
    · exact isASCII_of_foldlM h
  · cases h

theorem isASCII_of_parseGroups {groups : List Nat} (h : parseGroups text = some groups) :
    IsASCII text := by
  rw [parseGroups] at h
  split at h
  · next hempty =>
      intro c hc
      rw [hempty] at hc
      cases hc
  · exact isASCII_of_splitOn (by decide) isASCII_of_parseGroup h

theorem eq_of_cutDouble {before after : Bytes} (h : cutDouble text = some (before, after)) :
    text = before ++ colon :: colon :: after := by
  induction text using cutDouble.induct generalizing before with
  | case1 => cases h
  | case2 c => cases h
  | case3 c d rest hcolons =>
    rw [cutDouble, if_pos hcolons] at h
    cases h
    rw [hcolons.1, hcolons.2]
    rfl
  | case4 c d rest hcolons ih =>
    rw [cutDouble, if_neg hcolons] at h
    obtain ⟨⟨before', after'⟩, hcut, heq⟩ := Option.map_eq_some_iff.mp h
    cases heq
    rw [ih hcut]
    rfl

theorem isASCII_of_parseHex {groups : List Nat} (h : parseHex text = some groups) :
    IsASCII text := by
  rw [parseHex] at h
  split at h
  · obtain ⟨hgroups, -⟩ := Option.filter_eq_some_iff.mp h
    exact isASCII_of_parseGroups hgroups
  · next before after hcut =>
      split at h
      · next high low hhigh hlow =>
          rw [eq_of_cutDouble hcut, IsASCII, forall_mem_append, forall_mem_cons,
            forall_mem_cons]
          exact ⟨isASCII_of_parseGroups hhigh, by decide, by decide,
            isASCII_of_parseGroups hlow⟩
      · cases h

theorem isASCII_of_parseIPv6 {address : IPAddress} (h : parseIPv6 text = some address) :
    IsASCII text := by
  rw [parseIPv6] at h
  split at h
  · cases h
  · next before last hsplit =>
      obtain ⟨htext, -⟩ := eq_of_splitLast hsplit
      split at h
      · split at h
        · next octets groups hquad hhex =>
            rw [htext, IsASCII, forall_mem_append, forall_mem_cons]
            exact ⟨(forall_mem_append.mp (isASCII_of_parseHex hhex)).1, by decide,
              isASCII_of_parseIPv4 hquad⟩
        · cases h
      · obtain ⟨groups, hhex, -⟩ := Option.map_eq_some_iff.mp h
        exact isASCII_of_parseHex hhex

theorem isASCII_of_parseAddr {address : IPAddress} (h : parseAddr text = some address) :
    IsASCII text := by
  apply ascii_of_lower
  rw [parseAddr] at h
  split at h
  · next octets hquad => exact isASCII_of_parseIPv4 hquad
  · exact isASCII_of_parseIPv6 h

/-! ## Sites of addresses -/

/-- What the code relies on of other packages: `strings.ToLower` on ASCII texts, and
that `EffectiveTLDPlusOne` returns an error for an address. -/
structure AddressRule (lib : Library) : Prop where
  toLower : ∀ text, IsASCII text → lib.toLower text = lower text
  address : ∀ host, (parseAddr host).isSome = true → lib.effectiveTLDPlusOne host = none

section Sites

variable {lib : Library} {u v : URL} {l m : IPAddress}

/-- Reading the text of an address does not depend on the case of its letters. -/
theorem AddressRule.parseAddr_originHost (hlib : AddressRule lib)
    (h : parseAddr u.hostname = some l) : parseAddr (originHost lib u) = some l := by
  rw [originHost, hlib.toLower _ (isASCII_of_parseAddr h), parseAddr, lower_lower]
  exact h

theorem AddressRule.registrableDomain_eq_none (hlib : AddressRule lib)
    (h : parseAddr u.hostname = some l) : registrableDomain lib (place lib u) = none := by
  rw [Option.eq_none_iff_forall_ne_some]
  intro site hsite
  obtain ⟨-, -, -, hdomain⟩ := (registrableDomain_eq_some lib).mp hsite
  rw [place, hlib.address _ (by rw [hlib.parseAddr_originHost h]; rfl)] at hdomain
  cases hdomain

theorem AddressRule.sameSite_iff_place (hlib : AddressRule lib)
    (hl : parseAddr u.hostname = some l) :
    sameSite lib u v = true ↔ place lib u = place lib v := by
  rw [sameSite_iff, SameKey, hlib.registrableDomain_eq_none hl]
  apply or_iff_left
  rintro ⟨site, hsome, -⟩
  cases hsome

end Sites

/-- **Different addresses are never of one site**, whatever the schemes and the ports;
and two URLs with addresses for hosts are cross-site iff their schemes or the texts of
their addresses differ. -/
theorem secFetchSite_addresses (lib : Library) (hlib : AddressRule lib) (a b : NetworkURL lib)
    (l m : IPAddress) (hl : parseAddr a.url.hostname = some l)
    (hm : parseAddr b.url.hostname = some m) :
    (l ≠ m → secFetchSite lib a.text b.text = .crossSite) ∧
      (secFetchSite lib a.text b.text = .crossSite ↔
        ¬(originScheme lib a.url = originScheme lib b.url ∧
          lower a.url.hostname = lower b.url.hostname)) := by
  have hplace : place lib a.url = place lib b.url ↔
      originScheme lib a.url = originScheme lib b.url ∧
        lower a.url.hostname = lower b.url.hostname := by
    rw [place, place, Prod.mk.injEq, originHost, originHost,
      hlib.toLower _ (isASCII_of_parseAddr hl), hlib.toLower _ (isASCII_of_parseAddr hm)]
  rw [← hplace]
  have hcross : secFetchSite lib a.text b.text = .crossSite ↔
      place lib a.url ≠ place lib b.url := by
    rw [secFetchSite_network, ne_eq, ← hlib.sameSite_iff_place hl]
    by_cases hsite : sameSite lib a.url b.url = true
    · simp only [hsite, if_true, not_true_eq_false, iff_false]
      split <;> simp
    · have horigin : ¬sameOrigin lib a.url b.url = true := by
        intro h
        rw [hlib.sameSite_iff_place hl] at hsite
        rw [sameOrigin_iff] at h
        simp only [origin, Prod.mk.injEq] at h
        exact hsite (Prod.ext h.1 h.2.1)
      simp [hsite, horigin]
  refine ⟨fun hne => hcross.mpr fun hsame => hne ?_, hcross⟩
  rw [parseAddr, (hplace.mp hsame).2] at hl
  rw [parseAddr, hl] at hm
  exact Option.some.inj hm

/-- `foldingLibrary` with an error for addresses. -/
def addressLibrary : Library :=
  { foldingLibrary with
    effectiveTLDPlusOne := fun host =>
      if (parseAddr host).isSome then none else foldingLibrary.effectiveTLDPlusOne host }

/-- `https://10.0.0.1` and `https://[2001:DB8::10.1.0.1]:8443`. -/
def hostOne : NetworkURL addressLibrary where
  text := ascii "https://10.0.0.1"
  url := httpsURL "10.0.0.1"
  text_ne_nil := by decide
  parsed := by decide +kernel
  network := by decide +kernel

def hostTwo : NetworkURL addressLibrary where
  text := ascii "https://[2001:DB8::10.1.0.1]:8443"
  url := httpsURL "[2001:DB8::10.1.0.1]:8443"
  text_ne_nil := by decide
  parsed := by decide +kernel
  network := by decide +kernel

theorem secFetchSite_addresses_two :
    secFetchSite addressLibrary hostOne.text hostTwo.text = .crossSite := by
  have hrule : AddressRule addressLibrary := ⟨fun _ _ => rfl, fun _ h => if_pos h⟩
  have hone : parseAddr hostOne.url.hostname = some (.v4 [10, 0, 0, 1]) := by decide +kernel
  have htwo : parseAddr hostTwo.url.hostname =
      some (.v6 [0x2001, 0xdb8, 0, 0, 0, 0, 0xa01, 1]) := by decide +kernel
  exact (secFetchSite_addresses addressLibrary hrule hostOne hostTwo _ _ hone htwo).1 (by decide)

end HeadlessClient.Transport
