import HeadlessClient.Base.GoMap
import HeadlessClient.Wire.Lines
import Mathlib.Data.List.Sort

/-!
# Http1 — header maps and their order

`http.Header` with the operations the writer uses, and `indexHeader` and
`orderedHeaderNames` of `internal/chromehttp1/request.go`.

A header map may hold several keys that are one header (`"a"` and `"A"`). The
writer merges them under the CANONICAL key, and writes every canonical key once:
in the place Chrome's order gives it, or sorted among the rest.
-/

namespace HeadlessClient.Http1

open Base Wire List

/-! ## Canonical keys -/

def isLower (c : UInt8) : Bool := 97 ≤ c && c ≤ 122

def isUpper (c : UInt8) : Bool := 65 ≤ c && c ≤ 90

def isDigit (c : UInt8) : Bool := 48 ≤ c && c ≤ 57

/-- `validHeaderFieldByte`: the bytes of an RFC 9110 token. -/
def validHeaderFieldByte (c : UInt8) : Bool :=
  isLower c || isUpper c || isDigit c || (ascii "!#$%&'*+-.^_`|~").contains c

/-- One byte of `canonicalize`. -/
def recase (upper : Bool) (c : UInt8) : UInt8 :=
  if upper && isLower c then c - 32 else if !upper && isUpper c then c + 32 else c

/-- Upper case at the start and after a hyphen, lower case elsewhere. -/
def canonicalize : Bool → Bytes → Bytes
  | _, [] => []
  | upper, c :: rest =>
    let c := recase upper c
    c :: canonicalize (c == 45) rest

/-- `http.CanonicalHeaderKey`: a key that is not a token stays as it is. -/
def canonicalHeaderKey (key : Bytes) : Bytes :=
  if key.all validHeaderFieldByte then canonicalize true key else key

theorem noBreak_of_forall {text : Bytes} (h : ∀ c ∈ text, c ≠ cr) : NoBreak text := by
  cases hcut : cutLine text with
  | none => exact hcut
  | some r =>
    obtain ⟨line, rest⟩ := r
    obtain ⟨htext, -⟩ := eq_of_cutLine hcut
    have hmem : cr ∈ text := by
      rw [htext]
      simp [crlf]
    exact absurd rfl (h cr hmem)

theorem recase_ne_cr :
    ∀ (c : UInt8) (upper : Bool), validHeaderFieldByte c = true → recase upper c ≠ cr :=
  forall_byte (by decide +kernel)

theorem canonicalize_ne_cr (key : Bytes) : ∀ upper, (∀ c ∈ key, validHeaderFieldByte c = true) →
    ∀ c ∈ canonicalize upper key, c ≠ cr := by
  induction key with
  | nil => intro upper _ c hc; cases hc
  | cons a key ih =>
    intro upper hvalid c hc
    rw [canonicalize] at hc
    rcases mem_cons.mp hc with rfl | hc
    · exact recase_ne_cr a upper (hvalid a mem_cons_self)
    · exact ih _ (fun c hc => hvalid c (mem_cons_of_mem _ hc)) c hc

/-- **Canonical form neither adds nor removes a line break.** -/
theorem noBreak_canonicalHeaderKey (key : Bytes) :
    NoBreak (canonicalHeaderKey key) ↔ NoBreak key := by
  unfold canonicalHeaderKey
  by_cases hvalid : key.all validHeaderFieldByte = true
  · rw [if_pos hvalid]
    rw [all_eq_true] at hvalid
    have hkey : NoBreak key := noBreak_of_forall fun c hc hcr => by
      have hc' := hvalid c hc
      rw [hcr] at hc'
      exact absurd hc' (by decide)
    exact ⟨fun _ => hkey, fun _ => noBreak_of_forall (canonicalize_ne_cr key true hvalid)⟩
  · rw [if_neg hvalid]

/-! ## Header maps -/

/-- `http.Header`. -/
abbrev Header := GoMap Bytes (List Bytes)

namespace Header

/-- `Get`: the first value, or nothing. -/
def get (header : Header) (key : Bytes) : Bytes :=
  ((header.lookup (canonicalHeaderKey key)).getD []).headD []

def set (header : Header) (key value : Bytes) : Header :=
  header.insert (canonicalHeaderKey key) [value]

def del (header : Header) (key : Bytes) : Header := header.erase (canonicalHeaderKey key)

end Header

/-! ## Chrome's order -/

def chromeHTTP1NavigationHeaderOrder : List Bytes :=
  ["Host", "Connection", "sec-ch-ua", "sec-ch-ua-mobile", "sec-ch-ua-platform",
    "Upgrade-Insecure-Requests", "", "User-Agent", "Accept", "Sec-Fetch-Site", "Sec-Fetch-Mode",
    "Sec-Fetch-User", "Sec-Fetch-Dest", "Sec-Fetch-Storage-Access", "Referer", "Accept-Encoding",
    "Accept-Language", "Cookie"].map ascii

def chromeHTTP1HeaderOrder : List Bytes :=
  ["Host", "Connection", "Content-Length", "sec-ch-ua-platform", "Pragma", "Cache-Control", "",
    "User-Agent", "sec-ch-ua", "Content-Type", "sec-ch-ua-mobile", "Accept", "Upgrade", "Origin",
    "Sec-WebSocket-Version", "Sec-Fetch-Site", "Sec-Fetch-Mode", "Sec-Fetch-Dest",
    "Sec-Fetch-Storage-Access", "Referer", "Accept-Encoding", "Accept-Language",
    "Sec-WebSocket-Key", "Sec-WebSocket-Extensions", "Sec-WebSocket-Protocol", "Cookie"].map ascii

/-- Membership in a `map[string]bool`. -/
def has (set : GoMap Bytes Bool) (name : Bytes) : Bool := (set.lookup name).getD false

def chromeHTTP1OrderFor (present : GoMap Bytes Bool) : List Bytes :=
  if has present (ascii "Upgrade-Insecure-Requests") then chromeHTTP1NavigationHeaderOrder
  else chromeHTTP1HeaderOrder

/-- The two maps of `indexHeader`. -/
structure Index where
  values : GoMap Bytes (List Bytes)
  casing : GoMap Bytes Bytes

namespace Index

/-- `values[canonical]`. -/
def valuesOf (index : Index) (canonical : Bytes) : List Bytes :=
  (index.values.lookup canonical).getD []

/-- `casing[canonical]`. -/
def casingOf (index : Index) (canonical : Bytes) : Bytes :=
  (index.casing.lookup canonical).getD []

/-- One round of the loop of `indexHeader`. -/
def add (index : Index) (entry : Bytes × List Bytes) : Index :=
  let canonical := canonicalHeaderKey entry.1
  { values := index.values.insert canonical (index.valuesOf canonical ++ entry.2)
    casing := index.casing.insert canonical entry.1 }

theorem valuesOf_absent {index : Index} {c : Bytes} (h : c ∉ index.values) :
    index.valuesOf c = [] := by
  rw [valuesOf, AList.lookup_eq_none.mpr h]
  rfl

end Index

def indexHeader (header : Header) (order : MapOrder) : Index :=
  (header.range order).foldl Index.add ⟨∅, ∅⟩

/-- The set `present` of `orderedHeaderNames`. -/
def presentNames (values : GoMap Bytes (List Bytes)) (host : Bytes) : GoMap Bytes Bool :=
  let present : GoMap Bytes Bool := values.keys.foldl (fun set name => set.insert name true) ∅
  if host ≠ [] then present.insert (ascii "Host") true else present

/-- `placed[canonical]`: the order has a place for the key. -/
def placed (order : List Bytes) (canonical : Bytes) : Bool :=
  order.any fun name => name != [] && canonicalHeaderKey name == canonical

/-- `orderedHeaderNames`; `rangeOrder` is the order of the loop that collects
the unordered names. -/
def orderedHeaderNames (index : Index) (host : Bytes) (rangeOrder : MapOrder) : List Bytes :=
  let present := presentNames index.values host
  let order := chromeHTTP1OrderFor present
  let unordered := ((present.range rangeOrder).map Prod.fst).filter fun name => !placed order name
  let unordered := (unordered.map index.casingOf).insertionSort (· ≤ ·)
  order.flatMap fun name =>
    if name = [] then unordered
    else if has present (canonicalHeaderKey name) then [name]
    else []

/-! ### What the index holds -/

theorem foldl_add_valuesOf (entries : List (Bytes × List Bytes)) :
    ∀ (index : Index) (canonical : Bytes),
    (entries.foldl Index.add index).valuesOf canonical = index.valuesOf canonical ++
      (entries.filter fun e => canonicalHeaderKey e.1 = canonical).flatMap Prod.snd := by
  induction entries with
  | nil => intro index canonical; simp
  | cons e entries ih =>
    intro index canonical
    rw [foldl_cons, ih]
    by_cases h : canonicalHeaderKey e.1 = canonical
    · subst h
      simp [Index.valuesOf, Index.add]
    · have hne : canonical ≠ canonicalHeaderKey e.1 := fun heq => h heq.symm
      simp [Index.valuesOf, Index.add, AList.lookup_insert_ne hne, h]

theorem foldl_add_keys (entries : List (Bytes × List Bytes)) :
    ∀ (index : Index) (canonical : Bytes),
    canonical ∈ (entries.foldl Index.add index).values ↔
      canonical ∈ index.values ∨ ∃ e ∈ entries, canonicalHeaderKey e.1 = canonical := by
  induction entries with
  | nil => intro index canonical; simp
  | cons e entries ih =>
    intro index canonical
    rw [foldl_cons, ih]
    simp only [Index.add, AList.mem_insert, mem_cons, exists_eq_or_imp]
    tauto

theorem valuesOf_indexHeader (header : Header) (order : MapOrder) (c : Bytes) :
    (indexHeader header order).valuesOf c =
      ((header.range order).filter fun e => canonicalHeaderKey e.1 = c).flatMap Prod.snd :=
  foldl_add_valuesOf _ _ _

theorem mem_indexHeader {header : Header} {order : MapOrder} {c : Bytes} :
    c ∈ (indexHeader header order).values ↔
      ∃ e ∈ header.range .stored, canonicalHeaderKey e.1 = c := by
  rw [indexHeader, foldl_add_keys]
  simp only [(GoMap.range_perm header order .stored).mem_iff]
  exact or_iff_right (AList.notMem_empty c)

theorem foldl_add_casingOf (entries : List (Bytes × List Bytes)) : ∀ (index : Index) (c : Bytes),
    (entries.foldl Index.add index).casingOf c =
      (((entries.filter fun e => canonicalHeaderKey e.1 = c).getLast?).map Prod.fst).getD
        (index.casingOf c) := by
  induction entries with
  | nil => intro index c; rfl
  | cons e entries ih =>
    intro index c
    rw [foldl_cons, ih]
    by_cases h : canonicalHeaderKey e.1 = c
    · rw [filter_cons_of_pos (by simpa using h), getLast?_cons]
      cases (entries.filter fun e => canonicalHeaderKey e.1 = c).getLast? with
      | none =>
        subst h
        simp [Index.casingOf, Index.add]
      | some last => rfl
    · have hne : c ≠ canonicalHeaderKey e.1 := fun heq => h heq.symm
      rw [filter_cons_of_neg (by simpa using h)]
      simp [Index.casingOf, Index.add, AList.lookup_insert_ne hne]

theorem casing_indexHeader {header : Header} {order : MapOrder} {c : Bytes}
    (h : c ∈ (indexHeader header order).values) :
    canonicalHeaderKey ((indexHeader header order).casingOf c) = c := by
  obtain ⟨e, he, hkey⟩ := mem_indexHeader.mp h
  have hin : e ∈ (header.range order).filter fun e => canonicalHeaderKey e.1 = c :=
    mem_filter.mpr ⟨(GoMap.range_perm header order .stored).mem_iff.mpr he, decide_eq_true hkey⟩
  have hlast := getLast_mem (ne_nil_of_mem hin)
  rw [indexHeader, foldl_add_casingOf, getLast?_eq_some_getLast (ne_nil_of_mem hin)]
  exact of_decide_eq_true (mem_filter.mp hlast).2

/-! ### Every key is written once -/

theorem lookup_foldl_insert_true (names : List Bytes) : ∀ (set : GoMap Bytes Bool) (c : Bytes),
    (names.foldl (fun set name => set.insert name true) set).lookup c
      = if c ∈ names then some true else set.lookup c := by
  induction names with
  | nil => intro set c; simp
  | cons name names ih =>
    intro set c
    rw [foldl_cons, ih]
    by_cases hc : c = name
    · subst hc
      simp
    · simp [hc, AList.lookup_insert_ne hc]

/-- What is in the set `present`. -/
def Present (values : GoMap Bytes (List Bytes)) (host c : Bytes) : Prop :=
  c ∈ values ∨ (host ≠ [] ∧ c = ascii "Host")

theorem lookup_presentNames (values : GoMap Bytes (List Bytes)) (host c : Bytes) :
    (Present values host c ∧ (presentNames values host).lookup c = some true) ∨
      (¬Present values host c ∧ (presentNames values host).lookup c = none) := by
  have hkeys : c ∈ values.keys ↔ c ∈ values := Iff.rfl
  have hbase := lookup_foldl_insert_true values.keys ∅ c
  unfold presentNames
  by_cases hhost : host = []
  · by_cases hc : c ∈ values
    · exact .inl ⟨.inl hc, by simpa [hhost, hkeys, hc] using hbase⟩
    · exact .inr ⟨by simp [Present, hhost, hc], by simpa [hhost, hkeys, hc] using hbase⟩
  · by_cases hname : c = ascii "Host"
    · subst hname
      exact .inl ⟨.inr ⟨hhost, rfl⟩, by simp [hhost]⟩
    · by_cases hc : c ∈ values
      · refine .inl ⟨.inl hc, ?_⟩
        simpa [hhost, AList.lookup_insert_ne hname, hkeys, hc] using hbase
      · refine .inr ⟨by simp [Present, hname, hc], ?_⟩
        simpa [hhost, AList.lookup_insert_ne hname, hkeys, hc] using hbase

theorem has_presentNames (values : GoMap Bytes (List Bytes)) (host c : Bytes) :
    has (presentNames values host) c = true ↔ Present values host c := by
  rcases lookup_presentNames values host c with ⟨h, hlookup⟩ | ⟨h, hlookup⟩ <;>
    simp [has, hlookup, h]

theorem mem_range_presentNames (values : GoMap Bytes (List Bytes)) (host c : Bytes)
    (order : MapOrder) :
    c ∈ ((presentNames values host).range order).map Prod.fst ↔ Present values host c := by
  rw [mem_map]
  rcases lookup_presentNames values host c with ⟨h, hlookup⟩ | ⟨h, hlookup⟩
  · exact ⟨fun _ => h, fun _ => ⟨(c, true), GoMap.mem_range.mpr hlookup, rfl⟩⟩
  · refine ⟨fun hex => ?_, fun hp => absurd hp h⟩
    obtain ⟨⟨c', b⟩, hmem, rfl⟩ := hex
    rw [GoMap.mem_range.mp hmem] at hlookup
    cases hlookup

/-- An order has one slot for the rest, and no header twice. -/
structure OrderOk (order : List Bytes) : Prop where
  slot : order.count [] = 1
  nodup : ((order.filter (· ≠ [])).map canonicalHeaderKey).Nodup

theorem chromeHTTP1OrderFor_ok (present : GoMap Bytes Bool) :
    OrderOk (chromeHTTP1OrderFor present) := by
  unfold chromeHTTP1OrderFor
  split_ifs with h
  · exact ⟨by decide +kernel, by decide +kernel⟩
  · exact ⟨by decide +kernel, by decide +kernel⟩

theorem flatMap_order_perm (rest : List Bytes) (keep : Bytes → Bool) (order : List Bytes) :
    (order.flatMap fun name => if name = [] then rest else if keep name then [name] else []).Perm
      ((order.filter (· ≠ [])).filter keep ++ (List.replicate (order.count []) rest).flatten) := by
  induction order with
  | nil => exact .refl _
  | cons name order ih =>
    by_cases hname : name = []
    · subst hname
      simp only [flatMap_cons, if_pos, ne_eq, not_true_eq_false, decide_false,
        Bool.false_eq_true, not_false_eq_true, filter_cons_of_neg, count_cons_self,
        replicate_succ, flatten_cons]
      refine (ih.append_left rest).trans ?_
      rw [← append_assoc, ← append_assoc]
      exact perm_append_comm.append_right _
    · have hcount : (name :: order).count [] = order.count [] := count_cons_of_ne hname
      rw [hcount, flatMap_cons, if_neg hname, filter_cons_of_pos (by simpa using hname)]
      split_ifs with hkeep
      · rw [filter_cons_of_pos hkeep]
        exact ih.cons name
      · rw [filter_cons_of_neg hkeep]
        exact ih

theorem placed_iff {order : List Bytes} {c : Bytes} :
    placed order c = true ↔ c ∈ (order.filter (· ≠ [])).map canonicalHeaderKey := by
  simp only [placed, any_eq_true, Bool.and_eq_true, bne_iff_ne, beq_iff_eq, mem_map,
    mem_filter, decide_eq_true_eq, and_assoc]

/-- Both orders have a place for `Host`. -/
theorem placed_host (present : GoMap Bytes Bool) :
    placed (chromeHTTP1OrderFor present) (ascii "Host") = true := by
  rw [chromeHTTP1OrderFor]
  split
  · decide
  · decide

theorem of_mem_unplaced {values : GoMap Bytes (List Bytes)} {host : Bytes} {rangeOrder : MapOrder}
    {c : Bytes}
    (h : c ∈ (((presentNames values host).range rangeOrder).map Prod.fst).filter fun name =>
      !placed (chromeHTTP1OrderFor (presentNames values host)) name) :
    c ∈ values ∧ placed (chromeHTTP1OrderFor (presentNames values host)) c = false := by
  obtain ⟨hc, hplaced⟩ := mem_filter.mp h
  rw [Bool.not_eq_true'] at hplaced
  rcases (mem_range_presentNames _ _ _ _).mp hc with hvalues | ⟨-, rfl⟩
  · exact ⟨hvalues, hplaced⟩
  · rw [placed_host] at hplaced
    cases hplaced

/-- **Every key that is present is written exactly once**, under a name that is
one of its spellings. -/
theorem orderedHeaderNames_perm {index : Index} (host : Bytes) (rangeOrder : MapOrder)
    (hcasing : ∀ c ∈ index.values, canonicalHeaderKey (index.casingOf c) = c) :
    ((orderedHeaderNames index host rangeOrder).map canonicalHeaderKey).Perm
      (((presentNames index.values host).range rangeOrder).map Prod.fst) := by
  obtain ⟨present, hpresent⟩ : ∃ p, presentNames index.values host = p := ⟨_, rfl⟩
  have hok := chromeHTTP1OrderFor_ok present
  obtain ⟨order, horder⟩ : ∃ o, chromeHTTP1OrderFor present = o := ⟨_, rfl⟩
  obtain ⟨keys, hkeys⟩ : ∃ k, (present.range rangeOrder).map Prod.fst = k := ⟨_, rfl⟩
  have hnodup : keys.Nodup := hkeys ▸ GoMap.nodup_keys_range present rangeOrder
  have hmem : ∀ c, c ∈ keys ↔ Present index.values host c := by
    intro c
    rw [← hkeys, ← hpresent]
    exact mem_range_presentNames _ _ _ _
  have hhas : ∀ c, has present c = true ↔ c ∈ keys := by
    intro c
    rw [hmem, ← hpresent]
    exact has_presentNames _ _ _
  rw [horder] at hok
  -- a key without a place has a spelling of its own, since the Host key has a place
  have hspelling : ((keys.filter fun c => !placed order c).map index.casingOf).map
      canonicalHeaderKey = keys.filter fun c => !placed order c := by
    rw [map_map]
    refine (map_congr_left fun c hc => ?_).trans (map_id _)
    rw [← hkeys, ← horder, ← hpresent] at hc
    exact hcasing c (of_mem_unplaced hc).1
  simp only [orderedHeaderNames, hpresent, horder, hkeys]
  refine ((flatMap_order_perm _ (fun name => has present (canonicalHeaderKey name)) order).map
    canonicalHeaderKey).trans ?_
  rw [hok.slot, replicate_one, flatten_singleton, map_append]
  refine (List.Perm.append_left _ ((perm_insertionSort _ _).map _)).trans ?_
  rw [hspelling]
  -- placed and present, then present and not placed: both sides without repetition
  have hleft : (((order.filter (· ≠ [])).filter fun name =>
      has present (canonicalHeaderKey name)).map canonicalHeaderKey)
      = ((order.filter (· ≠ [])).map canonicalHeaderKey).filter (has present) := by
    rw [filter_map]
    rfl
  rw [hleft]
  refine (perm_ext_iff_of_nodup ?_ hnodup).mpr fun c => ?_
  · refine nodup_append.mpr ⟨hok.nodup.filter _, hnodup.filter _, ?_⟩
    rintro a ha b hb rfl
    have hplaced : placed order a = true := placed_iff.mpr (mem_filter.mp ha).1
    have hnot := (mem_filter.mp hb).2
    rw [hplaced] at hnot
    cases hnot
  · rw [mem_append, mem_filter, mem_filter, ← placed_iff, hhas]
    by_cases hp : placed order c = true
    · simp [hp]
    · simp [hp]

/-- The only name written for the `Host` key is the order's own. -/
theorem eq_host_of_mem_names {index : Index} {host : Bytes} {rangeOrder : MapOrder}
    (hcasing : ∀ c ∈ index.values, canonicalHeaderKey (index.casingOf c) = c) {name : Bytes}
    (hmem : name ∈ orderedHeaderNames index host rangeOrder)
    (hname : canonicalHeaderKey name = ascii "Host") : name = ascii "Host" := by
  have htable : ∀ name ∈ chromeHTTP1NavigationHeaderOrder ++ chromeHTTP1HeaderOrder,
      canonicalHeaderKey name = ascii "Host" → name = ascii "Host" := by decide +kernel
  have horder : ∀ present, ∀ name ∈ chromeHTTP1OrderFor present,
      name ∈ chromeHTTP1NavigationHeaderOrder ++ chromeHTTP1HeaderOrder := by
    intro present name h
    unfold chromeHTTP1OrderFor at h
    split_ifs at h
    · exact mem_append_left _ h
    · exact mem_append_right _ h
  simp only [orderedHeaderNames] at hmem
  obtain ⟨slot, hslot, hmem⟩ := mem_flatMap.mp hmem
  by_cases hempty : slot = []
  · -- the names of the slot belong to keys without a place
    rw [if_pos hempty] at hmem
    obtain ⟨c, hc, rfl⟩ := mem_map.mp ((perm_insertionSort _ _).mem_iff.mp hmem)
    obtain ⟨hvalues, hplaced⟩ := of_mem_unplaced hc
    rw [← hcasing c hvalues, hname, placed_host] at hplaced
    cases hplaced
  · rw [if_neg hempty] at hmem
    split_ifs at hmem
    · rw [mem_singleton] at hmem
      subst hmem
      exact htable name (horder _ name hslot) hname
    · cases hmem

end HeadlessClient.Http1
