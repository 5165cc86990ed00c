import HeadlessClient.Http1.HeaderOrder
import HeadlessClient.Wire.LetterCase

/-!
# Http1 — the case of header keys

Header names are compared without regard to case, and a `http.Header` may hold a key in
any spelling. `indexHeader` merges the spellings of a name under its canonical form, which
for a token is determined by its lower case (`canonicalHeaderKey_eq_iff`). `Del`, `Get` and
`Set` do NOT look at the other spellings: they handle the canonical key alone.

So a caller's `connection: close` is not seen by the test for the default, and is then
merged with it. Both are sent. The two ways of reading the map agree iff the keys that the
writer handles by name are spelled in canonical form (`Request.Spelled`), and then another
spelling of the keys changes nothing but the untabled names
(`writeRequest_case_iff`).
-/

namespace HeadlessClient.Http1

open Base Wire List

/-! ## Canonical form and lower case -/

theorem canonicalize_cons (upper : Bool) (c : UInt8) (key : Bytes) :
    canonicalize upper (c :: key) =
      recase upper c :: canonicalize (recase upper c == 45) key := rfl

theorem lowerByte_recase : ∀ (c : UInt8) (upper : Bool), lowerByte (recase upper c) = lowerByte c :=
  forall_byte (by decide +kernel)

theorem recase_lowerByte :
    ∀ (c : UInt8) (upper : Bool), recase upper (lowerByte c) = recase upper c :=
  forall_byte (by decide +kernel)

theorem validHeaderFieldByte_lowerByte :
    ∀ c : UInt8, validHeaderFieldByte (lowerByte c) = validHeaderFieldByte c :=
  forall_byte (by decide +kernel)

theorem lower_canonicalize (key : Bytes) : ∀ upper, lower (canonicalize upper key) = lower key := by
  induction key with
  | nil => intro upper; rfl
  | cons c key ih =>
    intro upper
    rw [canonicalize_cons, lower_cons, lower_cons, lowerByte_recase, ih]

theorem canonicalize_lower (key : Bytes) :
    ∀ upper, canonicalize upper (lower key) = canonicalize upper key := by
  induction key with
  | nil => intro upper; rfl
  | cons c key ih =>
    intro upper
    rw [lower_cons, canonicalize_cons, canonicalize_cons, recase_lowerByte, ih]

/-- A token, the only kind of key with a canonical form of its own. -/
def isToken (key : Bytes) : Bool := key.all validHeaderFieldByte

theorem isToken_lower (key : Bytes) : isToken (lower key) = isToken key := by
  rw [isToken, lower_eq_map, all_map]
  exact congrArg key.all (funext validHeaderFieldByte_lowerByte)

theorem lower_canonicalHeaderKey (key : Bytes) : lower (canonicalHeaderKey key) = lower key := by
  rw [canonicalHeaderKey]
  split
  · exact lower_canonicalize key true
  · rfl

/-- **Among tokens the canonical form says what the lower case says.** -/
theorem canonicalHeaderKey_eq_iff {key name : Bytes} (hname : isToken name = true) :
    canonicalHeaderKey key = canonicalHeaderKey name ↔ lower key = lower name := by
  constructor
  · intro h
    rw [← lower_canonicalHeaderKey key, h, lower_canonicalHeaderKey]
  · intro h
    have hkey : isToken key = true := by rw [← isToken_lower, h, isToken_lower, hname]
    have hvalid : ∀ k : Bytes, isToken k = true → canonicalHeaderKey k = canonicalize true k := by
      intro k hk
      exact if_pos hk
    rw [hvalid key hkey, hvalid name hname, ← canonicalize_lower, h, canonicalize_lower]

/-! ## The spellings of a name -/

/-- The entries whose key is the name in some case. -/
def spelled (header : Header) (order : MapOrder) (name : Bytes) : List (Bytes × List Bytes) :=
  (header.range order).filter fun e => lower e.1 = name

/-- The keys are different names, whatever their case. -/
def CaseDistinct (header : Header) : Prop :=
  ((header.range .stored).map fun e => lower e.1).Nodup

instance (header : Header) : Decidable (CaseDistinct header) :=
  inferInstanceAs (Decidable ((header.range .stored).map fun e => lower e.1).Nodup)

section Spelled

variable {header : Header}

theorem spelled_perm (order order' : MapOrder) (name : Bytes) :
    (spelled header order name).Perm (spelled header order' name) :=
  (GoMap.range_perm header order order').filter _

variable {name key : Bytes} {needed : List Bytes → Bool}

theorem mem_spelled {order : MapOrder} {e : Bytes × List Bytes} :
    e ∈ spelled header order name ↔ e ∈ header.range order ∧ lower e.1 = name := by
  rw [spelled, mem_filter, decide_eq_true_eq]

def AtMostOne {α : Type} (l : List α) : Prop := l = [] ∨ ∃ a, l = [a]

theorem CaseDistinct.atMostOne (h : CaseDistinct header) (name : Bytes) :
    AtMostOne (spelled header .stored name) := by
  cases hspelled : spelled header .stored name with
  | nil => exact .inl rfl
  | cons e rest =>
    have he : e ∈ spelled header .stored name := by
      rw [hspelled]
      exact mem_cons_self
    obtain ⟨hin, rfl⟩ := mem_spelled.mp he
    rw [← hspelled]
    exact .inr ⟨e, filter_key_eq_singleton h hin⟩

theorem spelled_erase_of_ne {key name : Bytes} (h : lower key ≠ name) :
    spelled (header.erase key) .stored name = spelled header .stored name := by
  rw [spelled, GoMap.range_erase, filter_filter]
  apply filter_congr
  intro e _
  by_cases he : lower e.1 = name
  · have hne : e.1 ≠ key := fun heq => h (heq ▸ he)
    simp [he, hne]
  · simp [he]

theorem spelled_insert_of_ne (h : lower key ≠ name) (values : List Bytes) :
    spelled (header.insert key values) .stored name = spelled header .stored name := by
  have herase := @spelled_erase_of_ne header key name h
  rw [spelled, GoMap.range_insert, ← GoMap.range_erase, filter_cons_of_neg (by simpa using h)]
  exact herase

theorem spelled_setDefault_of_ne {value : Bytes} (h : lower key ≠ name) :
    spelled (setDefault needed key value header) .stored name = spelled header .stored name := by
  rw [setDefault]
  split
  · exact spelled_insert_of_ne h _
  · rfl

theorem spelled_setDefault (key value : Bytes) :
    spelled (setDefault needed key value header) .stored (lower key) =
      if needed ((header.lookup key).getD []) then
        (key, [value]) :: (spelled header .stored (lower key)).filter (·.1 ≠ key)
      else spelled header .stored (lower key) := by
  rw [setDefault]
  split
  · rw [spelled, GoMap.range_insert, filter_cons_of_pos (by simp), spelled, filter_filter,
      filter_filter]
    simp only [Bool.and_comm]
  · rfl

theorem lookup_of_spelled :
    (header.lookup key).getD [] =
      ((spelled header .stored (lower key)).filter (·.1 = key)).flatMap Prod.snd := by
  have hkey : (spelled header .stored (lower key)).filter (·.1 = key) =
      (header.range .stored).filter (·.1 = key) := by
    rw [spelled, filter_filter]
    refine filter_congr fun e _ => ?_
    by_cases h : e.1 = key <;> simp [h]
  rw [hkey, GoMap.filter_range]
  cases header.lookup key with
  | none => rfl
  | some values => simp

end Spelled

/-! ## Defaults -/

def defaulted (value : Bytes) (values : List Bytes) : List Bytes :=
  if lacksValue values then [value] else values

/-- The key is in canonical form and its first value tells, or it has no values. -/
def SpelledWell (key : Bytes) (e : Bytes × List Bytes) : Prop :=
  (e.1 = key ∧ FirstTells e.2) ∨ e.2 = []

section Default

variable {header : Header} {key value : Bytes}
  (hone : AtMostOne (spelled header .stored (lower key)))
include hone

/-- The spellings of a name after its default was set: the default alone, or in the place of
the caller's values, or NEXT TO them if the caller spelled the name in another way. -/
theorem spelled_default_cases :
    (spelled header .stored (lower key) = [] ∧
        spelled (setDefault firstEmpty key value header) .stored (lower key) = [(key, [value])]) ∨
      ∃ e, spelled header .stored (lower key) = [e] ∧
        ((e.1 = key ∧ spelled (setDefault firstEmpty key value header) .stored (lower key) =
            [(key, if firstEmpty e.2 then [value] else e.2)]) ∨
          (e.1 ≠ key ∧ spelled (setDefault firstEmpty key value header) .stored (lower key) =
            [(key, [value]), e])) := by
  rw [spelled_setDefault, lookup_of_spelled]
  rcases hone with hnil | ⟨e, he⟩
  · rw [hnil]
    exact .inl ⟨rfl, rfl⟩
  · rw [he]
    refine .inr ⟨e, rfl, ?_⟩
    by_cases hkey : e.1 = key
    · refine .inl ⟨hkey, ?_⟩
      rw [filter_cons_of_pos (by simpa using hkey), filter_cons_of_neg (by simp [hkey]),
        filter_nil, filter_nil, flatMap_singleton]
      split
      · rfl
      · rw [← hkey]
    · refine .inr ⟨hkey, ?_⟩
      rw [filter_cons_of_neg (by simpa using hkey),
        filter_cons_of_pos (by simpa using hkey), filter_nil]
      rfl

theorem values_of_spelledWell (h : ∀ e ∈ spelled header .stored (lower key), SpelledWell key e)
    {l : List (Bytes × List Bytes)}
    (hl : l.Perm (spelled (setDefault firstEmpty key value header) .stored (lower key))) :
    l.flatMap Prod.snd =
      defaulted value ((spelled header .stored (lower key)).flatMap Prod.snd) := by
  rcases spelled_default_cases hone with ⟨hold, hnew⟩ | ⟨e, hold, ⟨hkey, hnew⟩ | ⟨hkey, hnew⟩⟩
  · rw [hnew] at hl
    rw [perm_singleton.mp hl, hold]
    rfl
  · have htells : FirstTells e.2 := by
      rcases h e (hold ▸ mem_singleton_self e) with ⟨-, htells⟩ | hempty
      · exact htells
      · rw [hempty]
        rfl
    rw [hnew, show firstEmpty e.2 = lacksValue e.2 from htells] at hl
    rw [perm_singleton.mp hl, hold, flatMap_singleton, flatMap_singleton, defaulted]
  · -- another spelling, without values
    have hempty : e.2 = [] :=
      (h e (hold ▸ mem_singleton_self e)).resolve_left fun hw => hkey hw.1
    rw [hnew] at hl
    have hperm := hl.flatMap_right Prod.snd
    rw [flatMap_cons, flatMap_singleton, hempty, append_nil] at hperm
    rw [perm_singleton.mp hperm, hold, flatMap_singleton, hempty]
    rfl

theorem spelledWell_of_values
    (h : (spelled (setDefault firstEmpty key value header) .stored (lower key)).flatMap Prod.snd =
      defaulted value ((spelled header .stored (lower key)).flatMap Prod.snd)) :
    ∀ e ∈ spelled header .stored (lower key), SpelledWell key e := by
  rcases spelled_default_cases hone with ⟨hold, -⟩ | ⟨e, hold, ⟨hkey, hnew⟩ | ⟨hkey, hnew⟩⟩
  · rw [hold]
    intro e he
    cases he
  · rw [hnew, hold, flatMap_singleton, flatMap_singleton, defaulted] at h
    intro e' he'
    rw [hold] at he'
    rw [mem_singleton.mp he']
    rcases firstTells_or e.2 with htells | ⟨hfirst, hlacks, htwo⟩
    · exact .inl ⟨hkey, htells⟩
    · exfalso
      rw [hfirst, hlacks] at h
      have hlength : [value].length = e.2.length := congrArg List.length h
      rw [length_singleton] at hlength
      omega
  · -- one value more than the caller's is not one and not the caller's
    rw [hnew, hold, flatMap_cons, flatMap_singleton, defaulted] at h
    intro e' he'
    rw [hold] at he'
    rw [mem_singleton.mp he']
    have hlength := congrArg List.length h
    refine .inr (eq_nil_of_length_eq_zero ?_)
    split at hlength
    · simp only [length_append, length_singleton] at hlength
      omega
    · simp only [length_append, length_singleton] at hlength
      omega

end Default

/-! ## The header that is sent -/

section SentHeader

variable {request : Request}

theorem spelled_sent_connection :
    spelled request.sentHeader .stored (lower (ascii "Connection")) =
      spelled (request.keepAlive firstEmpty) .stored (lower (ascii "Connection")) := by
  rw [sentHeader_eq, Request.headerWith]
  split
  · exact spelled_setDefault_of_ne (by decide)
  · rfl

theorem spelled_sent_contentLength (hpos : request.contentLength > 0) :
    spelled request.sentHeader .stored (lower (ascii "Content-Length")) =
      spelled (setDefault firstEmpty (ascii "Content-Length") (decimal request.contentLength.toNat)
        (request.keepAlive firstEmpty)) .stored (lower (ascii "Content-Length")) := by
  rw [sentHeader_eq, Request.headerWith, if_pos hpos]

theorem spelled_sent_priority :
    spelled request.sentHeader .stored (lower (ascii "Priority")) =
      (spelled request.header .stored (lower (ascii "Priority"))).filter
        (·.1 ≠ ascii "Priority") := by
  have herased : spelled (request.header.erase (ascii "Priority")) .stored
      (lower (ascii "Priority")) =
        (spelled request.header .stored (lower (ascii "Priority"))).filter
        (·.1 ≠ ascii "Priority") := by
    rw [spelled, GoMap.range_erase, spelled, filter_filter, filter_filter]
    simp only [Bool.and_comm]
  rw [sentHeader_eq, Request.headerWith, ← herased]
  split
  · rw [spelled_setDefault_of_ne (by decide), Request.keepAlive,
      spelled_setDefault_of_ne (by decide)]
  · rw [Request.keepAlive, spelled_setDefault_of_ne (by decide)]

/-- The name is one that the writer handles. -/
def Request.Handles (request : Request) (name : Bytes) : Prop :=
  name = lower (ascii "Priority") ∨ name = lower (ascii "Connection") ∨
    (name = lower (ascii "Content-Length") ∧ request.contentLength > 0)

theorem not_handles {name : Bytes} (h : name ∉ specialNames.map lower) :
    ¬request.Handles name := by
  intro hname
  rcases hname with rfl | rfl | ⟨rfl, -⟩
  · exact h (by decide)
  · exact h (by decide)
  · exact h (by decide)

theorem spelled_keepAlive {name : Bytes} (hpriority : name ≠ lower (ascii "Priority"))
    (hconnection : name ≠ lower (ascii "Connection")) :
    spelled (request.keepAlive firstEmpty) .stored name = spelled request.header .stored name := by
  rw [Request.keepAlive, spelled_setDefault_of_ne hconnection.symm,
    spelled_erase_of_ne hpriority.symm]

theorem spelled_sent_of_not_handles {name : Bytes} (h : ¬request.Handles name) :
    spelled request.sentHeader .stored name = spelled request.header .stored name := by
  simp only [Request.Handles, not_or, not_and] at h
  obtain ⟨hpriority, hconnection, hlength⟩ := h
  rw [sentHeader_eq, Request.headerWith, ← spelled_keepAlive hpriority hconnection]
  split
  · rename_i hpos
    rw [spelled_setDefault_of_ne fun heq => hlength heq.symm hpos]
  · rfl

end SentHeader

/-- The caller's values of a name, in whatever case. -/
def Request.callerValues (request : Request) (name : Bytes) : List Bytes :=
  (spelled request.header .stored name).flatMap Prod.snd

/-- What should be sent under a name, whatever the case of the keys. -/
def Request.wantedValues (request : Request) (name : Bytes) : List Bytes :=
  if name = lower (ascii "Priority") then []
  else if name = lower (ascii "Connection") then
    defaulted (ascii "keep-alive") (request.callerValues name)
  else if name = lower (ascii "Content-Length") ∧ request.contentLength > 0 then
    defaulted (decimal request.contentLength.toNat) (request.callerValues name)
  else request.callerValues name

/-- The keys that the writer handles by name are spelled in canonical form, and their first
value tells; or they have no values. -/
structure Request.Spelled (request : Request) : Prop where
  priority : ∀ e ∈ spelled request.header .stored (lower (ascii "Priority")),
    e.1 = ascii "Priority" ∨ e.2 = []
  connection : ∀ e ∈ spelled request.header .stored (lower (ascii "Connection")),
    SpelledWell (ascii "Connection") e
  contentLength : request.contentLength > 0 →
    ∀ e ∈ spelled request.header .stored (lower (ascii "Content-Length")),
      SpelledWell (ascii "Content-Length") e

section Wanted

variable {request : Request} (hdistinct : CaseDistinct request.header)
include hdistinct

/-- **With the right spelling every name is sent with the values it should have**, in every
order of the loop. -/
theorem values_sent (h : request.Spelled) {name : Bytes} {l : List (Bytes × List Bytes)}
    (hl : l.Perm (spelled request.sentHeader .stored name)) :
    l.flatMap Prod.snd = request.wantedValues name := by
  rw [Request.wantedValues]
  by_cases hpriority : name = lower (ascii "Priority")
  · subst hpriority
    rw [if_pos rfl, flatMap_eq_nil_iff]
    intro e he
    rw [hl.mem_iff, spelled_sent_priority, mem_filter] at he
    exact (h.priority e he.1).resolve_left (by simpa using he.2)
  rw [if_neg hpriority]
  by_cases hconnection : name = lower (ascii "Connection")
  · subst hconnection
    have hsame := @spelled_erase_of_ne request.header (ascii "Priority")
      (lower (ascii "Connection")) (by decide)
    rw [spelled_sent_connection] at hl
    rw [if_pos rfl, Request.callerValues, ← hsame]
    exact values_of_spelledWell (hsame ▸ hdistinct.atMostOne _) (hsame ▸ h.connection) hl
  rw [if_neg hconnection]
  by_cases hlength : name = lower (ascii "Content-Length") ∧ request.contentLength > 0
  · obtain ⟨rfl, hpos⟩ := hlength
    have hsame := @spelled_keepAlive request _ hpriority hconnection
    rw [spelled_sent_contentLength hpos] at hl
    rw [if_pos ⟨rfl, hpos⟩, Request.callerValues, ← hsame]
    exact values_of_spelledWell (hsame ▸ hdistinct.atMostOne _) (hsame ▸ h.contentLength hpos) hl
  rw [if_neg hlength, Request.callerValues]
  have hother : ¬request.Handles name := by
    simp only [Request.Handles, not_or]
    exact ⟨hpriority, hconnection, hlength⟩
  rw [spelled_sent_of_not_handles hother] at hl
  rcases hdistinct.atMostOne name with hnil | ⟨e, he⟩
  · rw [hnil] at hl ⊢
    rw [perm_nil.mp hl]
  · rw [he] at hl ⊢
    rw [perm_singleton.mp hl]

theorem spelled_of_values (h : ∀ name, request.Handles name →
      (spelled request.sentHeader .stored name).flatMap Prod.snd = request.wantedValues name) :
    request.Spelled := by
  constructor
  · intro e he
    by_cases hkey : e.1 = ascii "Priority"
    · exact .inl hkey
    · have hempty := h _ (.inl rfl)
      rw [Request.wantedValues, if_pos rfl, spelled_sent_priority, flatMap_eq_nil_iff] at hempty
      exact .inr (hempty e (mem_filter.mpr ⟨he, by simpa using hkey⟩))
  · have hsame := @spelled_erase_of_ne request.header (ascii "Priority")
      (lower (ascii "Connection")) (by decide)
    have hvalues := h _ (.inr (.inl rfl))
    rw [Request.wantedValues, if_neg (by decide), if_pos rfl, spelled_sent_connection,
      Request.callerValues, ← hsame] at hvalues
    rw [← hsame]
    exact spelledWell_of_values (hsame ▸ hdistinct.atMostOne _) hvalues
  · intro hpos
    have hsame :=
      @spelled_keepAlive request (lower (ascii "Content-Length")) (by decide) (by decide)
    have hvalues := h _ (.inr (.inr ⟨rfl, hpos⟩))
    rw [Request.wantedValues, if_neg (by decide), if_neg (by decide), if_pos ⟨rfl, hpos⟩,
      spelled_sent_contentLength hpos, Request.callerValues, ← hsame] at hvalues
    rw [← hsame]
    exact spelledWell_of_values (hsame ▸ hdistinct.atMostOne _) hvalues

end Wanted

/-! ## What is written under a name -/

/-- The values on the lines of a name, in whatever case it is written. -/
def Request.valuesSent (request : Request) (orders : Orders) (name : Bytes) : List Bytes :=
  ((request.written orders).filter fun field => lower field.1 = name).map Prod.snd

section Written

variable {request : Request} {orders : Orders}

theorem valuesOf_canonical {name : Bytes} (htoken : isToken name = true) :
    (request.index orders).valuesOf (canonicalHeaderKey name) =
      (spelled request.sentHeader orders.header (lower name)).flatMap Prod.snd := by
  rw [Request.index, valuesOf_indexHeader, spelled]
  have hkeys : (request.sentHeader.range orders.header).filter
      (fun e => canonicalHeaderKey e.1 = canonicalHeaderKey name) =
        (request.sentHeader.range orders.header).filter fun e => lower e.1 = lower name := by
    apply filter_congr
    intro e _
    simp only [canonicalHeaderKey_eq_iff htoken]
  rw [hkeys]

theorem filter_lines (name other : Bytes) (values : List Bytes) :
    ((values.map fun value => (name, value)).filter fun field => lower field.1 = other).map
        Prod.snd =
      if lower name = other then values else [] := by
  induction values with
  | nil => simp
  | cons value values ih =>
    by_cases h : lower name = other
    · simpa [h] using ih
    · simp [h]

theorem valuesSent_eq {name : Bytes} (htoken : isToken name = true)
    (hhost : canonicalHeaderKey name ≠ ascii "Host") :
    request.valuesSent orders (lower name) =
      (spelled request.sentHeader orders.header (lower name)).flatMap Prod.snd := by
  rw [← valuesOf_canonical htoken]
  obtain ⟨c, hc⟩ : ∃ c, canonicalHeaderKey name = c := ⟨_, rfl⟩
  rw [hc] at hhost ⊢
  have hlines : request.valuesSent orders (lower name) =
      (((request.names orders).filter (· ≠ ascii "Host")).filter
        (canonicalHeaderKey · = c)).flatMap fun _ => (request.index orders).valuesOf c := by
    rw [Request.valuesSent, Request.written]
    induction (request.names orders).filter (· ≠ ascii "Host") with
    | nil => rfl
    | cons n rest ih =>
      rw [flatMap_cons, filter_append, map_append, ih, Request.linesOf, filter_lines]
      have hkey : lower n = lower name ↔ canonicalHeaderKey n = c := by
        rw [← hc]
        exact (canonicalHeaderKey_eq_iff htoken).symm
      by_cases hn : canonicalHeaderKey n = c
      · rw [filter_cons_of_pos (by simpa using hn), flatMap_cons]
        rw [if_pos (hkey.mpr hn), hn]
      · rw [filter_cons_of_neg (by simpa using hn), if_neg fun heq => hn (hkey.mp heq),
          nil_append]
  have hnodup : (((request.names orders).filter (· ≠ ascii "Host")).map canonicalHeaderKey).Nodup :=
    (filter_sublist.map _).nodup (nodup_map_names request orders)
  rw [hlines]
  by_cases hin : c ∈ ((request.names orders).filter (· ≠ ascii "Host")).map canonicalHeaderKey
  · obtain ⟨n, hn, rfl⟩ := mem_map.mp hin
    rw [filter_key_eq_singleton hnodup hn, flatMap_singleton]
  · have hnone : ((request.names orders).filter (· ≠ ascii "Host")).filter
        (canonicalHeaderKey · = c) = [] := by
      rw [filter_eq_nil_iff]
      intro n hn heq
      exact hin (mem_map.mpr ⟨n, hn, of_decide_eq_true heq⟩)
    have habsent : c ∉ (request.index orders).values := by
      intro hvalues
      have hpresent : c ∈ (request.names orders).map canonicalHeaderKey := by
        rw [(names_perm request orders).mem_iff, mem_range_presentNames]
        exact .inl hvalues
      obtain ⟨n, hn, rfl⟩ := mem_map.mp hpresent
      have hne : n ≠ ascii "Host" := by
        intro heq
        rw [heq] at hhost
        exact hhost (by decide)
      exact hin (mem_map_of_mem (mem_filter.mpr ⟨hn, by simpa using hne⟩))
    rw [hnone, Index.valuesOf_absent habsent]
    rfl

end Written

/-- **The defaults are case-blind**: no line for `Priority`, and under the two names with a
default either that alone or the caller's values alone, by what ALL the caller's values are. -/
structure Request.Defaults (request : Request) : Prop where
  priority : ∀ orders, request.valuesSent orders (lower (ascii "Priority")) = []
  connection : ∀ orders, request.valuesSent orders (lower (ascii "Connection")) =
    defaulted (ascii "keep-alive") (request.callerValues (lower (ascii "Connection")))
  contentLength : request.contentLength > 0 →
    ∀ orders, request.valuesSent orders (lower (ascii "Content-Length")) =
      defaulted (decimal request.contentLength.toNat)
        (request.callerValues (lower (ascii "Content-Length")))

theorem defaults_iff {request : Request} (hdistinct : CaseDistinct request.header) :
    request.Defaults ↔ request.Spelled := by
  have hvalues : ∀ orders, ∀ name ∈ specialNames, request.valuesSent orders (lower name) =
      (spelled request.sentHeader orders.header (lower name)).flatMap Prod.snd := by
    have htokens : ∀ name ∈ specialNames, isToken name = true ∧
        canonicalHeaderKey name ≠ ascii "Host" := by decide +kernel
    intro orders name hname
    exact valuesSent_eq (htokens name hname).1 (htokens name hname).2
  constructor
  · intro h
    apply spelled_of_values hdistinct
    intro name hname
    rcases hname with rfl | rfl | ⟨rfl, hpos⟩
    · rw [Request.wantedValues, if_pos rfl, ← h.priority storedOrders]
      exact (hvalues storedOrders _ (by decide)).symm
    · rw [Request.wantedValues, if_neg (by decide), if_pos rfl, ← h.connection storedOrders]
      exact (hvalues storedOrders _ (by decide)).symm
    · rw [Request.wantedValues, if_neg (by decide), if_neg (by decide), if_pos ⟨rfl, hpos⟩,
        ← h.contentLength hpos storedOrders]
      exact (hvalues storedOrders _ (by decide)).symm
  · intro h
    constructor
    · intro orders
      rw [hvalues orders _ (by decide), values_sent hdistinct h (spelled_perm _ _ _),
        Request.wantedValues, if_pos rfl]
    · intro orders
      rw [hvalues orders _ (by decide), values_sent hdistinct h (spelled_perm _ _ _),
        Request.wantedValues, if_neg (by decide), if_pos rfl]
    · intro hpos orders
      rw [hvalues orders _ (by decide), values_sent hdistinct h (spelled_perm _ _ _),
        Request.wantedValues, if_neg (by decide), if_neg (by decide), if_pos ⟨rfl, hpos⟩]

/-! ## The parts of the block -/

/-- The lines of names that the table places, from the values each name should have. -/
def tabledLines (wanted : Bytes → List Bytes) (part : List Bytes) : List (Bytes × Bytes) :=
  (part.filter (· ≠ ascii "Host")).flatMap fun name =>
    (wanted (lower name)).map fun value => (name, value)

def Request.gapLines (request : Request) (orders : Orders) : List (Bytes × Bytes) :=
  (((request.index orders).unordered request.hostText orders.present).filter
    (· ≠ ascii "Host")).flatMap (request.linesOf orders)

theorem isToken_tableFor (header : Header) : ∀ name ∈ tableFor header, isToken name = true := by
  rw [tableFor]
  split
  · decide +kernel
  · decide +kernel

theorem mem_table_of_mem_part {order : List Bytes} {name : Bytes}
    (h : name ∈ beforeGap order ∨ name ∈ afterGap order) : name ∈ order := by
  rcases h with h | h
  · exact (List.takeWhile_prefix _).subset h
  · exact (dropWhile_suffix _).subset (mem_of_mem_tail h)

section Parts

variable {request : Request} (orders : Orders)

theorem flatMap_filter_isPresent (part : List Bytes) :
    ((part.filter ((request.index orders).isPresent request.hostText)).filter
        (· ≠ ascii "Host")).flatMap (request.linesOf orders) =
      (part.filter (· ≠ ascii "Host")).flatMap (request.linesOf orders) := by
  induction part with
  | nil => rfl
  | cons name part ih =>
    by_cases hpresent : (request.index orders).isPresent request.hostText name = true
    · rw [filter_cons_of_pos hpresent, filter_cons, filter_cons]
      split
      · rw [flatMap_cons, flatMap_cons, ih]
      · exact ih
    · have habsent : canonicalHeaderKey name ∉ (request.index orders).values := by
        intro hin
        exact hpresent ((has_presentNames _ _ _).mpr (.inl hin))
      rw [filter_cons_of_neg hpresent, ih, filter_cons]
      split
      · rw [flatMap_cons, Request.linesOf, Index.valuesOf_absent habsent]
        rfl
      · rfl

theorem written_eq (hdistinct : CaseDistinct request.header) (h : request.Spelled) :
    request.written orders =
      tabledLines request.wantedValues (beforeGap (tableFor request.sentHeader)) ++
        (request.gapLines orders ++
          tabledLines request.wantedValues (afterGap (tableFor request.sentHeader))) := by
  -- the names of the table are tokens, so the lower case says which values they have
  have hpart : ∀ part : List Bytes, (∀ name ∈ part, name ∈ tableFor request.sentHeader) →
      (part.filter (· ≠ ascii "Host")).flatMap (request.linesOf orders) =
        tabledLines request.wantedValues part := by
    intro part hnames
    apply flatMap_congr
    intro name hname
    have htoken := isToken_tableFor _ name (hnames name (mem_of_mem_filter hname))
    rw [Request.linesOf, valuesOf_canonical htoken, values_sent hdistinct h (spelled_perm _ _ _)]
  rw [Request.written, Request.names, orderedHeaderNames_eq, table_index, filter_append,
    filter_append, flatMap_append, flatMap_append, flatMap_filter_isPresent,
    flatMap_filter_isPresent,
    hpart _ fun name hname => mem_table_of_mem_part (.inl hname),
    hpart _ fun name hname => mem_table_of_mem_part (.inr hname)]
  rfl

theorem gapLines_untabled {field : Bytes × Bytes} (hfield : field ∈ request.gapLines orders) :
    placed (tableFor request.sentHeader) (canonicalHeaderKey field.1) = false := by
  obtain ⟨name, hname, hvalue⟩ := mem_flatMap.mp hfield
  obtain ⟨value, -, rfl⟩ := mem_map.mp hvalue
  have hsorted := (perm_insertionSort _ _).mem_iff.mp (mem_of_mem_filter hname)
  obtain ⟨c, hc, rfl⟩ := mem_map.mp hsorted
  obtain ⟨hvalues, hplaced⟩ := of_mem_unplaced hc
  show placed _ (canonicalHeaderKey ((request.index orders).casingOf c)) = false
  rw [casing_index request orders c hvalues, ← table_index orders]
  exact hplaced

/-- The `Host` line is the first, if there is one. -/
theorem headerLines_written :
    request.headerLines orders =
      (if ascii "Host" ∈ request.names orders then [request.hostLine] else []) ++
        (request.written orders).map fieldLine := by
  have hrest : ∀ names : List Bytes, ascii "Host" ∉ names →
      (names.flatMap fun name => if name = ascii "Host" then [request.hostLine]
        else ((request.index orders).valuesOf (canonicalHeaderKey name)).map fun value =>
          fieldLine (name, value)) =
      ((names.filter (· ≠ ascii "Host")).flatMap (request.linesOf orders)).map fieldLine := by
    intro names hnone
    have hall : names.filter (· ≠ ascii "Host") = names := by
      rw [filter_eq_self]
      intro name hname
      have hne : name ≠ ascii "Host" := fun heq => hnone (heq ▸ hname)
      simpa using hne
    rw [hall, map_flatMap]
    apply flatMap_congr
    intro name hname
    have hne : name ≠ ascii "Host" := fun heq => hnone (heq ▸ hname)
    rw [if_neg hne, Request.linesOf, map_map]
    rfl
  rw [Request.headerLines, Request.written]
  by_cases hhost : ascii "Host" ∈ request.names orders
  · -- then it is the first name of the table
    obtain ⟨names, hnames⟩ : ∃ names, request.names orders = ascii "Host" :: names := by
      have hpresent : (request.index orders).isPresent request.hostText (ascii "Host") = true := by
        rw [Index.isPresent, has_presentNames, ← mem_range_presentNames _ _ _ orders.present,
          ← (names_perm request orders).mem_iff]
        exact mem_map_of_mem hhost
      obtain ⟨rest, hbefore⟩ :=
        tables_host (presentNames (request.index orders).values request.hostText)
      rw [Request.names, orderedHeaderNames_eq]
      rw [show beforeGap ((request.index orders).table request.hostText) = ascii "Host" :: rest from
        hbefore, filter_cons_of_pos hpresent]
      exact ⟨_, rfl⟩
    have hnodup := nodup_names request orders
    rw [hnames, nodup_cons] at hnodup
    rw [if_pos hhost, hnames, flatMap_cons, if_pos rfl, hrest names hnodup.1,
      filter_cons_of_neg (by simp)]
  · rw [if_neg hhost, hrest _ hhost, nil_append]

end Parts

/-! ## Another spelling of the keys -/

/-- A field with its name in lower case. -/
def lowered (field : Bytes × Bytes) : Bytes × Bytes := (lower field.1, field.2)

/-- The two maps have the same names, up to case, with the same values. -/
def RecasedKeys (header header' : Header) : Prop :=
  ((header.range .stored).map fun e => (lower e.1, e.2)).Perm
    ((header'.range .stored).map fun e => (lower e.1, e.2))

/-- **The lines of the two requests are the same, up to the case of untabled names**: the
same lines before and after the gap, and in the gap the same lines in some order, if the
names are read in lower case. -/
def SameLines (request request' : Request) : Prop :=
  ∀ orders orders', ∃ (host : List Bytes) (before gap gap' after : List (Bytes × Bytes)),
    request.headerLines orders = host ++ (before ++ (gap ++ after)).map fieldLine ∧
      request'.headerLines orders' = host ++ (before ++ (gap' ++ after)).map fieldLine ∧
      (gap.map lowered).Perm (gap'.map lowered) ∧
      ∀ field ∈ gap ++ gap',
        placed (tableFor request.sentHeader) (canonicalHeaderKey field.1) = false

theorem count_lowered (entries : List (Bytes × List Bytes)) (name value : Bytes) :
    (entries.flatMap fun e => e.2.map fun v => (lower e.1, v)).count (name, value) =
      ((entries.filter fun e => lower e.1 = name).flatMap Prod.snd).count value := by
  have hone : ∀ (n : Bytes) (values : List Bytes),
      (values.map fun v => (n, v)).count (name, value) =
        if n = name then values.count value else 0 := by
    intro n values
    induction values with
    | nil => simp
    | cons v values ih =>
      rw [map_cons, count_cons, ih, count_cons]
      by_cases hn : n = name
      · simp [hn]
      · simp [hn]
  induction entries with
  | nil => rfl
  | cons e entries ih =>
    rw [flatMap_cons, count_append, ih, hone]
    by_cases he : lower e.1 = name
    · rw [if_pos he, filter_cons_of_pos (by simpa using he), flatMap_cons,
        count_append]
    · rw [if_neg he, filter_cons_of_neg (by simpa using he), Nat.zero_add]

theorem count_written {request : Request} (hdistinct : CaseDistinct request.header)
    (h : request.Spelled) (orders : Orders) (name value : Bytes) :
    ((request.written orders).map lowered).count (name, value) =
      if name = lower (ascii "Host") then 0 else (request.wantedValues name).count value := by
  have hperm := (written_perm request orders).map lowered
  rw [map_map] at hperm
  have hleft : (lowered ∘ fun field : Bytes × Bytes => (canonicalHeaderKey field.1, field.2)) =
      lowered := by
    funext field
    simp only [Function.comp_apply, lowered, lower_canonicalHeaderKey]
  rw [hleft] at hperm
  have hfields : request.fields.map lowered = ((request.sentHeader.range .stored).filter fun e =>
      canonicalHeaderKey e.1 ≠ ascii "Host").flatMap fun e => e.2.map fun v => (lower e.1, v) := by
    rw [Request.fields, map_flatMap]
    apply flatMap_congr
    intro e _
    rw [map_map]
    apply map_congr_left
    intro v _
    simp only [Function.comp_apply, lowered, lower_canonicalHeaderKey]
  rw [hperm.count_eq, hfields, count_lowered, filter_filter]
  have hcanonical : canonicalHeaderKey (ascii "Host") = ascii "Host" := by decide
  have hhost : ∀ key : Bytes, canonicalHeaderKey key = ascii "Host" ↔
      lower key = lower (ascii "Host") := by
    intro key
    have htoken : isToken (ascii "Host") = true := by decide
    have hiff := @canonicalHeaderKey_eq_iff key _ htoken
    rw [hcanonical] at hiff
    exact hiff
  by_cases hname : name = lower (ascii "Host")
  · subst hname
    have hnone : (request.sentHeader.range .stored).filter (fun e =>
        decide (lower e.1 = lower (ascii "Host")) &&
          decide (canonicalHeaderKey e.1 ≠ ascii "Host")) = [] := by
      rw [filter_eq_nil_iff]
      intro e _
      simp [hhost]
    rw [hnone, if_pos rfl]
    rfl
  · have hsame : (request.sentHeader.range .stored).filter (fun e =>
        decide (lower e.1 = name) && decide (canonicalHeaderKey e.1 ≠ ascii "Host")) =
          spelled request.sentHeader .stored name := by
      apply filter_congr
      intro e _
      by_cases he : lower e.1 = name
      · have hne : ¬lower e.1 = lower (ascii "Host") := fun heq => hname (he ▸ heq)
        simp [hhost, he, hname]
      · simp [he]
    rw [hsame, values_sent hdistinct h (.refl _), if_neg hname]

section Recased

variable {request : Request} {header' : Header} (hdistinct : CaseDistinct request.header)
  (hrecased : RecasedKeys request.header header')
include hrecased

theorem RecasedKeys.spelled (name : Bytes) :
    ((spelled request.header .stored name).map Prod.snd).Perm
      ((spelled header' .stored name).map Prod.snd) := by
  have hfilter := (hrecased.filter fun p => decide (p.1 = name)).map Prod.snd
  rw [filter_map, filter_map, map_map, map_map] at hfilter
  exact hfilter

theorem RecasedKeys.present (name : Bytes) :
    Http1.spelled request.header .stored name = [] ↔ Http1.spelled header' .stored name = [] := by
  have hlength := (hrecased.spelled name).length_eq
  rw [length_map, length_map] at hlength
  rw [← length_eq_zero_iff, hlength, length_eq_zero_iff]

include hdistinct

theorem RecasedKeys.caseDistinct : CaseDistinct header' := by
  have hnames := hrecased.map Prod.fst
  rw [map_map, map_map] at hnames
  exact hnames.nodup_iff.mp hdistinct

theorem RecasedKeys.callerValues (name : Bytes) :
    request.callerValues name = { request with header := header' }.callerValues name := by
  have hperm := hrecased.spelled name
  rw [Request.callerValues, Request.callerValues, flatMap_def, flatMap_def]
  rcases hdistinct.atMostOne name with hnil | ⟨e, he⟩
  · have hnil' := (hrecased.present name).mp hnil
    rw [hnil, hnil']
  · rw [he, map_singleton] at hperm ⊢
    rw [singleton_perm.mp hperm]

theorem RecasedKeys.wantedValues :
    request.wantedValues = { request with header := header' }.wantedValues := by
  funext name
  rw [Request.wantedValues, Request.wantedValues, hrecased.callerValues hdistinct]

omit hdistinct in
theorem RecasedKeys.sent_present {name : Bytes} (htoken : isToken name = true)
    (hcanonical : canonicalHeaderKey name = name) (hother : ¬request.Handles (lower name)) :
    (∃ e ∈ request.sentHeader.range .stored, canonicalHeaderKey e.1 = name) ↔
      ∃ e ∈ { request with header := header' }.sentHeader.range .stored,
        canonicalHeaderKey e.1 = name := by
  have hspelled : ∀ header : Header, (∃ e ∈ header.range .stored, canonicalHeaderKey e.1 = name) ↔
      Http1.spelled header .stored (lower name) ≠ [] := by
    intro header
    constructor
    · intro h hnil
      obtain ⟨e, he, hkey⟩ := h
      have hin : e ∈ Http1.spelled header .stored (lower name) :=
        mem_spelled.mpr ⟨he, (canonicalHeaderKey_eq_iff htoken).mp (hkey.trans hcanonical.symm)⟩
      rw [hnil] at hin
      cases hin
    · intro h
      obtain ⟨e, he⟩ := exists_mem_of_ne_nil _ h
      obtain ⟨hin, hlower⟩ := mem_spelled.mp he
      exact ⟨e, hin, ((canonicalHeaderKey_eq_iff htoken).mpr hlower).trans hcanonical⟩
  rw [hspelled, hspelled, spelled_sent_of_not_handles hother,
    @spelled_sent_of_not_handles { request with header := header' } _ hother]
  exact not_congr (hrecased.present _)

omit hdistinct in
theorem RecasedKeys.tableFor :
    tableFor request.sentHeader = tableFor { request with header := header' }.sentHeader := by
  have htoken : isToken (ascii "Upgrade-Insecure-Requests") = true := by decide
  have hiff := hrecased.sent_present htoken (by decide) (not_handles (by decide))
  rw [Http1.tableFor, Http1.tableFor]
  simp only [any_eq_true, decide_eq_true_eq, hiff]

omit hdistinct in
theorem RecasedKeys.host_mem_names (orders orders' : Orders) :
    ascii "Host" ∈ request.names orders ↔
      ascii "Host" ∈ { request with header := header' }.names orders' := by
  have htoken : isToken (ascii "Host") = true := by decide
  have hiff := hrecased.sent_present htoken (by decide) (not_handles (by decide))
  rw [Http1.host_mem_names, Http1.host_mem_names, Request.HasHost, Request.HasHost, hiff]
  exact Iff.rfl

/-- **Rightly spelled requests with the same names have the same lines.** -/
theorem RecasedKeys.sameLines (h : request.Spelled)
    (h' : { request with header := header' }.Spelled) :
    SameLines request { request with header := header' } := by
  have hdistinct' := hrecased.caseDistinct hdistinct
  have htable := hrecased.tableFor
  have hwanted := hrecased.wantedValues hdistinct
  intro orders orders'
  have hlines := @headerLines_written request orders
  have hlines' := @headerLines_written { request with header := header' } orders'
  have hwritten := written_eq orders hdistinct h
  have hwritten' := written_eq orders' hdistinct' h'
  rw [← htable, ← hwanted] at hwritten'
  refine ⟨_, _, request.gapLines orders, { request with header := header' }.gapLines orders', _,
    hwritten ▸ hlines, ?_, ?_, ?_⟩
  · rw [hlines', hwritten']
    simp only [hrecased.host_mem_names orders orders']
    rfl
  · -- the same lines in all, and the same before and after the gap
    have hall : ((request.written orders).map lowered).Perm
        (({ request with header := header' }.written orders').map lowered) := by
      rw [perm_iff_count]
      intro field
      obtain ⟨name, value⟩ := field
      rw [count_written hdistinct h, count_written hdistinct' h', hwanted]
    rw [hwritten, hwritten', map_append, map_append, map_append, map_append,
      perm_append_left_iff, perm_append_right_iff] at hall
    exact hall
  · intro field hfield
    rcases mem_append.mp hfield with hin | hin
    · exact gapLines_untabled orders hin
    · rw [htable]
      exact gapLines_untabled orders' hin

end Recased

/-- **The case of the keys does not matter iff the handled ones are in canonical form.** For
every request and every other spelling of its keys, with names that are distinct up to case. -/
theorem writeRequest_case_iff (request : Request) (header' : Header)
    (hdistinct : CaseDistinct request.header) (hrecased : RecasedKeys request.header header') :
    (SameLines request { request with header := header' } ∧ request.Defaults ∧
        { request with header := header' }.Defaults) ↔
      request.Spelled ∧ { request with header := header' }.Spelled := by
  have hdefaults := defaults_iff hdistinct
  have hdefaults' := @defaults_iff { request with header := header' }
    (hrecased.caseDistinct hdistinct)
  rw [hdefaults, hdefaults']
  constructor
  · intro h
    exact h.2
  · intro h
    exact ⟨hrecased.sameLines hdistinct h.1 h.2, h⟩

theorem writeRequest_case_several :
    SameLines (severalRequest id) (severalRequest lower) ∧ (severalRequest id).Defaults ∧
      (severalRequest lower).Defaults := by
  have hspelled : ∀ spell ∈ [id, lower], (severalRequest spell).Spelled := by
    intro spell hspell
    have hnone : ∀ spell ∈ [id, lower], ∀ name ∈ specialNames,
        spelled (severalHeaders spell) .stored (lower name) = [] := by decide +kernel
    have hall : ∀ name ∈ specialNames, ∀ p : Bytes × List Bytes → Prop,
        ∀ e ∈ spelled (severalHeaders spell) .stored (lower name), p e := by
      intro name hname p
      rw [hnone spell hspell name hname]
      exact forall_mem_nil p
    exact ⟨hall _ (by decide) _, hall _ (by decide) _, fun _ => hall _ (by decide) _⟩
  refine (writeRequest_case_iff (severalRequest id) (severalHeaders lower) (by decide +kernel)
    (.of_eq (by decide +kernel))).mpr ⟨hspelled id (by simp), hspelled lower (by simp)⟩

/-- **`connection: close` is sent next to the default.** Spelled `Connection` it is not. -/
theorem writeRequest_case_both_sent :
    (getRequest (ascii "connection") (ascii "close")).headerLines storedOrders =
        ["Host: a", "Connection: keep-alive", "Connection: close"].map ascii ∧
      (getRequest (ascii "Connection") (ascii "close")).headerLines storedOrders =
        ["Host: a", "Connection: close"].map ascii ∧
      ¬∀ (request : Request) (header' : Header), CaseDistinct request.header →
        RecasedKeys request.header header' →
        SameLines request { request with header := header' } ∧ request.Defaults ∧
          { request with header := header' }.Defaults := by
  refine ⟨by decide +kernel, by decide +kernel, ?_⟩
  intro h
  have hdistinct : CaseDistinct (getRequest (ascii "connection") (ascii "close")).header := by
    decide +kernel
  have hspelled := (defaults_iff hdistinct).mp (h _ _ hdistinct (.refl _)).2.1
  have hwell := hspelled.connection (ascii "connection", [ascii "close"])
    (mem_spelled.mpr ⟨by decide +kernel, by decide⟩)
  rcases hwell with ⟨hkey, -⟩ | hempty
  · exact absurd hkey (by decide)
  · cases hempty

end HeadlessClient.Http1
