import HeadlessClient.Http1.Request

/-!
# Http1 — the order of the header block

The lines between the request line and the empty line. `orderedHeaderNames` walks one of
two tables; each has one empty name, the GAP, where the headers without a place go. So a
block has three parts: what the table places before the gap, the untabled headers sorted
by the caller's spelling, and what the table places after it (`orderedHeaderNames_eq`).

For header maps whose keys are different headers this says everything about the lines of
the map that is SENT (`headerLines_arranged`), and they do not depend on the order of the
map's loops (`headerLines_congr`). What is sent is what was asked for iff `Get`, which
looks at the first value only, tells whether a default is needed
(`writeRequest_order_iff`).
-/

namespace HeadlessClient.Http1

open Base Wire List

/-! ## The gap of a table -/

def beforeGap (order : List Bytes) : List Bytes := order.takeWhile (· ≠ [])

def afterGap (order : List Bytes) : List Bytes := (order.dropWhile (· ≠ [])).tail

theorem flatMap_of_no_gap (rest : List Bytes) (keep : Bytes → Bool) {part : List Bytes}
    (h : [] ∉ part) :
    (part.flatMap fun name => if name = [] then rest else if keep name then [name] else []) =
      part.filter keep := by
  induction part with
  | nil => rfl
  | cons name part ih =>
    have hname : name ≠ [] := fun heq => h (heq ▸ mem_cons_self)
    have hpart : [] ∉ part := fun hin => h (mem_cons_of_mem _ hin)
    rw [flatMap_cons, if_neg hname, ih hpart, filter_cons]
    split
    · rfl
    · rfl

theorem nil_notMem_beforeGap (order : List Bytes) : [] ∉ beforeGap order := by
  intro h
  have hall := all_eq_true.mp (all_takeWhile (p := fun name : Bytes => name ≠ [])) [] h
  simp at hall

theorem order_split {order : List Bytes} (h : order.count [] = 1) :
    order = beforeGap order ++ [] :: afterGap order ∧ [] ∉ afterGap order := by
  induction order with
  | nil => cases h
  | cons name order ih =>
    by_cases hname : name = []
    · subst hname
      rw [count_cons_self, Nat.add_eq_right, count_eq_zero] at h
      exact ⟨rfl, h⟩
    · rw [count_cons_of_ne hname] at h
      obtain ⟨hsplit, hafter⟩ := ih h
      have htake : beforeGap (name :: order) = name :: beforeGap order := by
        simp [beforeGap, hname]
      have hdrop : afterGap (name :: order) = afterGap order := by
        simp [afterGap, hname]
      rw [htake, hdrop]
      exact ⟨congrArg (name :: ·) hsplit, hafter⟩

namespace Index

variable (index : Index) (host : Bytes)

/-- The table that is walked. -/
def table : List Bytes := chromeHTTP1OrderFor (presentNames index.values host)

def isPresent (name : Bytes) : Bool :=
  has (presentNames index.values host) (canonicalHeaderKey name)

def unplaced (rangeOrder : MapOrder) : List Bytes :=
  (((presentNames index.values host).range rangeOrder).map Prod.fst).filter
    fun name => !placed (index.table host) name

/-- The local `unordered`, sorted. -/
def unordered (rangeOrder : MapOrder) : List Bytes :=
  ((index.unplaced host rangeOrder).map index.casingOf).insertionSort (· ≤ ·)

end Index

/-- **The three parts of the names.** -/
theorem orderedHeaderNames_eq (index : Index) (host : Bytes) (rangeOrder : MapOrder) :
    orderedHeaderNames index host rangeOrder =
      (beforeGap (index.table host)).filter (index.isPresent host) ++
        (index.unordered host rangeOrder ++
          (afterGap (index.table host)).filter (index.isPresent host)) := by
  have hok : OrderOk (index.table host) := chromeHTTP1OrderFor_ok _
  obtain ⟨hsplit, hafter⟩ := order_split hok.slot
  have hnames : orderedHeaderNames index host rangeOrder =
      (index.table host).flatMap fun name => if name = [] then index.unordered host rangeOrder
        else if index.isPresent host name then [name] else [] := rfl
  rw [hnames]
  conv_lhs => rw [hsplit]
  rw [flatMap_append, flatMap_cons, if_pos rfl,
    flatMap_of_no_gap _ _ (nil_notMem_beforeGap _), flatMap_of_no_gap _ _ hafter]

/-! ## Maps of different headers -/

/-- The keys of the map are different headers. -/
def Distinct (header : Header) : Prop :=
  ((header.range .stored).map fun e => canonicalHeaderKey e.1).Nodup

instance (header : Header) : Decidable (Distinct header) :=
  inferInstanceAs (Decidable ((header.range .stored).map fun e => canonicalHeaderKey e.1).Nodup)

section Distinct

variable {header : Header} (hdistinct : Distinct header)
include hdistinct

theorem Distinct.range (order : MapOrder) :
    ((header.range order).map fun e => canonicalHeaderKey e.1).Nodup :=
  ((GoMap.range_perm header order .stored).map _).nodup_iff.mpr hdistinct

variable {e : Bytes × List Bytes}

theorem Distinct.filter_eq {order : MapOrder} (he : e ∈ header.range order) :
    ((header.range order).filter fun e' => canonicalHeaderKey e'.1 = canonicalHeaderKey e.1) =
      [e] :=
  filter_key_eq_singleton (hdistinct.range order) he

theorem Distinct.valuesOf {order : MapOrder} (he : e ∈ header.range .stored) :
    (indexHeader header order).valuesOf (canonicalHeaderKey e.1) = e.2 := by
  have hin : e ∈ header.range order := (GoMap.range_perm header order .stored).mem_iff.mpr he
  rw [valuesOf_indexHeader, hdistinct.filter_eq hin, flatMap_singleton]

theorem Distinct.valuesOf_congr (order order' : MapOrder) (c : Bytes) :
    (indexHeader header order).valuesOf c = (indexHeader header order').valuesOf c := by
  by_cases hin : ∃ e ∈ header.range .stored, canonicalHeaderKey e.1 = c
  · obtain ⟨e, he, rfl⟩ := hin
    rw [hdistinct.valuesOf he, hdistinct.valuesOf he]
  · have hnone : ∀ order : MapOrder, (indexHeader header order).valuesOf c = [] :=
      fun order => Index.valuesOf_absent fun hmem => hin (mem_indexHeader.mp hmem)
    rw [hnone, hnone]

end Distinct

variable {header : Header} {request : Request} {key : Bytes}

theorem Distinct.casingOf (hdistinct : Distinct header) {order : MapOrder} {e : Bytes × List Bytes}
    (he : e ∈ header.range .stored) :
    (indexHeader header order).casingOf (canonicalHeaderKey e.1) = e.1 := by
  have hin : e ∈ header.range order := (GoMap.range_perm header order .stored).mem_iff.mpr he
  rw [indexHeader, foldl_add_casingOf, hdistinct.filter_eq hin]
  rfl

/-! ## Independence of the loops -/

section Loops

variable (header : Header) (host : Bytes)

theorem has_indexHeader (order order' : MapOrder) (c : Bytes) :
    has (presentNames (indexHeader header order).values host) c =
      has (presentNames (indexHeader header order').values host) c := by
  rw [Bool.eq_iff_iff, has_presentNames, has_presentNames, Present, Present, mem_indexHeader,
    mem_indexHeader]

theorem table_indexHeader (order order' : MapOrder) :
    (indexHeader header order).table host = (indexHeader header order').table host := by
  rw [Index.table, Index.table, chromeHTTP1OrderFor, chromeHTTP1OrderFor,
    has_indexHeader header host order order']

theorem isPresent_indexHeader (order order' : MapOrder) :
    (indexHeader header order).isPresent host = (indexHeader header order').isPresent host := by
  funext name
  exact has_indexHeader header host order order' _

variable {header}

theorem unordered_indexHeader (hdistinct : Distinct header)
    (order order' rangeOrder rangeOrder' : MapOrder) :
    (indexHeader header order).unordered host rangeOrder =
      (indexHeader header order').unordered host rangeOrder' := by
  have hnodup : ∀ order rangeOrder,
      ((indexHeader header order).unplaced host rangeOrder).Nodup :=
    fun _ _ => (GoMap.nodup_keys_range _ _).filter _
  have hkeys : ((indexHeader header order).unplaced host rangeOrder).Perm
      ((indexHeader header order').unplaced host rangeOrder') := by
    rw [perm_ext_iff_of_nodup (hnodup _ _) (hnodup _ _)]
    intro c
    rw [Index.unplaced, Index.unplaced, mem_filter, mem_filter, mem_range_presentNames,
      mem_range_presentNames, Present, Present, mem_indexHeader, mem_indexHeader,
      table_indexHeader header host order order']
  have hcasing : ∀ c ∈ (indexHeader header order').unplaced host rangeOrder',
      (indexHeader header order).casingOf c = (indexHeader header order').casingOf c := by
    intro c hc
    obtain ⟨e, he, rfl⟩ := mem_indexHeader.mp (of_mem_unplaced hc).1
    rw [hdistinct.casingOf he, hdistinct.casingOf he]
  have hperm := (hkeys.map (indexHeader header order).casingOf).trans
    (.of_eq (map_congr_left hcasing))
  apply List.Perm.eq_of_pairwise (fun a b _ _ hab hba => List.le_antisymm hab hba)
    (pairwise_insertionSort _ _) (pairwise_insertionSort _ _)
  exact (perm_insertionSort _ _).trans (hperm.trans (perm_insertionSort _ _).symm)

end Loops

theorem names_congr (hdistinct : Distinct request.sentHeader) (orders orders' : Orders) :
    request.names orders = request.names orders' := by
  rw [Request.names, Request.names, orderedHeaderNames_eq, orderedHeaderNames_eq, Request.index,
    Request.index, table_indexHeader _ _ orders.header orders'.header,
    isPresent_indexHeader _ _ orders.header orders'.header,
    unordered_indexHeader request.hostText hdistinct orders.header orders'.header orders.present
      orders'.present]

/-- **The lines do not depend on the loops.** -/
theorem headerLines_congr (hdistinct : Distinct request.sentHeader) (orders orders' : Orders) :
    request.headerLines orders = request.headerLines orders' := by
  rw [Request.headerLines, Request.headerLines, names_congr hdistinct orders orders']
  apply flatMap_congr
  intro name hname
  rw [Request.index, Request.index, hdistinct.valuesOf_congr orders.header orders'.header]

theorem writeRequest_congr (hdistinct : Distinct request.sentHeader) (orders orders' : Orders)
    (writer : Writer) :
    writeRequest orders writer request = writeRequest orders' writer request := by
  rw [writeRequest, writeRequest, Request.head, Request.head,
    headerLines_congr hdistinct orders orders']

/-! ## Arrangements -/

def tableFor (header : Header) : List Bytes :=
  if (header.range .stored).any (canonicalHeaderKey ·.1 = ascii "Upgrade-Insecure-Requests") then
    chromeHTTP1NavigationHeaderOrder
  else chromeHTTP1HeaderOrder

/-- A header block in three parts. A group is a name with all its values. -/
structure Arrangement where
  before : List (Bytes × List Bytes)
  gap : List (Bytes × List Bytes)
  after : List (Bytes × List Bytes)

def Arrangement.groups (a : Arrangement) : List (Bytes × List Bytes) :=
  a.before ++ (a.gap ++ a.after)

/-- The lines of a group, one below the other. -/
def groupLines (group : Bytes × List Bytes) : List Bytes :=
  group.2.map fun value => fieldLine (group.1, value)

/-- Chrome's arrangement of a header map. -/
structure Arrangement.Of (a : Arrangement) (header : Header) : Prop where
  /-- Every header once, with its values in order. -/
  complete : (a.groups.map fun g => (canonicalHeaderKey g.1, g.2)).Perm
    ((header.range .stored).map fun e => (canonicalHeaderKey e.1, e.2))
  /-- Names of the table, in its order and with its spelling. -/
  before : (a.before.map Prod.fst).Sublist (beforeGap (tableFor header))
  after : (a.after.map Prod.fst).Sublist (afterGap (tableFor header))
  /-- The others as the caller spelled them. -/
  gap : ∀ g ∈ a.gap, g ∈ header.range .stored ∧
    placed (tableFor header) (canonicalHeaderKey g.1) = false
  sorted : (a.gap.map Prod.fst).Pairwise (· ≤ ·)
  cookie : ∀ g ∈ a.groups, canonicalHeaderKey g.1 = ascii "Cookie" → a.groups.getLast? = some g

theorem Arrangement.Of.length_lines {a : Arrangement} (h : a.Of header) :
    (a.groups.flatMap groupLines).length = ((header.range .stored).map (·.2.length)).sum := by
  have hcount := (h.complete.map fun g : Bytes × List Bytes => g.2.length).sum_nat
  rw [map_map, map_map] at hcount
  rw [length_flatMap]
  exact (congrArg List.sum (map_congr_left fun g _ => length_map _)).trans hcount

/-! ### The tables -/

theorem tables_host (present : GoMap Bytes Bool) :
    ∃ rest, beforeGap (chromeHTTP1OrderFor present) = ascii "Host" :: rest := by
  rw [chromeHTTP1OrderFor]
  split_ifs
  · exact ⟨_, rfl⟩
  · exact ⟨_, rfl⟩

theorem tables_cookie (present : GoMap Bytes Bool) :
    ∃ rest, afterGap (chromeHTTP1OrderFor present) = rest ++ [ascii "Cookie"] := by
  have hsplit : ∀ order, (afterGap order).getLast? = some (ascii "Cookie") →
      ∃ rest, afterGap order = rest ++ [ascii "Cookie"] := by
    intro order h
    exact ⟨_, (dropLast_append_getLast? _ h).symm⟩
  rw [chromeHTTP1OrderFor]
  split_ifs
  · exact hsplit _ (by decide +kernel)
  · exact hsplit _ (by decide +kernel)

theorem table_eq_tableFor (header : Header) (host : Bytes) (order : MapOrder) :
    (indexHeader header order).table host = tableFor header := by
  have hpresent : has (presentNames (indexHeader header order).values host)
      (ascii "Upgrade-Insecure-Requests") = true ↔ (header.range .stored).any
        (canonicalHeaderKey ·.1 = ascii "Upgrade-Insecure-Requests") = true := by
    rw [has_presentNames, Present, mem_indexHeader, any_eq_true]
    have hne : ¬(host ≠ [] ∧ ascii "Upgrade-Insecure-Requests" = ascii "Host") :=
      fun h => absurd h.2 (by decide)
    simp only [or_iff_left hne, decide_eq_true_eq]
  rw [Index.table, chromeHTTP1OrderFor, tableFor]
  by_cases h : (header.range .stored).any
      (canonicalHeaderKey ·.1 = ascii "Upgrade-Insecure-Requests") = true
  · rw [if_pos h, if_pos (hpresent.mpr h)]
  · rw [if_neg h, if_neg fun hhas => h (hpresent.mp hhas)]

/-! ### The lines that are sent -/

section Sent

variable {request : Request} (orders : Orders)

/-- A name with the values it is written with. -/
def Request.group (request : Request) (orders : Orders) (name : Bytes) : Bytes × List Bytes :=
  (name, (request.index orders).valuesOf (canonicalHeaderKey name))

/-- What is written after the `Host` line. -/
def Request.arrangement (request : Request) (orders : Orders) : Arrangement where
  before := ((beforeGap (tableFor request.sentHeader)).tail.filter
    ((request.index orders).isPresent request.hostText)).map (request.group orders)
  gap := ((request.index orders).unordered request.hostText orders.present).map
    (request.group orders)
  after := ((afterGap (tableFor request.sentHeader)).filter
    ((request.index orders).isPresent request.hostText)).map (request.group orders)

theorem table_index : (request.index orders).table request.hostText = tableFor request.sentHeader :=
  table_eq_tableFor _ _ _

theorem names_eq_host_cons (hhost : request.hostText ≠ []) :
    request.names orders = ascii "Host" :: (request.arrangement orders).groups.map Prod.fst := by
  obtain ⟨rest, hrest⟩ := tables_host (presentNames (request.index orders).values request.hostText)
  have hbefore : beforeGap (tableFor request.sentHeader) = ascii "Host" :: rest := by
    rw [← table_index orders]
    exact hrest
  have hcanonical : canonicalHeaderKey (ascii "Host") = ascii "Host" := by decide
  have hpresent : (request.index orders).isPresent request.hostText (ascii "Host") = true := by
    rw [Index.isPresent, hcanonical, has_presentNames]
    exact .inr ⟨hhost, rfl⟩
  rw [Request.names, orderedHeaderNames_eq, table_index]
  simp only [Arrangement.groups, Request.arrangement, map_append, map_map]
  rw [hbefore, filter_cons_of_pos hpresent]
  have hname : Prod.fst ∘ request.group orders = id := rfl
  simp only [hname, map_id, tail_cons, cons_append]

theorem groups_eq (hhost : request.hostText ≠ []) :
    (request.arrangement orders).groups =
      (request.names orders).tail.map (request.group orders) := by
  rw [names_eq_host_cons orders hhost]
  simp only [Arrangement.groups, Request.arrangement, tail_cons, map_append, map_map]
  have hgroup : request.group orders ∘ Prod.fst ∘ request.group orders = request.group orders := rfl
  simp only [hgroup]

theorem headerLines_eq (hhost : request.hostText ≠ []) :
    request.headerLines orders =
      request.hostLine :: (request.arrangement orders).groups.flatMap groupLines := by
  obtain ⟨rest, hrest⟩ : ∃ rest, request.names orders = ascii "Host" :: rest :=
    ⟨_, names_eq_host_cons orders hhost⟩
  have hnodup := nodup_names request orders
  rw [hrest, nodup_cons] at hnodup
  rw [Request.headerLines, groups_eq orders hhost, hrest, flatMap_cons, if_pos rfl,
    tail_cons, singleton_append, flatMap_map]
  apply congrArg (request.hostLine :: ·)
  apply flatMap_congr
  intro name hname
  have hne : name ≠ ascii "Host" := fun heq => hnodup.1 (heq ▸ hname)
  rw [if_neg hne]
  rfl

variable (hdistinct : Distinct request.sentHeader) (hhost : request.hostText ≠ [])
  (hfree : ∀ e ∈ request.sentHeader.range .stored, canonicalHeaderKey e.1 ≠ ascii "Host")

include hhost hfree in
theorem mem_tail_names {c : Bytes} :
    c ∈ (request.names orders).tail.map canonicalHeaderKey ↔
      ∃ e ∈ request.sentHeader.range .stored, canonicalHeaderKey e.1 = c := by
  have hnames := names_eq_host_cons orders hhost
  have hnodup := @nodup_map_names request orders
  have hmem := @mem_names_iff request orders c
  have hcanonical : canonicalHeaderKey (ascii "Host") = ascii "Host" := by decide
  rw [hnames, map_cons, hcanonical] at hnodup hmem
  rw [hnames, tail_cons]
  constructor
  · intro h
    rcases hmem.mp (mem_cons_of_mem _ h) with hin | ⟨-, rfl⟩
    · exact hin
    · exact absurd h (nodup_cons.mp hnodup).1
  · intro h
    obtain ⟨e, he, hkey⟩ := h
    rcases mem_cons.mp (hmem.mpr (.inl ⟨e, he, hkey⟩)) with rfl | hin
    · exact absurd hkey (hfree e he)
    · exact hin

include hdistinct hhost hfree in
theorem arrangement_complete :
    ((request.arrangement orders).groups.map fun g => (canonicalHeaderKey g.1, g.2)).Perm
      ((request.sentHeader.range .stored).map fun e => (canonicalHeaderKey e.1, e.2)) := by
  have hnodup : ((request.names orders).tail.map canonicalHeaderKey).Nodup := by
    rw [map_tail]
    exact (tail_sublist _).nodup (nodup_map_names request orders)
  have hkeys : ((request.names orders).tail.map canonicalHeaderKey).Perm
      ((request.sentHeader.range .stored).map fun e => canonicalHeaderKey e.1) := by
    rw [perm_ext_iff_of_nodup hnodup hdistinct]
    intro c
    rw [mem_tail_names orders hhost hfree, mem_map]
  have hvalues := hkeys.map fun c => (c, (request.index orders).valuesOf c)
  rw [map_map, map_map] at hvalues
  rw [groups_eq orders hhost, map_map]
  refine hvalues.trans (.of_eq (map_congr_left ?_))
  intro e he
  show (canonicalHeaderKey e.1, (request.index orders).valuesOf (canonicalHeaderKey e.1)) = _
  rw [Request.index, hdistinct.valuesOf he]

include hdistinct in
theorem arrangement_gap {g : Bytes × List Bytes} (hg : g ∈ (request.arrangement orders).gap) :
    g ∈ request.sentHeader.range .stored ∧
      placed (tableFor request.sentHeader) (canonicalHeaderKey g.1) = false := by
  obtain ⟨name, hname, rfl⟩ := mem_map.mp hg
  obtain ⟨c, hc, rfl⟩ := mem_map.mp ((perm_insertionSort _ _).mem_iff.mp hname)
  obtain ⟨hvalues, hplaced⟩ := of_mem_unplaced hc
  obtain ⟨e, he, rfl⟩ := mem_indexHeader.mp hvalues
  have hgroup : request.group orders ((request.index orders).casingOf (canonicalHeaderKey e.1)) =
      e := by
    rw [Request.group, Request.index, hdistinct.casingOf he, hdistinct.valuesOf he]
  rw [hgroup, ← table_index orders]
  exact ⟨he, hplaced⟩

include hhost in
/-- `Cookie` has the last place of both tables. -/
theorem arrangement_cookie {g : Bytes × List Bytes} (hg : g ∈ (request.arrangement orders).groups)
    (hcookie : canonicalHeaderKey g.1 = ascii "Cookie") :
    (request.arrangement orders).groups.getLast? = some g := by
  have hcanonical : canonicalHeaderKey (ascii "Cookie") = ascii "Cookie" := by decide
  have hnames := names_eq_host_cons orders hhost
  have hname : g.1 ∈ request.names orders := by
    rw [hnames]
    exact mem_cons_of_mem _ (mem_map_of_mem hg)
  have hpresent : (request.index orders).isPresent request.hostText (ascii "Cookie") = true := by
    rw [Index.isPresent, hcanonical, has_presentNames,
      ← mem_range_presentNames _ _ _ orders.present,
      ← (names_perm request orders).mem_iff]
    exact mem_map.mpr ⟨_, hname, hcookie⟩
  obtain ⟨rest, hrest⟩ :=
    tables_cookie (presentNames (request.index orders).values request.hostText)
  have hafter : afterGap (tableFor request.sentHeader) = rest ++ [ascii "Cookie"] := by
    rw [← table_index orders]
    exact hrest
  have hlast : (request.arrangement orders).groups.getLast? =
      some (request.group orders (ascii "Cookie")) := by
    simp only [Arrangement.groups, Request.arrangement]
    rw [hafter, filter_append, filter_cons_of_pos hpresent, filter_nil,
      map_append, map_singleton, ← append_assoc, ← append_assoc, getLast?_concat]
  -- and it is the only name for that header
  have hin : ascii "Cookie" ∈ request.names orders := by
    rw [hnames]
    have hmem := mem_of_getLast? hlast
    exact mem_cons_of_mem _ (mem_map.mpr ⟨_, hmem, rfl⟩)
  have hsame : g.1 = ascii "Cookie" :=
    inj_on_of_nodup_map (nodup_map_names request orders) hname hin (hcookie.trans hcanonical.symm)
  rw [groups_eq orders hhost] at hg
  obtain ⟨name, -, rfl⟩ := mem_map.mp hg
  rw [hlast]
  exact congrArg (fun name => some (request.group orders name)) hsame.symm

include hdistinct hhost hfree in
/-- **The lines that are sent are Chrome's arrangement of the map that is sent.** -/
theorem headerLines_arranged : (request.arrangement orders).Of request.sentHeader := by
  have hnames : Prod.fst ∘ request.group orders = id := rfl
  constructor
  · exact arrangement_complete orders hdistinct hhost hfree
  · rw [Request.arrangement, map_map, hnames, map_id]
    exact filter_sublist.trans (tail_sublist _)
  · rw [Request.arrangement, map_map, hnames, map_id]
    exact filter_sublist
  · intro g hg
    exact arrangement_gap orders hdistinct hg
  · rw [Request.arrangement, map_map, hnames, map_id]
    exact pairwise_insertionSort _ _
  · intro g hg hcookie
    exact arrangement_cookie orders hhost hg hcookie

end Sent

/-! ## What was asked for -/

/-- No value that says anything. -/
def lacksValue (values : List Bytes) : Bool := values.all (· = [])

/-- `Get` returns the empty text. -/
def firstEmpty (values : List Bytes) : Bool := values.headD [] = []

def setDefault (needed : List Bytes → Bool) (key value : Bytes) (header : Header) : Header :=
  if needed ((header.lookup key).getD []) then header.insert key [value] else header

def Request.keepAlive (needed : List Bytes → Bool) (request : Request) : Header :=
  setDefault needed (ascii "Connection") (ascii "keep-alive")
    (request.header.erase (ascii "Priority"))

/-- The caller's header without `Priority`, with the defaults where they are needed. -/
def Request.headerWith (needed : List Bytes → Bool) (request : Request) : Header :=
  if request.contentLength > 0 then
    setDefault needed (ascii "Content-Length") (decimal request.contentLength.toNat)
      (request.keepAlive needed)
  else request.keepAlive needed

/-- **What the caller asked for**: a default stands in for a header that is missing, which is
one without a value that is not empty. -/
def Request.wantedHeader (request : Request) : Header := request.headerWith lacksValue

/-- `Get` and `Set` of a key in canonical form. -/
theorem setDefault_firstEmpty (hkey : canonicalHeaderKey key = key) (value : Bytes)
    (header : Header) :
    (if header.get key = [] then header.set key value else header) =
      setDefault firstEmpty key value header := by
  have hget : header.get key = ((header.lookup key).getD []).headD [] := by
    rw [Header.get, hkey]
  have hset : header.set key value = header.insert key [value] := by
    rw [Header.set, hkey]
  rw [hget, hset, setDefault]
  simp only [firstEmpty, decide_eq_true_eq]

/-- What is sent asks `Get` instead. -/
theorem sentHeader_eq (request : Request) : request.sentHeader = request.headerWith firstEmpty := by
  have hdel : request.header.del (ascii "Priority") = request.header.erase (ascii "Priority") := by
    rw [Header.del, show canonicalHeaderKey (ascii "Priority") = ascii "Priority" by decide]
  rw [Request.headerWith, Request.keepAlive, ← setDefault_firstEmpty (by decide),
    ← setDefault_firstEmpty (by decide), ← hdel]
  by_cases hpos : request.contentLength > 0
  · simp only [Request.sentHeader, hpos, true_and, if_true]
  · simp only [Request.sentHeader, hpos, false_and, if_false]

/-! ### Counting lines -/

def valueCount (header : Header) : Nat := ((header.range .stored).map (·.2.length)).sum

theorem valueCount_insert (header : Header) (key : Bytes) (values : List Bytes) :
    valueCount (header.insert key values) + ((header.lookup key).getD []).length =
      valueCount header + values.length := by
  have hnew : valueCount (header.insert key values) = values.length +
      (((header.range .stored).filter (·.1 ≠ key)).map (·.2.length)).sum := by
    rw [valueCount, GoMap.range_insert, map_cons, sum_cons]
  -- the entries of the key, which is at most one
  have hold : (((header.range .stored).filter (·.1 = key)).map (·.2.length)).sum =
      ((header.lookup key).getD []).length := by
    rw [GoMap.filter_range]
    cases header.lookup key with
    | none => rfl
    | some old => rfl
  have hsplit := ((filter_append_perm (fun e : Bytes × List Bytes => decide (e.1 = key))
    (header.range .stored)).map (·.2.length)).sum_nat
  rw [map_append, sum_append_nat, hold] at hsplit
  rw [hnew, valueCount, ← hsplit]
  simp only [decide_not]
  omega

/-- What a default does to the number of values. -/
def countChange (needed : List Bytes → Bool) (values : List Bytes) : Int :=
  if needed values then 1 - values.length else 0

theorem valueCount_setDefault (needed : List Bytes → Bool) (key value : Bytes) (header : Header) :
    (valueCount (setDefault needed key value header) : Int) =
      valueCount header + countChange needed ((header.lookup key).getD []) := by
  rw [setDefault, countChange]
  split
  · have hcount := valueCount_insert header key [value]
    rw [length_singleton] at hcount
    omega
  · omega

theorem lookup_setDefault_ne {needed : List Bytes → Bool} {other value : Bytes} (h : other ≠ key) :
    (setDefault needed key value header).lookup other = header.lookup other := by
  rw [setDefault]
  split
  · exact AList.lookup_insert_ne h
  · rfl

/-! ### When `Get` tells -/

/-- The first value is empty only if all of them are. -/
def FirstTells (values : List Bytes) : Prop := firstEmpty values = lacksValue values

instance (values : List Bytes) : Decidable (FirstTells values) :=
  inferInstanceAs (Decidable (firstEmpty values = lacksValue values))

/-- Otherwise there are at least two values, and one of them is lost. -/
theorem firstTells_or (values : List Bytes) :
    FirstTells values ∨
      (firstEmpty values = true ∧ lacksValue values = false ∧ 2 ≤ values.length) := by
  cases values with
  | nil => exact .inl rfl
  | cons value rest =>
    by_cases hvalue : value = []
    · subst hvalue
      by_cases hrest : lacksValue ([] :: rest) = true
      · exact .inl hrest.symm
      · have hne : rest ≠ [] := by
          intro heq
          subst heq
          exact hrest rfl
        refine .inr ⟨rfl, Bool.eq_false_iff.mpr hrest, ?_⟩
        have hlength := length_pos_iff.mpr hne
        rw [length_cons]
        omega
    · left
      simp [FirstTells, firstEmpty, lacksValue, hvalue]

theorem countChange_le (values : List Bytes) :
    countChange firstEmpty values ≤ countChange lacksValue values ∧
      (countChange firstEmpty values = countChange lacksValue values → FirstTells values) := by
  rcases firstTells_or values with h | ⟨hfirst, hlacks, htwo⟩
  · have hsame : firstEmpty values = lacksValue values := h
    rw [countChange, countChange, hsame]
    exact ⟨le_refl _, fun _ => h⟩
  · rw [countChange, countChange, hfirst, hlacks]
    simp only [if_true, Bool.false_eq_true, if_false]
    constructor
    · omega
    · intro heq
      omega

theorem setDefault_congr {value : Bytes} (h : FirstTells ((header.lookup key).getD [])) :
    setDefault firstEmpty key value header = setDefault lacksValue key value header := by
  rw [setDefault, setDefault, show firstEmpty _ = _ from h]

def Request.valuesAt (request : Request) (key : Bytes) : List Bytes :=
  (request.header.lookup key).getD []

/-- `Get` tells which of the two defaults are needed. -/
structure Request.Telling (request : Request) : Prop where
  connection : FirstTells (request.valuesAt (ascii "Connection"))
  contentLength : request.contentLength > 0 →
    FirstTells (request.valuesAt (ascii "Content-Length"))

section Telling

variable {request : Request}

theorem lookup_connection :
    ((request.header.erase (ascii "Priority")).lookup (ascii "Connection")).getD [] =
      request.valuesAt (ascii "Connection") := by
  rw [AList.lookup_erase_ne (by decide), Request.valuesAt]

theorem lookup_contentLength (needed : List Bytes → Bool) :
    ((request.keepAlive needed).lookup (ascii "Content-Length")).getD [] =
      request.valuesAt (ascii "Content-Length") := by
  rw [Request.keepAlive, lookup_setDefault_ne (by decide), AList.lookup_erase_ne (by decide),
    Request.valuesAt]

theorem valueCount_headerWith (needed : List Bytes → Bool) :
    (valueCount (request.headerWith needed) : Int) =
      valueCount (request.header.erase (ascii "Priority")) +
        countChange needed (request.valuesAt (ascii "Connection")) +
        if request.contentLength > 0 then
          countChange needed (request.valuesAt (ascii "Content-Length"))
        else 0 := by
  have hconnection : (valueCount (request.keepAlive needed) : Int) = _ :=
    valueCount_setDefault _ _ _ _
  rw [lookup_connection] at hconnection
  rw [Request.headerWith]
  split_ifs with hpos
  · rw [valueCount_setDefault, lookup_contentLength, hconnection]
  · rw [hconnection, Int.add_zero]

/-- Where `Get` tells, what is sent is what was asked for. -/
theorem Request.Telling.sentHeader_eq (h : request.Telling) :
    request.sentHeader = request.wantedHeader := by
  have hconnection : request.keepAlive firstEmpty = request.keepAlive lacksValue := by
    apply setDefault_congr
    rw [lookup_connection]
    exact h.connection
  rw [Http1.sentHeader_eq, Request.wantedHeader, Request.headerWith, Request.headerWith,
    hconnection]
  by_cases hpos : request.contentLength > 0
  · rw [if_pos hpos, if_pos hpos]
    apply setDefault_congr
    rw [lookup_contentLength]
    exact h.contentLength hpos
  · rw [if_neg hpos, if_neg hpos]

/-- Where it does not, values are lost. -/
theorem telling_of_valueCount
    (h : valueCount request.sentHeader = valueCount request.wantedHeader) : request.Telling := by
  have hsent := @valueCount_headerWith request firstEmpty
  have hwanted := @valueCount_headerWith request lacksValue
  rw [← Http1.sentHeader_eq, h] at hsent
  rw [show request.headerWith lacksValue = request.wantedHeader from rfl, hsent] at hwanted
  obtain ⟨hle, hconnection⟩ := countChange_le (request.valuesAt (ascii "Connection"))
  obtain ⟨hle', hlength⟩ := countChange_le (request.valuesAt (ascii "Content-Length"))
  constructor
  · apply hconnection
    split at hwanted <;> omega
  · intro hpos
    rw [if_pos hpos, if_pos hpos] at hwanted
    apply hlength
    omega

end Telling

/-! ## The claim of the writer -/

/-- The headers that the writer handles by name. -/
def specialNames : List Bytes := ["Connection", "Content-Length", "Priority"].map ascii

/-- The keys are different headers, none of them is `Host`, and those that the writer
handles by name are in canonical form. -/
structure Separate (header : Header) : Prop where
  distinct : Distinct header
  noHost : ∀ e ∈ header.range .stored, canonicalHeaderKey e.1 ≠ ascii "Host"
  spelling : ∀ e ∈ header.range .stored, canonicalHeaderKey e.1 ∈ specialNames →
    e.1 = canonicalHeaderKey e.1

section Separate

variable {header : Header} (h : Separate header)
include h

theorem Separate.erase (key : Bytes) : Separate (header.erase key) := by
  have hsub : (GoMap.range (header.erase key) .stored).Sublist (header.range .stored) := by
    rw [GoMap.range_erase]
    exact filter_sublist
  constructor
  · exact (hsub.map _).nodup h.distinct
  · exact fun e he => h.noHost e (hsub.subset he)
  · exact fun e he => h.spelling e (hsub.subset he)

theorem Separate.insert {key : Bytes} (hkey : key ∈ specialNames) (values : List Bytes) :
    Separate (header.insert key values) := by
  have hcanonical : ∀ key ∈ specialNames, canonicalHeaderKey key = key ∧ key ≠ ascii "Host" := by
    decide +kernel
  obtain ⟨hsame, hne⟩ := hcanonical key hkey
  have herase := h.erase key
  have hrange : GoMap.range (header.insert key values) .stored =
      (key, values) :: GoMap.range (header.erase key) .stored := by
    rw [GoMap.range_insert, GoMap.range_erase]
  constructor
  · rw [Distinct, hrange, map_cons, nodup_cons]
    refine ⟨?_, herase.distinct⟩
    intro hin
    obtain ⟨e, he, heq⟩ := mem_map.mp hin
    have heq : canonicalHeaderKey e.1 = key := heq.trans hsame
    have hspelled := herase.spelling e he (heq ▸ hkey)
    rw [GoMap.range_erase] at he
    exact of_decide_eq_true (mem_filter.mp he).2 (hspelled.trans heq)
  · intro e he
    rw [hrange] at he
    rcases mem_cons.mp he with rfl | he
    · rw [hsame]
      exact hne
    · exact herase.noHost e he
  · intro e he
    rw [hrange] at he
    rcases mem_cons.mp he with rfl | he
    · exact fun _ => hsame.symm
    · exact herase.spelling e he

theorem Separate.setDefault {needed : List Bytes → Bool} (hkey : key ∈ specialNames)
    (value : Bytes) :
    Separate (setDefault needed key value header) := by
  rw [Http1.setDefault]
  split
  · exact h.insert hkey [value]
  · exact h

end Separate

theorem separate_sentHeader (h : Separate request.header) : Separate request.sentHeader := by
  have hconnection : Separate (request.keepAlive firstEmpty) :=
    (h.erase _).setDefault (by decide) _
  rw [sentHeader_eq, Request.headerWith]
  split_ifs with hpos
  · exact hconnection.setDefault (by decide) _
  · exact hconnection

/-- The header block is Chrome's arrangement of what the caller asked for, whatever the
order of the loops. -/
structure Request.InOrder (request : Request) : Prop where
  arranged : ∀ orders, ∃ a : Arrangement, a.Of request.wantedHeader ∧
    request.headerLines orders = request.hostLine :: a.groups.flatMap groupLines
  independent : ∀ orders orders' writer,
    writeRequest orders writer request = writeRequest orders' writer request

section InOrder

variable {request : Request} (hhost : request.hostText ≠ []) (hheader : Separate request.header)
include hhost hheader

theorem Request.InOrder.telling (h : request.InOrder) : request.Telling := by
  have hsent := separate_sentHeader hheader
  apply telling_of_valueCount
  obtain ⟨a, ha, hlines⟩ := h.arranged ⟨.stored, .stored⟩
  have hown := headerLines_arranged ⟨.stored, .stored⟩ hsent.distinct hhost hsent.noHost
  rw [headerLines_eq _ hhost] at hlines
  have hcount := congrArg List.length (List.cons.inj hlines).2
  rw [hown.length_lines, ha.length_lines] at hcount
  exact hcount

theorem Request.Telling.inOrder (h : request.Telling) : request.InOrder := by
  have hsent := separate_sentHeader hheader
  constructor
  · intro orders
    refine ⟨request.arrangement orders, ?_, headerLines_eq orders hhost⟩
    rw [← h.sentHeader_eq]
    exact headerLines_arranged orders hsent.distinct hhost hsent.noHost
  · intro orders orders' writer
    exact writeRequest_congr hsent.distinct orders orders' writer

end InOrder

/-- **The header block is in order iff the first value tells**: for every host, and every
map of different headers without `Host` whose `Connection`, `Content-Length` and `Priority`
are spelled in canonical form. -/
theorem writeRequest_order_iff (request : Request) (hhost : request.hostText ≠ [])
    (hheader : Separate request.header) : request.InOrder ↔ request.Telling := by
  constructor
  · intro h
    exact h.telling hhost hheader
  · intro h
    exact h.inOrder hhost hheader

/-- Headers of all three parts, in a spelling of the caller's choice. -/
def severalHeaders (spell : Bytes → Bytes) : Header :=
  [("X-B", ["1"]), ("Cookie", ["c=d"]), ("X-A", ["2", "3"]), ("Pragma", ["no-cache"])].foldr
    (fun e header => header.insert (spell (ascii e.1)) (e.2.map ascii)) ∅

def severalRequest (spell : Bytes → Bytes) : Request :=
  { getRequest [] [] with header := severalHeaders spell }

theorem writeRequest_order_several :
    (severalRequest id).InOrder ∧ (severalRequest id).headerLines storedOrders =
      ["Host: a", "Connection: keep-alive", "Pragma: no-cache", "X-A: 2", "X-A: 3", "X-B: 1",
        "Cookie: c=d"].map ascii := by
  refine ⟨(writeRequest_order_iff _ (by decide) ?_).mpr ⟨by decide +kernel, ?_⟩, by decide +kernel⟩
  · exact ⟨by decide +kernel, by decide +kernel, by decide +kernel⟩
  · exact fun hpos => absurd hpos (by decide)

/-- A request to close the connection, behind an empty value. -/
def closingRequest : Request :=
  { getRequest (ascii "Connection") [] with
    header := (∅ : Header).insert (ascii "Connection") [[], ascii "close"] }

/-- **The second value is lost**: `close` is asked for and `keep-alive` is sent. -/
theorem writeRequest_order_close_lost :
    (closingRequest.hostText ≠ [] ∧ Separate closingRequest.header) ∧
      closingRequest.headerLines storedOrders = [ascii "Host: a", ascii "Connection: keep-alive"] ∧
      ¬closingRequest.InOrder := by
  have hheader : Separate closingRequest.header :=
    ⟨by decide +kernel, by decide +kernel, by decide +kernel⟩
  refine ⟨⟨by decide, hheader⟩, by decide +kernel, ?_⟩
  intro h
  have htells := (h.telling (by decide) hheader).connection
  exact absurd htells (by decide)

end HeadlessClient.Http1
