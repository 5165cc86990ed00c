import HeadlessClient.Base.GoMap
import HeadlessClient.Wire.LetterCase
import Mathlib.Data.List.Sort

/-!
# Http2 — the order of the header keys

`orderedHeaderKeys` of `internal/chromehttp2/internal/httpcommon/request.go`: the keys of
a header map, sorted by a comparator with three groups. The headers of one of two tables
come first, by their RANK in the table; then the headers that no table knows, by the
caller's spelling; then `priority`.

The comparator is a strict weak order (`byGroup_total`, `byGroup_trans`), and a total one
on keys that are different names (`precedes_antisymm`). So the sorted keys of such a map do
not depend on the order in which the map was walked (`orderedHeaderKeys_congr`), and they
have three parts (`orderedHeaderKeys_inTableOrder`).
-/

namespace HeadlessClient.Http2

open Base Wire List

/-- `map[string][]string`. -/
abbrev Header := GoMap Bytes (List Bytes)

/-! ## Texts -/

/-- The functions of package `strings` on texts that are not ASCII. -/
structure Strings where
  unicodeToLower : Bytes → Bytes
  unicodeEqualFold : Bytes → Bytes → Bool

def isASCII (text : Bytes) : Bool := text.all (· < 0x80)

namespace Strings

variable (lib : Strings)

/-- `strings.ToLower`. -/
def toLower (text : Bytes) : Bytes := if isASCII text then lower text else lib.unicodeToLower text

/-- `strings.EqualFold`. -/
def equalFold (text text' : Bytes) : Bool :=
  if isASCII text && isASCII text' then lower text == lower text'
  else lib.unicodeEqualFold text text'

variable {lib}

theorem toLower_of_ascii {text : Bytes} (h : isASCII text = true) : lib.toLower text = lower text :=
  if_pos h

theorem equalFold_of_ascii {text text' : Bytes} (h : isASCII text = true)
    (h' : isASCII text' = true) : lib.equalFold text text' = true ↔ lower text = lower text' := by
  simp [equalFold, h, h']

end Strings

/-! ## Tables and ranks -/

def chromeNavigationHeaderOrder : List Bytes :=
  ["sec-ch-ua", "sec-ch-ua-mobile", "sec-ch-ua-platform", "upgrade-insecure-requests",
    "user-agent", "accept", "sec-fetch-site", "sec-fetch-mode", "sec-fetch-user",
    "sec-fetch-dest", "sec-fetch-storage-access", "referer", "accept-encoding",
    "accept-language", "cookie", "priority"].map ascii

def chromeHeaderOrder : List Bytes :=
  ["content-length", "sec-ch-ua-platform", "user-agent", "sec-ch-ua", "content-type",
    "sec-ch-ua-mobile", "accept", "origin", "sec-fetch-site", "sec-fetch-mode", "sec-fetch-dest",
    "sec-fetch-storage-access", "referer", "accept-encoding", "accept-language", "cookie",
    "priority"].map ascii

def buildChromeHeaderRank (order : List Bytes) : GoMap Bytes Nat :=
  order.zipIdx.foldl (fun rank entry => rank.insert entry.1 entry.2) ∅

def chromeNavigationHeaderRank : GoMap Bytes Nat :=
  buildChromeHeaderRank chromeNavigationHeaderOrder

def chromeHeaderRank : GoMap Bytes Nat := buildChromeHeaderRank chromeHeaderOrder

def chromeHeaderRankFor (lib : Strings) (order : MapOrder) (header : Header) : GoMap Bytes Nat :=
  if (header.range order).any (lib.equalFold ·.1 (ascii "upgrade-insecure-requests")) then
    chromeNavigationHeaderRank
  else chromeHeaderRank

def chromeTrailingHeader : Bytes := ascii "priority"

def chromeTableHeaderGroup : Nat := 0
def chromeUnknownHeaderGroup : Nat := 1
def chromeTrailingHeaderGroup : Nat := 2

def chromeHeaderGroup (lib : Strings) (name : Bytes) (rank : GoMap Bytes Nat) : Nat × Nat :=
  let lowered := lib.toLower name
  if lowered = chromeTrailingHeader then (chromeTrailingHeaderGroup, 0)
  else
    match rank.lookup lowered with
    | some index => (chromeTableHeaderGroup, index)
    | none => (chromeUnknownHeaderGroup, 0)

/-- The comparator of `orderedHeaderKeys`. -/
def less (lib : Strings) (rank : GoMap Bytes Nat) (first second : Bytes) : Bool :=
  let (firstGroup, firstRank) := chromeHeaderGroup lib first rank
  let (secondGroup, secondRank) := chromeHeaderGroup lib second rank
  if firstGroup ≠ secondGroup then firstGroup < secondGroup
  else if firstGroup = chromeTableHeaderGroup then firstRank < secondRank
  else first < second

/-- The orders of the two loops over the map. -/
structure KeyOrders where
  rank : MapOrder
  keys : MapOrder

/-- What a stable sort by `less` keeps in place. -/
def NotAfter (lib : Strings) (rank : GoMap Bytes Nat) (first second : Bytes) : Prop :=
  less lib rank second first = false

instance (lib : Strings) (rank : GoMap Bytes Nat) : DecidableRel (NotAfter lib rank) :=
  fun first second => inferInstanceAs (Decidable (less lib rank second first = false))

/-- `orderedHeaderKeys`; inserting each key before those that are not less than it is
`sort.SliceStable`. -/
def orderedHeaderKeys (lib : Strings) (orders : KeyOrders) (header : Header) : List Bytes :=
  ((header.range orders.keys).map Prod.fst).insertionSort
    (NotAfter lib (chromeHeaderRankFor lib orders.rank header))

/-! ### Ranks -/

theorem lookup_buildChromeHeaderRank {order : List Bytes} (hnodup : order.Nodup) (name : Bytes) :
    (buildChromeHeaderRank order).lookup name =
      if name ∈ order then some (order.idxOf name) else none := by
  split_ifs with hin
  · exact GoMap.lookup_foldl_insert (by rwa [zipIdx_map_fst])
      (mk_mem_zipIdx_iff_getElem?.mpr (getElem?_idxOf hin)) ∅
  · exact GoMap.lookup_foldl_insert_of_notMem _ ∅ (by rwa [zipIdx_map_fst])

def tableFor (header : Header) : List Bytes :=
  if (header.range .stored).any (lower ·.1 = ascii "upgrade-insecure-requests") then
    chromeNavigationHeaderOrder
  else chromeHeaderOrder

theorem nodup_tableFor (header : Header) : (tableFor header).Nodup := by
  rw [tableFor]
  split
  · decide
  · decide

/-- The keys of a map are ASCII texts, as those of a valid request are. -/
def AsciiKeys (header : Header) : Prop := ∀ e ∈ header.range .stored, isASCII e.1 = true

section Ranks

variable {lib : Strings} {header : Header}

theorem chromeHeaderRankFor_eq (h : AsciiKeys header) (order : MapOrder) :
    chromeHeaderRankFor lib order header = buildChromeHeaderRank (tableFor header) := by
  have hany : (header.range order).any (lib.equalFold ·.1 (ascii "upgrade-insecure-requests")) =
      (header.range .stored).any (lower ·.1 = ascii "upgrade-insecure-requests") := by
    rw [(GoMap.range_perm header order .stored).any_eq, Bool.eq_iff_iff, any_eq_true, any_eq_true]
    apply exists_congr
    intro e
    apply and_congr_right
    intro he
    have hlower :
        lower (ascii "upgrade-insecure-requests") = ascii "upgrade-insecure-requests" := by
      decide
    rw [Strings.equalFold_of_ascii (h e he) (by decide), hlower, decide_eq_true_eq]
  rw [chromeHeaderRankFor, hany, tableFor]
  split
  · rfl
  · rfl

end Ranks

/-- The group and the rank of a key, by its name in lower case. -/
def groupOf (header : Header) (key : Bytes) : Nat × Nat :=
  if lower key = chromeTrailingHeader then (2, 0)
  else if (tableFor header).contains (lower key) then (0, (tableFor header).idxOf (lower key))
  else (1, 0)

theorem chromeHeaderGroup_eq {lib : Strings} (header : Header) {key : Bytes}
    (hkey : isASCII key = true) :
    chromeHeaderGroup lib key (buildChromeHeaderRank (tableFor header)) = groupOf header key := by
  rw [chromeHeaderGroup, Strings.toLower_of_ascii hkey, groupOf]
  simp only [lookup_buildChromeHeaderRank (nodup_tableFor header)]
  by_cases hin : lower key ∈ tableFor header
  · simp only [if_pos hin, contains_iff_mem.mpr hin]
    rfl
  · simp only [if_neg hin, mt contains_iff_mem.mp hin]
    rfl

section Groups

variable {header : Header} {key : Bytes}

theorem groupOf_tabled (htrailing : lower key ≠ chromeTrailingHeader)
    (htable : lower key ∈ tableFor header) :
    groupOf header key = (0, (tableFor header).idxOf (lower key)) := by
  rw [groupOf, if_neg htrailing, if_pos (contains_iff_mem.mpr htable)]

theorem groupOf_unknown (htrailing : lower key ≠ chromeTrailingHeader)
    (htable : lower key ∉ tableFor header) : groupOf header key = (1, 0) := by
  rw [groupOf, if_neg htrailing, if_neg (mt contains_iff_mem.mp htable)]

theorem groupOf_trailing (htrailing : lower key = chromeTrailingHeader) :
    groupOf header key = (2, 0) := by
  rw [groupOf, if_pos htrailing]

theorem groupOf_cases (header : Header) (key : Bytes) :
    (lower key ≠ chromeTrailingHeader ∧ lower key ∈ tableFor header ∧
        groupOf header key = (0, (tableFor header).idxOf (lower key))) ∨
      (lower key ≠ chromeTrailingHeader ∧ lower key ∉ tableFor header ∧
        groupOf header key = (1, 0)) ∨
      (lower key = chromeTrailingHeader ∧ groupOf header key = (2, 0)) := by
  by_cases htrailing : lower key = chromeTrailingHeader
  · exact .inr (.inr ⟨htrailing, groupOf_trailing htrailing⟩)
  · by_cases htable : lower key ∈ tableFor header
    · exact .inl ⟨htrailing, htable, groupOf_tabled htrailing htable⟩
    · exact .inr (.inl ⟨htrailing, htable, groupOf_unknown htrailing htable⟩)

end Groups

/-! ## The comparator -/

/-- First by group; then in the group of the table by rank, and in the others by spelling. -/
def ByGroup (group : Bytes → Nat × Nat) (first second : Bytes) : Prop :=
  (group first).1 < (group second).1 ∨
    ((group first).1 = (group second).1 ∧
      if (group first).1 = 0 then (group first).2 ≤ (group second).2 else first ≤ second)

section ByGroup

variable {group : Bytes → Nat × Nat}

theorem byGroup_total (first second : Bytes) :
    ByGroup group first second ∨ ByGroup group second first := by
  rcases Nat.lt_trichotomy (group first).1 (group second).1 with hlt | heq | hgt
  · exact .inl (.inl hlt)
  · rw [ByGroup, ByGroup, heq]
    by_cases hzero : (group second).1 = 0
    · rcases Nat.le_total (group first).2 (group second).2 with hle | hle
      · exact .inl (.inr ⟨rfl, by rwa [if_pos hzero]⟩)
      · exact .inr (.inr ⟨rfl, by rwa [if_pos hzero]⟩)
    · rcases List.le_total first second with hle | hle
      · exact .inl (.inr ⟨rfl, by rwa [if_neg hzero]⟩)
      · exact .inr (.inr ⟨rfl, by rwa [if_neg hzero]⟩)
  · exact .inr (.inl hgt)

theorem byGroup_trans {first second third : Bytes} (h : ByGroup group first second)
    (h' : ByGroup group second third) : ByGroup group first third := by
  rcases h with h | ⟨hgroup, h⟩
  · rcases h' with h' | ⟨hgroup', -⟩
    · exact .inl (by omega)
    · exact .inl (by omega)
  · rcases h' with h' | ⟨hgroup', h'⟩
    · exact .inl (by omega)
    · apply Or.inr
      apply And.intro (hgroup.trans hgroup')
      split_ifs at h ⊢ with hzero
      · rw [if_pos (by omega)] at h'
        omega
      · rw [if_neg (by omega)] at h'
        exact List.le_trans h h'

theorem byGroup_antisymm {first second : Bytes} (h : ByGroup group first second)
    (h' : ByGroup group second first) :
    (group first).1 = (group second).1 ∧
      if (group first).1 = 0 then (group first).2 = (group second).2 else first = second := by
  have hgroup : (group first).1 = (group second).1 := by
    rcases h with hlt | ⟨heq, -⟩
    · rcases h' with hlt' | ⟨heq', -⟩
      · omega
      · omega
    · exact heq
  have h := (h.resolve_left (by omega)).2
  have h' := (h'.resolve_left (by omega)).2
  apply And.intro hgroup
  split_ifs at h ⊢ with hzero
  · rw [if_pos (by omega)] at h'
    exact Nat.le_antisymm h h'
  · rw [if_neg (by omega)] at h'
    exact List.le_antisymm h h'

end ByGroup

section Comparator

variable {lib : Strings} {rank : GoMap Bytes Nat}

theorem notAfter_iff {first second : Bytes} :
    NotAfter lib rank first second ↔
      ByGroup (fun name => chromeHeaderGroup lib name rank) first second := by
  rw [NotAfter, less, ByGroup]
  generalize chromeHeaderGroup lib first rank = f
  generalize chromeHeaderGroup lib second rank = s
  obtain ⟨fg, fr⟩ := f
  obtain ⟨sg, sr⟩ := s
  simp only [chromeTableHeaderGroup]
  by_cases hgroup : sg = fg
  · subst hgroup
    by_cases hzero : sg = 0
    · simp [hzero]
    · simp [hzero]
  · have hne : ¬fg = sg := fun heq => hgroup heq.symm
    simp only [ne_eq, hgroup, not_false_eq_true, if_true, hne, false_and, or_false,
      decide_eq_false_iff_not, Nat.not_lt]
    omega

instance : Std.Total (NotAfter lib rank) :=
  ⟨fun first second => by
    rw [notAfter_iff, notAfter_iff]
    exact byGroup_total first second⟩

instance : IsTrans Bytes (NotAfter lib rank) :=
  ⟨fun _ _ _ h h' => notAfter_iff.mpr (byGroup_trans (notAfter_iff.mp h) (notAfter_iff.mp h'))⟩

end Comparator

/-- The order of the keys of a map. -/
def Precedes (header : Header) (first second : Bytes) : Prop :=
  ByGroup (groupOf header) first second

/-! ## The sorted keys -/

/-- The keys are different names, whatever their case. -/
def NamesDistinct (header : Header) : Prop :=
  ((header.range .stored).map fun e => lower e.1).Nodup

instance (header : Header) : Decidable (NamesDistinct header) :=
  inferInstanceAs (Decidable ((header.range .stored).map fun e => lower e.1).Nodup)

/-- The names of `names` stand in the order of the table. -/
theorem sublist_of_idxOf {order names : List Bytes} (horder : order.Nodup)
    (hin : ∀ name ∈ names, name ∈ order)
    (hsorted : names.Pairwise fun a b => order.idxOf a < order.idxOf b) : names.Sublist order := by
  have hnames : names.Nodup := by
    apply hsorted.imp
    intro a b hlt heq
    rw [heq] at hlt
    exact Nat.lt_irrefl _ hlt
  have hown : order.Pairwise fun a b => order.idxOf a < order.idxOf b := by
    rw [pairwise_iff_getElem]
    intro i j hi hj hij
    rw [horder.idxOf_getElem, horder.idxOf_getElem]
    exact hij
  -- both are the names of `names` in the order of their index
  have hperm : names.Perm (order.filter (· ∈ names)) := by
    rw [perm_ext_iff_of_nodup hnames (horder.filter _)]
    intro name
    rw [mem_filter, decide_eq_true_eq]
    exact ⟨fun h => ⟨hin name h, h⟩, fun h => h.2⟩
  have hsame : names = order.filter (· ∈ names) :=
    hperm.eq_of_pairwise (fun a b _ _ hab hba => absurd hba (Nat.lt_asymm hab)) hsorted
      (hown.filter _)
  rw [hsame]
  exact filter_sublist

/-- A list sorted by a number up to 2 has three parts. -/
theorem split_by_group {α : Type} (group : α → Nat) {l : List α} (hle : ∀ a ∈ l, group a ≤ 2)
    (hsorted : l.Pairwise fun a b => group a ≤ group b) :
    l = l.filter (group · = 0) ++ (l.filter (group · = 1) ++ l.filter (group · = 2)) := by
  induction l with
  | nil => rfl
  | cons a l ih =>
    obtain ⟨hfirst, hrest⟩ := pairwise_cons.mp hsorted
    have hparts := ih (fun b hb => hle b (mem_cons_of_mem _ hb)) hrest
    have hnone : ∀ n, n < group a → l.filter (group · = n) = [] := by
      intro n hn
      rw [filter_eq_nil_iff]
      intro b hb heq
      have hge := hfirst b hb
      have heq : group b = n := of_decide_eq_true heq
      omega
    have ha := hle a mem_cons_self
    have hcases : group a = 0 ∨ group a = 1 ∨ group a = 2 := by omega
    rcases hcases with h | h | h
    · simp only [filter_cons, h, decide_true, if_true]
      exact congrArg (a :: ·) hparts
    · rw [hnone 0 (by omega), nil_append] at hparts
      simp only [filter_cons, h, decide_true, if_true, hnone 0 (by omega)]
      exact congrArg (a :: ·) hparts
    · rw [hnone 0 (by omega), hnone 1 (by omega), nil_append, nil_append] at hparts
      simp only [filter_cons, h, decide_true, if_true, hnone 0 (by omega),
        hnone 1 (by omega)]
      exact congrArg (a :: ·) hparts

/-- **Chrome's order of keys**: the names of the table in its order, the unknown ones by
their spelling, and the trailing one. -/
structure InTableOrder (header : Header) (known unknown trailing : List Bytes) : Prop where
  inOrder : (known.map lower).Sublist (tableFor header)
  regular : ∀ key ∈ known, lower key ≠ chromeTrailingHeader
  untabled : ∀ key ∈ unknown, lower key ∉ tableFor header
  ascending : unknown.Pairwise (· < ·)
  last : ∀ key ∈ trailing, lower key = chromeTrailingHeader

section Sorted

variable {lib : Strings} {header : Header}

theorem orderedHeaderKeys_perm (orders : KeyOrders) :
    (orderedHeaderKeys lib orders header).Perm ((header.range .stored).map Prod.fst) :=
  (perm_insertionSort _ _).trans ((GoMap.range_perm header orders.keys .stored).map _)

/-- **The keys are sorted.** -/
theorem orderedHeaderKeys_sorted (hascii : AsciiKeys header) (orders : KeyOrders) :
    (orderedHeaderKeys lib orders header).Pairwise (Precedes header) := by
  have hkey : ∀ key ∈ orderedHeaderKeys lib orders header, isASCII key = true := by
    intro key h
    obtain ⟨e, he, rfl⟩ := mem_map.mp ((orderedHeaderKeys_perm orders).mem_iff.mp h)
    exact hascii e he
  have hsorted : (orderedHeaderKeys lib orders header).Pairwise
      (NotAfter lib (buildChromeHeaderRank (tableFor header))) := by
    rw [orderedHeaderKeys, chromeHeaderRankFor_eq hascii]
    exact pairwise_insertionSort _ _
  apply hsorted.imp_of_mem
  intro a b ha hb hab
  rw [notAfter_iff, ByGroup, chromeHeaderGroup_eq header (hkey a ha),
    chromeHeaderGroup_eq header (hkey b hb)] at hab
  exact hab

theorem precedes_antisymm (hdistinct : NamesDistinct header) {a b : Bytes}
    (ha : a ∈ (header.range .stored).map Prod.fst) (hb : b ∈ (header.range .stored).map Prod.fst)
    (hab : Precedes header a b) (hba : Precedes header b a) : a = b := by
  obtain ⟨hgroup, hsame⟩ := byGroup_antisymm hab hba
  obtain ⟨ea, hea, rfl⟩ := mem_map.mp ha
  obtain ⟨eb, heb, rfl⟩ := mem_map.mp hb
  rcases groupOf_cases header ea.1 with ⟨-, hia, hga⟩ | ⟨-, -, hga⟩ | ⟨-, hga⟩
  · -- the same rank is the same name
    rw [hga, if_pos rfl] at hsame
    rw [hga] at hgroup
    rcases groupOf_cases header eb.1 with ⟨-, hib, hgb⟩ | ⟨-, -, hgb⟩ | ⟨-, hgb⟩
    · rw [hgb] at hsame
      have hname : lower ea.1 = lower eb.1 := (idxOf_inj hia).mp hsame
      rw [inj_on_of_nodup_map hdistinct hea heb hname]
    · rw [hgb] at hgroup
      cases hgroup
    · rw [hgb] at hgroup
      cases hgroup
  · rw [hga, if_neg Nat.one_ne_zero] at hsame
    exact hsame
  · rw [hga, if_neg (Nat.succ_ne_zero 1)] at hsame
    exact hsame

/-- **The keys do not depend on the loops over the map.** -/
theorem orderedHeaderKeys_congr (hascii : AsciiKeys header) (hdistinct : NamesDistinct header)
    (orders orders' : KeyOrders) :
    orderedHeaderKeys lib orders header = orderedHeaderKeys lib orders' header := by
  have hperm := @orderedHeaderKeys_perm lib header orders
  have hperm' := @orderedHeaderKeys_perm lib header orders'
  apply (hperm.trans hperm'.symm).eq_of_pairwise _ (orderedHeaderKeys_sorted hascii orders)
    (orderedHeaderKeys_sorted hascii orders')
  intro a b ha hb hab hba
  exact precedes_antisymm hdistinct (hperm.mem_iff.mp ha) (hperm'.mem_iff.mp hb) hab hba

theorem inTableOrder_of_sorted {keys : List Bytes} (hsorted : keys.Pairwise (Precedes header))
    (hnodup : (keys.map lower).Nodup) :
    InTableOrder header (keys.filter fun key => (groupOf header key).1 = 0)
      (keys.filter fun key => (groupOf header key).1 = 1)
      (keys.filter fun key => (groupOf header key).1 = 2) := by
  have hpair := hsorted.and (pairwise_map.mp hnodup)
  have hknown : ∀ key ∈ keys.filter fun key => (groupOf header key).1 = 0,
      lower key ≠ chromeTrailingHeader ∧ lower key ∈ tableFor header := by
    intro key hkey
    have hzero : (groupOf header key).1 = 0 := of_decide_eq_true (mem_filter.mp hkey).2
    rcases groupOf_cases header key with ⟨ht, hin, -⟩ | ⟨-, -, hg⟩ | ⟨-, hg⟩
    · exact ⟨ht, hin⟩
    · rw [hg] at hzero
      cases hzero
    · rw [hg] at hzero
      cases hzero
  have hunknown : ∀ key ∈ keys.filter fun key => (groupOf header key).1 = 1,
      lower key ≠ chromeTrailingHeader ∧ lower key ∉ tableFor header := by
    intro key hkey
    have hone : (groupOf header key).1 = 1 := of_decide_eq_true (mem_filter.mp hkey).2
    rcases groupOf_cases header key with ⟨-, -, hg⟩ | ⟨ht, hin, -⟩ | ⟨-, hg⟩
    · rw [hg] at hone
      cases hone
    · exact ⟨ht, hin⟩
    · rw [hg] at hone
      cases hone
  constructor
  · apply sublist_of_idxOf (nodup_tableFor header)
    · intro name hname
      obtain ⟨key, hkey, rfl⟩ := mem_map.mp hname
      exact (hknown key hkey).2
    · rw [pairwise_map]
      apply (hpair.sublist filter_sublist).imp_of_mem
      intro a b ha hb hab
      obtain ⟨hta, hia⟩ := hknown a ha
      obtain ⟨htb, hib⟩ := hknown b hb
      have hrank := hab.1
      rw [Precedes, ByGroup, groupOf_tabled hta hia, groupOf_tabled htb hib] at hrank
      have hle := (hrank.resolve_left (Nat.lt_irrefl 0)).2
      have hne : (tableFor header).idxOf (lower a) ≠ (tableFor header).idxOf (lower b) :=
        fun heq => hab.2 ((idxOf_inj hia).mp heq)
      exact Nat.lt_of_le_of_ne hle hne
  · intro key hkey
    exact (hknown key hkey).1
  · intro key hkey
    exact (hunknown key hkey).2
  · apply (hpair.sublist filter_sublist).imp_of_mem
    intro a b ha hb hab
    obtain ⟨hta, hia⟩ := hunknown a ha
    obtain ⟨htb, hib⟩ := hunknown b hb
    have hspelling := hab.1
    rw [Precedes, ByGroup, groupOf_unknown hta hia, groupOf_unknown htb hib] at hspelling
    have hle : a ≤ b := (hspelling.resolve_left (Nat.lt_irrefl 1)).2
    by_contra hnot
    exact hab.2 (congrArg lower (List.le_antisymm hle hnot))
  · intro key hkey
    have htwo : (groupOf header key).1 = 2 := of_decide_eq_true (mem_filter.mp hkey).2
    rcases groupOf_cases header key with ⟨-, -, hg⟩ | ⟨-, -, hg⟩ | ⟨ht, -⟩
    · rw [hg] at htwo
      cases htwo
    · rw [hg] at htwo
      cases htwo
    · exact ht

/-- **The sorted keys have three parts, in Chrome's order.** -/
theorem orderedHeaderKeys_inTableOrder (hascii : AsciiKeys header)
    (hdistinct : NamesDistinct header) (orders : KeyOrders) :
    ∃ known unknown trailing,
      orderedHeaderKeys lib orders header = known ++ (unknown ++ trailing) ∧
        InTableOrder header known unknown trailing := by
  have hsorted := @orderedHeaderKeys_sorted lib header hascii orders
  have hnodup : ((orderedHeaderKeys lib orders header).map lower).Nodup := by
    rw [((orderedHeaderKeys_perm orders).map lower).nodup_iff, map_map]
    exact hdistinct
  have hgroups : (orderedHeaderKeys lib orders header).Pairwise fun a b =>
      (groupOf header a).1 ≤ (groupOf header b).1 := by
    apply hsorted.imp
    intro a b hab
    rcases hab with hlt | ⟨heq, -⟩
    · exact Nat.le_of_lt hlt
    · exact Nat.le_of_eq heq
  have hle : ∀ key ∈ orderedHeaderKeys lib orders header, (groupOf header key).1 ≤ 2 := by
    intro key _
    rcases groupOf_cases header key with ⟨-, -, hg⟩ | ⟨-, -, hg⟩ | ⟨-, hg⟩
    · rw [hg]
      exact Nat.zero_le 2
    · rw [hg]
      exact Nat.le_succ 1
    · rw [hg]
  exact ⟨_, _, _, split_by_group _ hle hgroups, inTableOrder_of_sorted hsorted hnodup⟩

end Sorted

end HeadlessClient.Http2
