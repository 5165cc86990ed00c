import Mathlib.Data.List.AList

/-!
# Base — Go maps

A Go `map[K]V` is an association list without duplicate keys (Mathlib's
`AList`). `range` visits the entries in an order the language leaves open and
picks anew for every loop: a loop over a map takes a `MapOrder`, and a theorem
about the loop is stated for ALL of them.
-/

namespace HeadlessClient.Base

open List

/-- `map[K]V`. -/
abbrev GoMap (κ ν : Type) := AList fun _ : κ => ν

/-- The order in which one `range` loop visits a map. -/
structure MapOrder where
  arrange : {α : Type} → List α → List α
  perm : ∀ {α : Type} (l : List α), (arrange l).Perm l

/-- Visiting the entries as they are stored. -/
def MapOrder.stored : MapOrder := ⟨fun l => l, fun l => .refl l⟩

namespace GoMap

variable {κ ν : Type}

/-- The entries, in the order a `range` loop visits them. -/
def range (m : GoMap κ ν) (order : MapOrder) : List (κ × ν) :=
  (order.arrange m.entries).map fun e => (e.1, e.2)

theorem range_perm (m : GoMap κ ν) (order order' : MapOrder) :
    (m.range order).Perm (m.range order') :=
  ((order.perm m.entries).trans (order'.perm m.entries).symm).map _

theorem nodup_keys_range (m : GoMap κ ν) (order : MapOrder) :
    ((m.range order).map Prod.fst).Nodup := by
  have hkeys : ((m.range order).map Prod.fst).Perm m.keys := by
    rw [range, map_map]
    exact (order.perm m.entries).map _
  exact hkeys.nodup_iff.mpr m.keys_nodup

variable [DecidableEq κ] {k : κ} {v : ν}

/-- A `range` loop visits exactly the entries. -/
theorem mem_range {m : GoMap κ ν} {order : MapOrder} :
    (k, v) ∈ m.range order ↔ m.lookup k = some v := by
  rw [← Option.mem_def, AList.mem_lookup_iff, range, mem_map]
  constructor
  · rintro ⟨⟨k', v'⟩, he, heq⟩
    cases heq
    exact (order.perm m.entries).mem_iff.mp he
  · intro he
    exact ⟨⟨k, v⟩, (order.perm m.entries).mem_iff.mpr he, rfl⟩

theorem range_erase (m : GoMap κ ν) (k : κ) :
    range (m.erase k) .stored = (m.range .stored).filter (·.1 ≠ k) := by
  have hentries : ∀ l : List (Sigma fun _ : κ => ν), l.NodupKeys →
      List.kerase k l = l.filter (·.1 ≠ k) := by
    intro l hl
    induction l with
    | nil => rfl
    | cons e l ih =>
      obtain ⟨hnew, hl⟩ := nodupKeys_cons.mp hl
      by_cases he : k = e.1
      · -- the rest of the list does not have the key
        have hrest : l.filter (·.1 ≠ k) = l := by
          rw [filter_eq_self]
          intro e' he'
          have hne : e'.1 ≠ k := fun heq => hnew (he ▸ heq ▸ mem_keys_of_mem he')
          simpa using hne
        rw [kerase_cons_eq he, filter_cons_of_neg (by simp [he]), hrest]
      · have hne : e.1 ≠ k := fun heq => he heq.symm
        rw [kerase_cons_ne he, ih hl, filter_cons_of_pos (by simpa using hne)]
  show (List.kerase k m.entries).map _ = (m.entries.map _).filter _
  rw [hentries m.entries m.nodupKeys, filter_map]
  rfl

theorem range_insert (m : GoMap κ ν) (k : κ) (v : ν) :
    range (m.insert k v) .stored = (k, v) :: (m.range .stored).filter (·.1 ≠ k) := by
  rw [← range_erase]
  rfl

theorem of_lookup_foldl_insert {α : Type} {key : α → κ} {value : α → ν} (l : List α) :
    ∀ m : GoMap κ ν, (l.foldl (fun m a => m.insert (key a) (value a)) m).lookup k = some v →
      (∃ a ∈ l, key a = k ∧ value a = v) ∨ m.lookup k = some v := by
  induction l with
  | nil => exact fun m h => .inr h
  | cons a l ih =>
    intro m h
    rcases ih _ h with ⟨b, hb, hfound⟩ | hfirst
    · exact .inl ⟨b, mem_cons_of_mem _ hb, hfound⟩
    · by_cases hkey : k = key a
      · rw [hkey, AList.lookup_insert, Option.some.injEq] at hfirst
        exact .inl ⟨a, mem_cons_self, hkey.symm, hfirst⟩
      · rw [AList.lookup_insert_ne hkey] at hfirst
        exact .inr hfirst

theorem lookup_foldl_insert_of_notMem (l : List (κ × ν)) : ∀ m : GoMap κ ν, k ∉ l.map Prod.fst →
    (l.foldl (fun m e => m.insert e.1 e.2) m).lookup k = m.lookup k := by
  induction l with
  | nil => exact fun _ _ => rfl
  | cons e l ih =>
    intro m hnot
    rw [map_cons, mem_cons, not_or] at hnot
    rw [foldl_cons, ih _ hnot.2, AList.lookup_insert_ne hnot.1]

theorem lookup_foldl_insert {l : List (κ × ν)} (hnodup : (l.map Prod.fst).Nodup) (h : (k, v) ∈ l) :
    ∀ m : GoMap κ ν, (l.foldl (fun m e => m.insert e.1 e.2) m).lookup k = some v := by
  induction l with
  | nil => cases h
  | cons e l ih =>
    intro m
    obtain ⟨hnew, hnodup⟩ := nodup_cons.mp hnodup
    rcases mem_cons.mp h with rfl | h
    · rw [foldl_cons, lookup_foldl_insert_of_notMem l _ hnew, AList.lookup_insert]
    · exact ih hnodup h _

/-- `maps.Copy` into a new map. -/
theorem lookup_copy (m : GoMap κ ν) (order : MapOrder) (k : κ) :
    ((m.range order).foldl (fun t e => t.insert e.1 e.2) (∅ : GoMap κ ν)).lookup k =
      m.lookup k := by
  refine Option.ext fun v => ?_
  constructor
  · intro h
    have hfrom : (∃ e ∈ m.range order, e.1 = k ∧ e.2 = v) ∨ (∅ : GoMap κ ν).lookup k = some v :=
      of_lookup_foldl_insert _ _ h
    rcases hfrom with ⟨e, he, rfl, rfl⟩ | h
    · exact mem_range.mp he
    · rw [AList.lookup_empty] at h
      cases h
  · intro h
    exact lookup_foldl_insert (m.nodup_keys_range order) (mem_range.mpr h) _

end GoMap

/-! ## Grouping -/

section Grouping

variable {α κ : Type} [DecidableEq κ]

theorem filter_key_eq_singleton {key : α → κ} {l : List α} (hnodup : (l.map key).Nodup) {a : α}
    (ha : a ∈ l) : (l.filter fun x => key x = key a) = [a] := by
  induction l with
  | nil => cases ha
  | cons x l ih =>
    rw [map_cons, nodup_cons] at hnodup
    rcases mem_cons.mp ha with rfl | ha
    · have hrest : (l.filter fun x => key x = key a) = [] := by
        rw [filter_eq_nil_iff]
        intro y hy hkey
        exact hnodup.1 (mem_map.mpr ⟨y, hy, of_decide_eq_true hkey⟩)
      rw [filter_cons_of_pos (by simp), hrest]
    · have hne : key x ≠ key a := fun heq => hnodup.1 (heq ▸ mem_map_of_mem ha)
      rw [filter_cons_of_neg (by simpa using hne), ih hnodup.2 ha]

/-- A key has at most one entry. -/
theorem GoMap.filter_range (m : GoMap κ ν) (order : MapOrder) (k : κ) :
    ((m.range order).filter fun e => e.1 = k) = (m.lookup k).toList.map (k, ·) := by
  cases hlookup : m.lookup k with
  | none =>
    refine filter_eq_nil_iff.mpr fun e he hkey => ?_
    have hin : (k, e.2) ∈ m.range order := of_decide_eq_true hkey ▸ he
    rw [mem_range.mp hin] at hlookup
    cases hlookup
  | some v => exact filter_key_eq_singleton (m.nodup_keys_range order) (mem_range.mpr hlookup)

theorem flatMap_filter_perm (key : α → κ) {keys : List κ} (hnodup : keys.Nodup) (l : List α)
    (hmem : ∀ x ∈ l, key x ∈ keys) :
    (keys.flatMap fun k => l.filter fun x => key x = k).Perm l := by
  induction keys generalizing l with
  | nil =>
    cases l with
    | nil => exact .refl _
    | cons x l => exact absurd (hmem x mem_cons_self) not_mem_nil
  | cons k keys ih =>
    obtain ⟨hk, hnodup⟩ := nodup_cons.mp hnodup
    -- the other groups see only what is not in the first
    have hothers : (keys.flatMap fun k' => l.filter fun x => key x = k')
        = keys.flatMap fun k' => (l.filter fun x => key x ≠ k).filter fun x => key x = k' := by
      refine flatMap_congr fun k' hk' => ?_
      rw [filter_filter]
      refine filter_congr fun x _ => ?_
      by_cases hx : key x = k'
      · have hne : k' ≠ k := fun h => hk (h ▸ hk')
        simp [hx, hne]
      · simp [hx]
    rw [flatMap_cons, hothers]
    have hrest := ih hnodup (l.filter fun x => key x ≠ k) fun x hx => by
      obtain ⟨hx, hne⟩ := mem_filter.mp hx
      exact (mem_cons.mp (hmem x hx)).resolve_left (of_decide_eq_true hne)
    refine (hrest.append_left _).trans ?_
    have hsplit := filter_append_perm (fun x => decide (key x = k)) l
    simpa only [decide_not] using hsplit

end Grouping

end HeadlessClient.Base
