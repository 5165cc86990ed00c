import HeadlessClient.Quic.Chaos
import Mathlib.Logic.Relation
import Mathlib.Order.Defs.LinearOrder
import Mathlib.Order.Nat

/-!
# Quic — what copying and splitting do

The reasoning layer of chaos protection. `values` reads the entries through the
store; on that level a split is `SplitsTo`: one CRYPTO frame is replaced by its
two halves, up to order. `SplitInv` carries the whole splitting loop:

* the entries own DISTINCT cells, all allocated after the caller's
  (`Owned`) — this is what makes the in-place mutation of one entry invisible
  to the others and to the caller;
* the caller's cells are as they were (`caller`);
* the entries are splits of the input (`splits`), inside the measured range;
* the sizes plus the remaining padding are what they were, and the padding
  has not gone negative (`size`, `budget`).
-/

namespace HeadlessClient.Quic

open Base List

/-! ## Halving a CRYPTO frame -/

namespace CryptoFrame

/-- The part that stays in the frame being split. -/
def keep (f : CryptoFrame) (k : Nat) : CryptoFrame := ⟨f.offset, f.data.take k⟩

def cut (f : CryptoFrame) (k : Nat) : CryptoFrame := ⟨f.offset + k, f.data.drop k⟩

theorem finish_keep {f : CryptoFrame} {k : Nat} (h : k ≤ f.data.length) :
    (f.keep k).finish = f.offset + k := by
  simp [finish, keep, h]

theorem finish_cut {f : CryptoFrame} {k : Nat} (h : k ≤ f.data.length) :
    (f.cut k).finish = f.finish := by
  simp [finish, cut]; omega

end CryptoFrame

/-- **One split**: a CRYPTO frame becomes its two non-empty halves; everything
else stays. Order is forgotten, the list is shuffled in the end anyway. -/
inductive SplitsTo : List Frame → List Frame → Prop
  | mk {xs ys rest : List Frame} {f : CryptoFrame} {k : Nat} (pos : 0 < k)
      (lt : k < f.data.length) (before : xs.Perm (.crypto f :: rest))
      (after : ys.Perm (.crypto (f.keep k) :: .crypto (f.cut k) :: rest)) : SplitsTo xs ys

abbrev SplitsToMany := Relation.ReflTransGen SplitsTo

def others (fs : List Frame) : List Frame := fs.filter fun f => f.crypto?.isNone

@[simp] theorem others_append (xs ys : List Frame) : others (xs ++ ys) = others xs ++ others ys :=
  filter_append ..

theorem SplitsTo.others_perm {xs ys : List Frame} (h : SplitsTo xs ys) :
    (others ys).Perm (others xs) := by
  obtain @⟨rest, f, k, -, -, before, after⟩ := h
  have hafter : (others ys).Perm (others rest) := after.filter _
  have hbefore : (others xs).Perm (others rest) := before.filter _
  exact hafter.trans hbefore.symm

theorem SplitsToMany.others_perm {xs ys : List Frame} (h : SplitsToMany xs ys) :
    (others ys).Perm (others xs) := by
  induction h with
  | refl => exact .refl _
  | tail _ hstep ih => exact hstep.others_perm.trans ih

/-! ## Reading entries through the store -/

namespace ChaosEntry

/-- The cell an entry owns. -/
def addr? (e : ChaosEntry) : Option Nat :=
  match e.frame with
  | some (.crypto a) => some a
  | _ => none

@[simp] theorem addr?_crypto (a : Nat) (n : Int) : (mk (some (.crypto a)) n).addr? = some a := rfl

@[simp] theorem addr?_padding (n : Int) : (padding n).addr? = none := rfl

@[simp] theorem addr?_ofFrame_crypto (a : Nat) : (ofFrame (.crypto a)).addr? = some a := rfl

@[simp] theorem addr?_ofFrame_ping : (ofFrame .ping).addr? = none := rfl

@[simp] theorem addr?_ofFrame_other (f : OpaqueFrame) : (ofFrame (.other f)).addr? = none := rfl

def padding? (e : ChaosEntry) : Option Int :=
  match e.frame with
  | none => some e.paddingLen
  | some _ => none

end ChaosEntry

def addrs (es : List ChaosEntry) : List Nat := es.filterMap ChaosEntry.addr?

def values (store : Store) (es : List ChaosEntry) : List Frame :=
  es.filterMap fun e => e.frame.map store.load

def paddings (es : List ChaosEntry) : List Int := es.filterMap ChaosEntry.padding?

def totalSize (fs : List Frame) : Nat := (fs.map Frame.size).sum

/-- Every CRYPTO frame lies in the stream range `[lo, hi]`. -/
def Within (lo hi : Nat) (fs : List Frame) : Prop :=
  ∀ f, Frame.crypto f ∈ fs → lo ≤ f.offset ∧ f.finish ≤ hi

@[simp] theorem totalSize_cons (f : Frame) (fs : List Frame) :
    totalSize (f :: fs) = f.size + totalSize fs := by simp [totalSize]

@[simp] theorem totalSize_append (fs gs : List Frame) :
    totalSize (fs ++ gs) = totalSize fs + totalSize gs := by simp [totalSize]

theorem totalSize_perm {fs gs : List Frame} (h : fs.Perm gs) : totalSize fs = totalSize gs :=
  (h.map Frame.size).sum_nat

@[simp] theorem paddings_append (xs ys : List ChaosEntry) :
    paddings (xs ++ ys) = paddings xs ++ paddings ys :=
  filterMap_append ..

@[simp] theorem addrs_append (xs ys : List ChaosEntry) : addrs (xs ++ ys) = addrs xs ++ addrs ys :=
  filterMap_append ..

@[simp] theorem values_append (store : Store) (xs ys : List ChaosEntry) :
    values store (xs ++ ys) = values store xs ++ values store ys :=
  filterMap_append ..

theorem values_cons_crypto (store : Store) (a : Nat) (n : Int) (es : List ChaosEntry) :
    values store (⟨some (.crypto a), n⟩ :: es)
      = .crypto (store.getD a ⟨0, []⟩) :: values store es := rfl

theorem values_cons_padding (store : Store) (n : Int) (es : List ChaosEntry) :
    values store (.padding n :: es) = values store es := rfl

variable {store : Store} {es : List ChaosEntry} {a : Nat} {done : List FrameRef} {s : CopyState}

/-- A write to a cell no entry owns, and growth of the store, are not seen. -/
theorem values_set_append (hlt : ∀ b ∈ addrs es, b < store.length) (hne : a ∉ addrs es)
    (x : CryptoFrame) (t : Store) : values (store.set a x ++ t) es = values store es := by
  induction es with
  | nil => rfl
  | cons e es ih =>
    have hes : addrs (e :: es) = e.addr?.toList ++ addrs es := by
      cases h : e.addr? <;> simp [addrs, h]
    rw [hes] at hlt hne
    have ih' := ih (fun b hb => hlt b (mem_append_right _ hb))
      (fun hb => hne (mem_append_right _ hb))
    obtain ⟨fr, n⟩ := e
    match fr with
    | none => exact ih'
    | some .ping => exact congrArg (Frame.ping :: ·) ih'
    | some (.other f) => exact congrArg (Frame.other f :: ·) ih'
    | some (.crypto b) =>
      have hb : b < store.length := hlt b (by simp)
      have hab : a ≠ b := fun he => hne (by simp [he])
      rw [values_cons_crypto, values_cons_crypto, ih',
        getD_append _ _ _ _ (by simpa using hb)]
      simp only [getD_eq_getElem?_getD, getElem?_set_ne hab]

theorem values_grow (hlt : ∀ b ∈ addrs es, b < store.length) (t : Store) :
    values (store ++ t) es = values store es := by
  -- a write past the end changes nothing
  have hset : store.set store.length ⟨0, []⟩ = store := set_eq_of_length_le le_rfl
  have hne : store.length ∉ addrs es := fun hmem => lt_irrefl _ (hlt _ hmem)
  have := values_set_append hlt hne ⟨0, []⟩ t
  rwa [hset] at this

/-- The entries own distinct cells, allocated after the first `base`. -/
structure Owned (base : Nat) (store : Store) (es : List ChaosEntry) : Prop where
  nodup : (addrs es).Nodup
  fresh : ∀ a ∈ addrs es, base ≤ a
  bound : ∀ a ∈ addrs es, a < store.length

theorem Owned.alloc {base : Nat} (h : Owned base store es) (hb : base ≤ store.length)
    (f : CryptoFrame) : Owned base (store ++ [f]) (es ++ [.ofFrame (.crypto store.length)]) := by
  have hadd : addrs (es ++ [.ofFrame (.crypto store.length)]) = addrs es ++ [store.length] := by
    rw [addrs_append]; rfl
  refine ⟨?_, ?_, ?_⟩ <;> rw [hadd]
  · refine nodup_append.mpr ⟨h.nodup, by simp, ?_⟩
    intro a ha b hb' heq
    rw [mem_singleton] at hb'
    exact absurd (h.bound a ha) (by omega)
  · intro a ha
    rcases mem_append.mp ha with ha | ha
    · exact h.fresh a ha
    · rw [mem_singleton] at ha; omega
  · intro a ha
    rw [length_append, length_singleton]
    rcases mem_append.mp ha with ha | ha
    · have := h.bound a ha; omega
    · rw [mem_singleton] at ha; omega

theorem Owned.set {base : Nat} (h : Owned base store es) (a : Nat) (f : CryptoFrame) :
    Owned base (store.set a f) es :=
  ⟨h.nodup, h.fresh, fun b hb => by rw [length_set]; exact h.bound b hb⟩

/-! ## Copying -/

/-- What the copying loop has done after the frames `done`. -/
structure CopyInv (store : Store) (done : List FrameRef) (s : CopyState) : Prop where
  grown : ∃ t, s.store = store ++ t
  owned : Owned store.length s.store s.entries
  copies : values s.store s.entries = done.map store.load
  unpadded : paddings s.entries = []
  within : Within s.lowestOffset s.highestEnd (done.map store.load)
  seen : s.hasCryptoFrame = true ↔ ∃ f, Frame.crypto f ∈ done.map store.load
  attained : s.hasCryptoFrame = true →
    ∃ f, Frame.crypto f ∈ done.map store.load ∧ f.finish = s.highestEnd

theorem CopyInv.init (store : Store) : CopyInv store [] ⟨store, [], false, 0, 0⟩ where
  grown := ⟨[], (append_nil store).symm⟩
  owned := ⟨nodup_nil, by simp [addrs], by simp [addrs]⟩
  copies := rfl
  unpadded := rfl
  within := by simp [Within]
  seen := by simp
  attained := by simp

theorem CopyInv.other {r : FrameRef} (h : CopyInv store done s) (hr : (store.load r).crypto? = none)
    (haddr : (ChaosEntry.ofFrame r).addr? = none) (hload : s.store.load r = store.load r) :
    CopyInv store (done ++ [r]) { s with entries := s.entries ++ [.ofFrame r] } := by
  have haddrs : addrs (s.entries ++ [.ofFrame r]) = addrs s.entries := by
    simp [addrs, haddr]
  have hmem : ∀ f, Frame.crypto f ∈ (done ++ [r]).map store.load ↔
      Frame.crypto f ∈ done.map store.load := by
    intro f
    rw [map_append, mem_append]
    refine ⟨fun hf => hf.resolve_right fun h1 => ?_, .inl⟩
    rw [map_singleton, mem_singleton] at h1
    rw [← h1] at hr
    exact absurd hr (by simp)
  refine
    { grown := h.grown
      owned := ⟨?_, ?_, ?_⟩
      copies := ?_
      unpadded := ?_
      within := fun f hf => h.within f ((hmem f).mp hf)
      seen := h.seen.trans (exists_congr fun f => (hmem f).symm)
      attained := fun hc => ?_ }
  · show (addrs (s.entries ++ [.ofFrame r])).Nodup
    rw [haddrs]; exact h.owned.nodup
  · show ∀ a ∈ addrs (s.entries ++ [.ofFrame r]), _
    rw [haddrs]; exact h.owned.fresh
  · show ∀ a ∈ addrs (s.entries ++ [.ofFrame r]), _
    rw [haddrs]; exact h.owned.bound
  · show values s.store (s.entries ++ [.ofFrame r]) = _
    rw [values_append, h.copies, map_append]
    exact congrArg (done.map store.load ++ [·]) hload
  · show paddings (s.entries ++ [.ofFrame r]) = []
    rw [paddings_append, h.unpadded]; rfl
  · obtain ⟨f, hf, hfin⟩ := h.attained hc
    exact ⟨f, (hmem f).mpr hf, hfin⟩

theorem CopyInv.getD (h : CopyInv store done s) (ha : a < store.length) :
    s.store.getD a ⟨0, []⟩ = store.getD a ⟨0, []⟩ := by
  obtain ⟨t, ht⟩ := h.grown
  rw [ht, getD_append _ _ _ _ ha]

theorem CopyInv.within_crypto (h : CopyInv store done s) (ha : a < store.length) (f : CryptoFrame)
    (hf : Frame.crypto f ∈ (done ++ [FrameRef.crypto a]).map store.load) :
    (copyFrame s (.crypto a)).lowestOffset ≤ f.offset ∧
      f.finish ≤ (copyFrame s (.crypto a)).highestEnd := by
  rw [map_append, mem_append, map_singleton, mem_singleton] at hf
  simp only [copyFrame, h.getD ha]
  rcases hf with hf | hf
  · -- an earlier frame: the range only widens, and it was measured before
    have hseen : s.hasCryptoFrame = true := h.seen.mpr ⟨f, hf⟩
    obtain ⟨hlo, hhi⟩ := h.within f hf
    rw [hseen, if_pos rfl, if_pos rfl]
    exact ⟨(min_le_left _ _).trans hlo, hhi.trans (le_max_left _ _)⟩
  · obtain rfl : f = store.getD a ⟨0, []⟩ := by injection hf
    split_ifs with hseen
    · exact ⟨min_le_right _ _, le_max_right _ _⟩
    · exact ⟨le_rfl, le_rfl⟩

theorem CopyInv.attained_crypto (h : CopyInv store done s) (ha : a < store.length) :
    ∃ f, Frame.crypto f ∈ (done ++ [FrameRef.crypto a]).map store.load ∧
      f.finish = (copyFrame s (.crypto a)).highestEnd := by
  have hnew :
      Frame.crypto (store.getD a ⟨0, []⟩) ∈ (done ++ [FrameRef.crypto a]).map store.load := by
    simp [Store.load]
  simp only [copyFrame, h.getD ha]
  split_ifs with hseen
  · obtain ⟨f, hf, hfin⟩ := h.attained hseen
    rcases le_total s.highestEnd (store.getD a ⟨0, []⟩).finish with hle | hle
    · exact ⟨_, hnew, (max_eq_right hle).symm⟩
    · refine ⟨f, by rw [map_append]; exact mem_append_left _ hf, ?_⟩
      rw [hfin]; exact (max_eq_left hle).symm
  · exact ⟨_, hnew, rfl⟩

theorem CopyInv.crypto (h : CopyInv store done s) (ha : a < store.length) :
    CopyInv store (done ++ [.crypto a]) (copyFrame s (.crypto a)) := by
  obtain ⟨t, ht⟩ := h.grown
  have hcell := h.getD ha
  have hlen : store.length ≤ s.store.length := by rw [ht, length_append]; omega
  refine
    { grown := ⟨t ++ [store.getD a ⟨0, []⟩], ?_⟩
      owned := h.owned.alloc hlen _
      copies := ?_
      unpadded := ?_
      within := fun f hf => h.within_crypto ha f hf
      seen := ⟨fun _ => ⟨store.getD a ⟨0, []⟩, by simp [Store.load]⟩, fun _ => rfl⟩
      attained := fun _ => h.attained_crypto ha }
  · show s.store ++ [s.store.getD a ⟨0, []⟩] = _
    rw [hcell, ht, append_assoc]
  · show values (s.store ++ [s.store.getD a ⟨0, []⟩])
      (s.entries ++ [.ofFrame (.crypto s.store.length)]) = _
    rw [values_append, values_grow h.owned.bound, h.copies, hcell, map_append]
    exact congrArg (fun f => done.map store.load ++ [Frame.crypto f]) (by simp)
  · show paddings (s.entries ++ [.ofFrame (.crypto s.store.length)]) = []
    rw [paddings_append, h.unpadded]; rfl

theorem CopyInv.step {r : FrameRef} (h : CopyInv store done s) (hr : store.Valid r) :
    CopyInv store (done ++ [r]) (copyFrame s r) := by
  cases r with
  | crypto a => exact h.crypto hr
  | ping => exact h.other rfl rfl rfl
  | other f => exact h.other rfl rfl rfl

/-- **What the copying loop returns**, for any frames of the caller. -/
theorem copyFrames_inv (store : Store) (frames : List FrameRef)
    (hvalid : ∀ r ∈ frames, store.Valid r) : CopyInv store frames (copyFrames store frames) := by
  -- over the frames already copied: the invariant holds of any prefix
  suffices h : ∀ (todo done : List FrameRef) (s : CopyState), (∀ r ∈ todo, store.Valid r) →
      CopyInv store done s → CopyInv store (done ++ todo) (todo.foldl copyFrame s) from
    h frames [] _ hvalid (CopyInv.init store)
  intro todo
  induction todo with
  | nil => intro done s _ hs; rwa [append_nil]
  | cons r todo ih =>
    intro done s hv hs
    have hstep := hs.step (hv r mem_cons_self)
    have := ih (done ++ [r]) _ (fun x hx => hv x (mem_cons_of_mem _ hx)) hstep
    rwa [append_assoc] at this

/-! ## Splitting -/

def splitCost (f : CryptoFrame) (k : Nat) : Int :=
  (1 + Varint.size (f.offset + k) + Varint.size (f.data.length - k))
    + (1 + Varint.size f.offset + Varint.size k)
    - (1 + Varint.size f.offset + Varint.size f.data.length)

/-- The state after the frame in cell `a` was split after `k` bytes. -/
def SplitState.splitAt (s : SplitState) (a k : Nat) (random : Rand) : SplitState :=
  let f := s.store.getD a ⟨0, []⟩
  { store := s.store.set a (f.keep k) ++ [f.cut k]
    entries := s.entries ++ [.ofFrame (.crypto s.store.length)]
    remainingPadding := s.remainingPadding - splitCost f k
    random := random }

theorem size_keep_add_size_cut {f : CryptoFrame} {k : Nat} (hk : k ≤ f.data.length) :
    ((f.keep k).size + (f.cut k).size : Int) = f.size + splitCost f k := by
  have hkeep : (f.keep k).data.length = k := by simp [CryptoFrame.keep, hk]
  have hcut : (f.cut k).data.length = f.data.length - k := by simp [CryptoFrame.cut]
  simp only [CryptoFrame.size, splitCost, hkeep, hcut]
  simp only [CryptoFrame.keep, CryptoFrame.cut]
  omega

/-- **The bound computed once from the whole range covers every split in it.** -/
theorem splitCost_le {lo hi : Nat} {f : CryptoFrame} {k : Nat} (hlo : lo ≤ f.offset)
    (hfin : f.finish ≤ hi) (hhi : hi < 2 ^ 62) (hk : k ≤ f.data.length) :
    splitCost f k ≤ 1 + Varint.size hi + Varint.size (hi - lo) := by
  unfold CryptoFrame.finish at hfin
  have hoff : Varint.size (f.offset + k) ≤ Varint.size hi := Varint.size_mono (by omega) hhi
  have hkept : Varint.size k ≤ Varint.size f.data.length := Varint.size_mono hk (by omega)
  have hnew : Varint.size (f.data.length - k) ≤ Varint.size (hi - lo) :=
    Varint.size_mono (by omega) (by omega)
  unfold splitCost
  omega

theorem minCryptoFrameSize_eq {offset dataLength : Nat} (ho : offset < 2 ^ 62)
    (hl : dataLength < 2 ^ 62) :
    minCryptoFrameSize offset dataLength
      = .ok (1 + Varint.size offset + Varint.size dataLength) := by
  rw [minCryptoFrameSize, Varint.len_eq ho, ok_bind, Varint.len_eq hl, ok_bind]

/-- The splitting loop over the caller's `store`, from the entries `input`, with
`total` the bytes to fill. -/
structure SplitInv (store : Store) (input : List Frame) (lo hi : Nat) (total : Int)
    (s : SplitState) : Prop where
  caller : ∃ t, s.store = store ++ t
  owned : Owned store.length s.store s.entries
  nonempty : s.entries ≠ []
  splits : SplitsToMany input (values s.store s.entries)
  unpadded : paddings s.entries = []
  within : Within lo hi (values s.store s.entries)
  size : totalSize (values s.store s.entries) + s.remainingPadding = total
  budget : 0 ≤ s.remainingPadding

/-- The loop starts on the copies. -/
theorem SplitInv.init {frames : List FrameRef} {copied : CopyState}
    (h : CopyInv store frames copied) (hc : copied.hasCryptoFrame = true) {paddingLen : Int}
    (hp : 0 < paddingLen) (random : Rand) :
    SplitInv store (frames.map store.load) copied.lowestOffset copied.highestEnd
      (totalSize (frames.map store.load) + paddingLen)
      ⟨copied.store, copied.entries, paddingLen, random⟩ where
  caller := h.grown
  owned := h.owned
  nonempty := by
    obtain ⟨f, hf⟩ := h.seen.mp hc
    intro hnil
    rw [← h.copies, show copied.entries = [] from hnil] at hf
    exact absurd hf not_mem_nil
  splits := by rw [h.copies]
  unpadded := h.unpadded
  within := by rw [h.copies]; exact h.within
  size := by rw [h.copies]
  budget := Int.le_of_lt hp

section

variable {store : Store} {input : List Frame} {lo hi : Nat} {total : Int} {s : SplitState}

/-- An owned cell is read and written by its entry ALONE. -/
theorem SplitInv.values_splitAt (h : SplitInv store input lo hi total s) {n : Int}
    (he : ⟨some (.crypto a), n⟩ ∈ s.entries) (k : Nat) (random : Rand) :
    let f := s.store.getD a ⟨0, []⟩
    ∃ rest, (values s.store s.entries).Perm (.crypto f :: rest) ∧
      (values (s.splitAt a k random).store (s.splitAt a k random).entries).Perm
        (.crypto (f.keep k) :: .crypto (f.cut k) :: rest) := by
  intro f
  obtain ⟨l₁, l₂, hl⟩ := append_of_mem he
  have haddrs : addrs s.entries = addrs l₁ ++ a :: addrs l₂ := by rw [hl, addrs_append]; rfl
  have hnodup := h.owned.nodup
  have hbound := h.owned.bound
  rw [haddrs] at hnodup hbound
  obtain ⟨-, hnd₂, hdisj⟩ := nodup_append.mp hnodup
  have ha₁ : a ∉ addrs l₁ := fun hm => hdisj a hm a mem_cons_self rfl
  have ha₂ : a ∉ addrs l₂ := (nodup_cons.mp hnd₂).1
  have hlen : a < s.store.length := hbound a (by simp)
  have hb₁ : ∀ b ∈ addrs l₁, b < s.store.length := fun b hb => hbound b (by simp [hb])
  have hb₂ : ∀ b ∈ addrs l₂, b < s.store.length := fun b hb => hbound b (by simp [hb])
  refine ⟨values s.store (l₁ ++ l₂), ?_, ?_⟩
  · rw [hl, values_append, values_append, values_cons_crypto]
    exact perm_middle
  · have hread : (s.store.set a (f.keep k) ++ [f.cut k]).getD a ⟨0, []⟩ = f.keep k := by
      rw [getD_append _ _ _ _ (by simpa using hlen)]
      simp [getD_eq_getElem?_getD, hlen]
    have hnew : (s.store.set a (f.keep k) ++ [f.cut k]).getD s.store.length ⟨0, []⟩
        = f.cut k := by simp [getD_eq_getElem?_getD]
    show (values (s.store.set a (f.keep k) ++ [f.cut k])
      (s.entries ++ [⟨some (.crypto s.store.length), 0⟩])).Perm _
    rw [hl, values_append, values_append, values_cons_crypto, values_cons_crypto, hread, hnew,
      values_set_append hb₁ ha₁, values_set_append hb₂ ha₂, values_append]
    -- both halves move to the front
    refine (perm_append_singleton _ _).trans ?_
    exact (List.Perm.cons _ perm_middle).trans (List.Perm.swap _ _ _)

/-- **A split keeps the invariant** when the padding covers the bound. -/
theorem SplitInv.splitAt (h : SplitInv store input lo hi total s) (hhi : hi < 2 ^ 62) {n : Int}
    (he : ⟨some (.crypto a), n⟩ ∈ s.entries) {k : Nat} (hk : 0 < k)
    (hkl : k < (s.store.getD a ⟨0, []⟩).data.length)
    (hb : 1 + Varint.size hi + Varint.size (hi - lo) ≤ s.remainingPadding) (random : Rand) :
    SplitInv store input lo hi total (s.splitAt a k random) := by
  obtain ⟨rest, hbefore, hafter⟩ := h.values_splitAt he k random
  set f := s.store.getD a ⟨0, []⟩ with hf
  obtain ⟨t, ht⟩ := h.caller
  have hfresh : store.length ≤ a := h.owned.fresh a (mem_filterMap.mpr ⟨_, he, rfl⟩)
  have hlen : store.length ≤ s.store.length := by rw [ht, length_append]; omega
  obtain ⟨hlo, hfin⟩ := h.within f (hbefore.mem_iff.mpr mem_cons_self)
  have hcost : splitCost f k ≤ 1 + Varint.size hi + Varint.size (hi - lo) :=
    splitCost_le hlo hfin hhi hkl.le
  refine
    { caller := ⟨t.set (a - store.length) (f.keep k) ++ [f.cut k], ?_⟩
      owned := ?_
      nonempty := append_ne_nil_of_right_ne_nil _ (cons_ne_nil _ _)
      splits := h.splits.tail (.mk hk hkl hbefore hafter)
      unpadded := ?_
      within := ?_
      size := ?_
      budget := ?_ }
  · show s.store.set a (f.keep k) ++ [f.cut k] = _
    rw [ht, set_append_right _ _ hfresh, append_assoc]
  · have := (h.owned.set a (f.keep k)).alloc (by rwa [length_set]) (f.cut k)
    rwa [length_set] at this
  · show paddings (s.entries ++ [.ofFrame (.crypto s.store.length)]) = []
    rw [paddings_append, h.unpadded]; rfl
  · intro g hg
    have hg' := hafter.mem_iff.mp hg
    rw [mem_cons, mem_cons] at hg'
    rcases hg' with hg' | hg' | hg'
    · obtain rfl : g = f.keep k := by injection hg'
      refine ⟨hlo, ?_⟩
      rw [CryptoFrame.finish_keep hkl.le]
      unfold CryptoFrame.finish at hfin
      omega
    · obtain rfl : g = f.cut k := by injection hg'
      refine ⟨hlo.trans (Nat.le_add_right _ _), ?_⟩
      rw [CryptoFrame.finish_cut hkl.le]
      exact hfin
    · exact h.within g (hbefore.mem_iff.mpr (mem_cons_of_mem _ hg'))
  · show (totalSize (values (s.splitAt a k random).store (s.splitAt a k random).entries) : Int)
      + (s.remainingPadding - splitCost f k) = total
    have hsize := h.size
    have hhalves := size_keep_add_size_cut (f := f) hkl.le
    rw [totalSize_perm hbefore, totalSize_cons] at hsize
    rw [totalSize_perm hafter, totalSize_cons, totalSize_cons]
    simp only [Frame.size] at hsize ⊢
    omega
  · show 0 ≤ s.remainingPadding - splitCost f k
    omega

/-- **What one iteration does**: it stops for want of padding, it draws an entry
it cannot split, or it splits. Nothing panics. -/
theorem splitOnce_cases (h : SplitInv store input lo hi total s) (hhi : hi < 2 ^ 62)
    {overhead : Int} (hov : overhead = 1 + Varint.size hi + Varint.size (hi - lo)) :
    splitOnce overhead s = .ok none ∨
    (∃ random, splitOnce overhead s = .ok (some { s with random := random })) ∨
    ∃ a n k random, ⟨some (.crypto a), n⟩ ∈ s.entries ∧ 0 < k ∧
      k < (s.store.getD a ⟨0, []⟩).data.length ∧ overhead ≤ s.remainingPadding ∧
      splitOnce overhead s = .ok (some (s.splitAt a k random)) := by
  unfold splitOnce
  by_cases hb : s.remainingPadding < overhead
  · exact .inl (if_pos hb)
  · rw [if_neg hb]
    right
    have hpos : 0 < s.entries.length := length_pos_iff.mpr h.nonempty
    have hdraw := s.random.uint64N_lt hpos
    dsimp only
    rw [getElem?_eq_getElem hdraw]
    have hmem : s.entries[(s.random.uint64N s.entries.length).1] ∈ s.entries :=
      getElem_mem hdraw
    generalize s.entries[(s.random.uint64N s.entries.length).1] = e at hmem ⊢
    obtain ⟨fr, n⟩ := e
    match fr with
    | none => exact .inl ⟨_, rfl⟩
    | some .ping => exact .inl ⟨_, rfl⟩
    | some (.other f) => exact .inl ⟨_, rfl⟩
    | some (.crypto a) =>
      have hval : Frame.crypto (s.store.getD a ⟨0, []⟩) ∈ values s.store s.entries :=
        mem_filterMap.mpr ⟨_, hmem, rfl⟩
      obtain ⟨hlo, hfin⟩ := h.within _ hval
      obtain ⟨f, hf⟩ : ∃ f, s.store.getD a ⟨0, []⟩ = f := ⟨_, rfl⟩
      rw [hf] at hlo hfin
      simp only [hf]
      unfold CryptoFrame.finish at hfin
      by_cases hlen : f.data.length ≤ 1
      · exact .inl ⟨_, if_pos hlen⟩
      · rw [if_neg hlen]
        right
        have hcut := (s.random.uint64N s.entries.length).2.uint64N_lt
          (n := f.data.length - 1) (by omega)
        set draw := (s.random.uint64N s.entries.length).2.uint64N (f.data.length - 1)
        refine ⟨a, n, 1 + draw.1, draw.2, hmem, by omega, by rw [hf]; omega, by omega, ?_⟩
        rw [minCryptoFrameSize_eq (by omega) (by omega), ok_bind,
          minCryptoFrameSize_eq (by omega) (by rw [length_drop]; omega), ok_bind,
          minCryptoFrameSize_eq (by omega) (by omega), ok_bind]
        simp only [Store.alloc, SplitState.splitAt, hf, splitCost, length_set,
          length_drop, CryptoFrame.keep, CryptoFrame.cut, Except.ok.injEq,
          Option.some.injEq, SplitState.mk.injEq, true_and, and_true]
        omega

/-- **The splitting loop keeps the invariant**, however often it runs. -/
theorem splitLoop_inv (hhi : hi < 2 ^ 62) {overhead : Int}
    (hov : overhead = 1 + Varint.size hi + Varint.size (hi - lo)) (n : Nat) :
    ∀ s, SplitInv store input lo hi total s →
      ∃ s', splitLoop overhead n s = .ok s' ∧ SplitInv store input lo hi total s' := by
  induction n with
  | zero => intro s h; exact ⟨s, rfl, h⟩
  | succ n ih =>
    intro s h
    rw [splitLoop]
    rcases splitOnce_cases h hhi hov with hstop | ⟨r, hskip⟩ | ⟨a, m, k, r, he, hk, hkl, hb, hsplit⟩
    · rw [hstop, ok_bind]; exact ⟨s, rfl, h⟩
    · rw [hskip, ok_bind]
      exact ih _ ⟨h.caller, h.owned, h.nonempty, h.splits, h.unpadded, h.within, h.size, h.budget⟩
    · rw [hsplit, ok_bind]
      exact ih _ (h.splitAt hhi he hk hkl (hov ▸ hb) r)

end

end HeadlessClient.Quic
