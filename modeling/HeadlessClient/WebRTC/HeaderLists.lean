import HeadlessClient.WebRTC.Negotiation

/-!
# WebRTC — header extension lists and the order of maps

The media engine walks two kinds of maps: what a media section announces, by URI,
and the negotiated table, by ID. The order of a walk shows in a list only where two
entries compete: two registered URIs that a section announces under one ID, or two
IDs the table has for one URI. A run without such a competition (`ClearRun`) returns
the same lists whatever the orders are.

Two runs that differ in their orders do not reach equal engines: the tables have the
same entries, stored differently. `Alike` is what they do reach.
-/

namespace HeadlessClient.WebRTC

open Base List

/-! ## The sorted list -/

namespace MediaEngine

section Sorting

variable {video : Bool}

instance : Std.Total fun a b => canonicalLess video b a = false where
  total a b := by
    unfold canonicalLess
    cases canonicalPosition a.uri video <;> cases canonicalPosition b.uri video <;> simp
    · exact (List.le_total b.uri a.uri).symm
    · omega

instance : IsTrans HeaderExtensionParameter fun a b => canonicalLess video b a = false where
  trans a b c := by
    unfold canonicalLess
    cases canonicalPosition a.uri video <;> cases canonicalPosition b.uri video <;>
      cases canonicalPosition c.uri video <;> simp
    · exact List.le_trans
    · omega

theorem canonicalPosition_injective {u v : URI} {i : Nat} (hu : canonicalPosition u video = some i)
    (hv : canonicalPosition v video = some i) : u = v := by
  obtain ⟨_, hu, -⟩ := findIdx?_eq_some_iff_getElem.mp hu
  obtain ⟨_, hv, -⟩ := findIdx?_eq_some_iff_getElem.mp hv
  exact (of_decide_eq_true hu).symm.trans (of_decide_eq_true hv)

theorem uri_eq_of_not_less {a b : HeaderExtensionParameter} (hab : canonicalLess video b a = false)
    (hba : canonicalLess video a b = false) : a.uri = b.uri := by
  unfold canonicalLess at hab hba
  cases ha : canonicalPosition a.uri video with
  | none =>
    cases hb : canonicalPosition b.uri video with
    | none =>
      simp only [ha, hb, decide_eq_false_iff_not] at hab hba
      exact List.le_antisymm hab hba
    | some j => simp [ha, hb] at hab
  | some i =>
    cases hb : canonicalPosition b.uri video with
    | none => simp [ha, hb] at hba
    | some j =>
      simp only [ha, hb, decide_eq_false_iff_not] at hab hba
      obtain rfl : i = j := by omega
      exact canonicalPosition_injective ha hb

/-- The sorted list does not depend on the order of a list that has no URI twice. -/
theorem sortHeaderExtensions_perm {l l' : List HeaderExtensionParameter} (hperm : l.Perm l')
    (hl : ∀ a ∈ l, ∀ b ∈ l, a.uri = b.uri → a = b) :
    sortHeaderExtensionsByCanonicalOrder l video =
      sortHeaderExtensionsByCanonicalOrder l' video := by
  have hsorted := perm_insertionSort (fun a b => canonicalLess video b a = false) l
  have hsorted' := perm_insertionSort (fun a b => canonicalLess video b a = false) l'
  refine List.Perm.eq_of_pairwise ?_ (pairwise_insertionSort _ l) (pairwise_insertionSort _ l')
    (hsorted.trans (hperm.trans hsorted'.symm))
  intro a b ha hb hab hba
  exact hl a (hsorted.mem_iff.mp ha) b (hperm.mem_iff.mpr (hsorted'.mem_iff.mp hb))
    (uri_eq_of_not_less hab hba)

end Sorting

/-! ## What a section does to the table -/

/-- What `enable` makes of the entry with its ID. -/
def enabled (extension : URI) (typ : RTPCodecType) (entry : Option HeaderExtension)
    (localExtension : HeaderExtension) : Option HeaderExtension :=
  if localExtension.uri = extension then
    let h := entry.getD ⟨extension, false, false, localExtension.allowedDirections⟩
    some (if localExtension.isAudio ∧ typ = .audio then { h with isAudio := true }
      else if localExtension.isVideo ∧ typ = .video then { h with isVideo := true }
      else h)
  else entry

/-- What an announced pair does to the entries of the negotiated table. -/
def announce (exts : List HeaderExtension) (typ : RTPCodecType)
    (entries : Nat → Option HeaderExtension) (pair : URI × Nat) : Nat → Option HeaderExtension :=
  Function.update entries pair.2 (exts.foldl (enabled pair.1 typ) (entries pair.2))

variable {id : Nat} {extension : URI} {typ : RTPCodecType} {exts : List HeaderExtension}

theorem lookup_enable (table : GoMap Nat HeaderExtension) (e : HeaderExtension) :
    (fun i => (enable id extension typ table e).lookup i) =
      Function.update (fun i => table.lookup i) id (enabled extension typ (table.lookup id) e) := by
  funext i
  unfold enable enabled
  by_cases he : e.uri = extension
  · rw [if_pos he, if_pos he]
    by_cases hi : i = id
    · subst hi
      rw [AList.lookup_insert, Function.update_self]
    · rw [AList.lookup_insert_ne hi, Function.update_of_ne hi]
  · rw [if_neg he, if_neg he, Function.update_eq_self]

theorem lookup_foldl_enable (exts : List HeaderExtension) (table : GoMap Nat HeaderExtension) :
    (fun i => (exts.foldl (enable id extension typ) table).lookup i) =
      announce exts typ (fun i => table.lookup i) (extension, id) := by
  unfold announce
  induction exts generalizing table with
  | nil => exact (Function.update_eq_self id _).symm
  | cons e exts ih =>
    have hfirst := @lookup_enable id extension typ table e
    rw [foldl_cons, foldl_cons, ih, hfirst, Function.update_idem]
    dsimp only
    rw [Function.update_self]

theorem announce_unregistered (h : ∀ e ∈ exts, e.uri ≠ extension)
    (entries : Nat → Option HeaderExtension) :
    announce exts typ entries (extension, id) = entries := by
  have hfold : exts.foldl (enabled extension typ) (entries id) = entries id := by
    induction exts with
    | nil => rfl
    | cons e exts ih =>
      rw [foldl_cons, enabled, if_neg (h e mem_cons_self)]
      exact ih fun e' he' => h e' (mem_cons_of_mem _ he')
  exact (congrArg _ hfold).trans (Function.update_eq_self id entries)

theorem announce_comm {pair pair' : URI × Nat}
    (h : pair.2 = pair'.2 → (∃ e ∈ exts, e.uri = pair.1) → (∃ e ∈ exts, e.uri = pair'.1) →
      pair.1 = pair'.1) (entries : Nat → Option HeaderExtension) :
    announce exts typ (announce exts typ entries pair) pair' =
      announce exts typ (announce exts typ entries pair') pair := by
  obtain ⟨u, i⟩ := pair
  obtain ⟨v, j⟩ := pair'
  by_cases hij : i = j
  · subst hij
    by_cases hu : ∃ e ∈ exts, e.uri = u
    · by_cases hv : ∃ e ∈ exts, e.uri = v
      · obtain rfl : u = v := h rfl hu hv
        rfl
      · push Not at hv
        rw [announce_unregistered hv, announce_unregistered hv]
    · push Not at hu
      rw [announce_unregistered hu, announce_unregistered hu]
  · unfold announce
    rw [Function.update_of_ne (Ne.symm hij), Function.update_of_ne hij, Function.update_comm hij]

/-! ## Engines that differ in how their table is stored -/

/-- The entries of a negotiated table; `none` is the nil map. -/
def entries (table : Option (GoMap Nat HeaderExtension)) : Option (Nat → Option HeaderExtension) :=
  table.map fun t i => t.lookup i

/-- The engines are equal up to how the negotiated table is stored. -/
def Alike (m m' : MediaEngine) : Prop :=
  ∃ table, m' = { m with negotiatedHeaderExtensions := table } ∧
    entries table = entries m.negotiatedHeaderExtensions

theorem lookup_negotiated {table table' : Option (GoMap Nat HeaderExtension)}
    (h : entries table = entries table') (i : Nat) :
    (table.getD ∅).lookup i = (table'.getD ∅).lookup i := by
  cases table with
  | none =>
    cases table' with
    | none => rfl
    | some t' => cases h
  | some t =>
    cases table' with
    | none => cases h
    | some t' => exact congrFun (Option.some.inj h) i

theorem foldl_updateHeaderExtension (typ : RTPCodecType) (l : List (URI × Nat)) (m : MediaEngine) :
    ∃ table, l.foldl (fun m (extension, id) => m.updateHeaderExtension id extension typ) m =
        { m with negotiatedHeaderExtensions := table } ∧
      entries table = (entries m.negotiatedHeaderExtensions).map fun e =>
        l.foldl (announce m.headerExtensions typ) e := by
  induction l generalizing m with
  | nil => exact ⟨_, rfl, Option.map_id.symm ▸ rfl⟩
  | cons pair l ih =>
    obtain ⟨table, heq, hentries⟩ := ih (m.updateHeaderExtension pair.2 pair.1 typ)
    refine ⟨table, heq.trans ?_, hentries.trans ?_⟩
    · unfold updateHeaderExtension
      cases m.negotiatedHeaderExtensions <;> rfl
    · unfold updateHeaderExtension entries
      cases hneg : m.negotiatedHeaderExtensions with
      | none => rw [hneg]; rfl
      | some t =>
        simp only [Option.map_some, foldl_cons, lookup_foldl_enable]

/-- No two registered URIs of the section have one ID. -/
def ClearSection (m : MediaEngine) (media : MediaSection) : Prop :=
  ∀ u v i, media.pairs u i → media.pairs v i → m.Registered u → m.Registered v → u = v

/-- The sections differ in nothing but the orders of their loops. -/
def SameSection (media media' : MediaSection) : Prop :=
  ∃ first second, media' = { media with firstOrder := first, secondOrder := second }

section Description

variable {m m' : MediaEngine} {media media' : MediaSection}

theorem Alike.fromMediaSection (h : Alike m m') (hclear : m.ClearSection media)
    (hsame : SameSection media media') (order order' : MapOrder) :
    (∃ e, m.updateHeaderExtensionFromMediaSection media order = .error e ∧
      m'.updateHeaderExtensionFromMediaSection media' order' = .error e) ∨
    ∃ m₁ m₁', m.updateHeaderExtensionFromMediaSection media order = .ok m₁ ∧
      m'.updateHeaderExtensionFromMediaSection media' order' = .ok m₁' ∧ Alike m₁ m₁' := by
  obtain ⟨first, second, rfl⟩ := hsame
  unfold updateHeaderExtensionFromMediaSection
  by_cases hk : media.media = .unknown
  · rw [if_pos hk, if_pos hk]
    exact .inr ⟨m, m', rfl, rfl, h⟩
  · rw [if_neg hk, if_neg hk]
    cases hext : rtpExtensionsFromMediaDescription media.extmap with
    | none => exact .inl ⟨_, rfl, rfl⟩
    | some map =>
      refine .inr ⟨_, _, rfl, rfl, ?_⟩
      obtain ⟨table, rfl, htable⟩ := h
      obtain ⟨t, heq, ht⟩ := foldl_updateHeaderExtension media.media (map.range order) m
      obtain ⟨t', heq', ht'⟩ := foldl_updateHeaderExtension media.media (map.range order')
        { m with negotiatedHeaderExtensions := table }
      refine ⟨t', by rw [heq, heq'], ?_⟩
      rw [heq, ht', ht, htable]
      -- the two walks visit the same pairs
      have hwalks := (map.range_perm order order').foldl_eq'
        (f := announce m.headerExtensions media.media) fun x hx y hy e => by
          refine announce_comm (fun hid hu hv => ?_) e
          have hx := rtpExtensions_entries hext (GoMap.mem_range.mp hx)
          have hy := rtpExtensions_entries hext (GoMap.mem_range.mp hy)
          exact hclear x.1 y.1 x.2 ⟨hk, hx⟩ ⟨hk, hid ▸ hy⟩ hu hv
      rw [funext hwalks]

def AlikeOut (out out' : MediaEngine × Option MediaError) : Prop :=
  Alike out.1 out'.1 ∧ out'.2 = out.2

theorem Alike.fromCodecs (h : Alike m m') (hclear : m.ClearSection media)
    (hsame : SameSection media media') :
    AlikeOut (m.updateFromCodecs media) (m'.updateFromCodecs media') := by
  have hcodecs : media'.codecs = media.codecs := by
    obtain ⟨_, _, rfl⟩ := hsame
    rfl
  unfold updateFromCodecs
  rw [hcodecs]
  cases media.codecs with
  | failed => exact ⟨h, rfl⟩
  | noMatch => exact ⟨h, rfl⟩
  | matched =>
    dsimp only
    rcases h.fromMediaSection hclear hsame media.secondOrder media'.secondOrder with
      ⟨e, he, he'⟩ | ⟨m₁, m₁', hm, hm', h₁⟩
    · rw [he, he']
      exact ⟨h, rfl⟩
    · rw [hm, hm']
      exact ⟨h₁, rfl⟩

theorem Alike.fromSection (h : Alike m m') (hclear : m.ClearSection media)
    (hsame : SameSection media media') :
    AlikeOut (m.updateFromMediaSection media) (m'.updateFromMediaSection media') := by
  have hcall := h.fromMediaSection hclear hsame media.firstOrder media'.firstOrder
  obtain ⟨table, rfl, htable⟩ := id h
  obtain ⟨first, second, rfl⟩ := id hsame
  unfold updateFromMediaSection
  dsimp only at hcall ⊢
  split_ifs with ha hv
  · exact Alike.fromCodecs ⟨table, rfl, htable⟩ hclear hsame
  · exact Alike.fromCodecs ⟨table, rfl, htable⟩ hclear hsame
  · rcases hcall with ⟨e, he, he'⟩ | ⟨m₁, m₁', hm, hm', h₁⟩
    · rw [he, he']
      exact ⟨h, rfl⟩
    · rw [hm, hm']
      have hext := (takes_updateHeaderExtensionFromMediaSection hm).extensions
      have hclear₁ : m₁.ClearSection media := by
        unfold ClearSection Registered
        rw [hext]
        exact hclear
      obtain ⟨table₁, rfl, -⟩ := id h₁
      dsimp only
      split_ifs
      · exact ⟨h₁, rfl⟩
      · exact h₁.fromCodecs hclear₁ hsame

/-- **One remote description.** -/
theorem Alike.remote {sections sections' : List MediaSection} (h : Alike m m')
    (hclear : ∀ media ∈ sections, m.ClearSection media)
    (hsame : Forall₂ SameSection sections sections') :
    Alike (m.updateFromRemoteDescription sections).1
      (m'.updateFromRemoteDescription sections').1 := by
  induction hsame generalizing m m' with
  | nil => exact h
  | @cons media media' sections sections' hfirst _ ih =>
    obtain ⟨h₁, herr⟩ := h.fromSection (hclear media mem_cons_self) hfirst
    have hext := (takes_updateFromMediaSection m media).extensions
    rw [updateFromRemoteDescription, updateFromRemoteDescription]
    generalize m.updateFromMediaSection media = out at h₁ herr hext
    generalize m'.updateFromMediaSection media' = out' at h₁ herr
    obtain ⟨m₁, err⟩ := out
    obtain ⟨m₁', err'⟩ := out'
    obtain rfl : err' = err := herr
    cases err' with
    | some e => exact h₁
    | none =>
      refine ih h₁ fun s hs => ?_
      unfold ClearSection Registered
      rw [hext]
      exact hclear s (mem_cons_of_mem _ hs)

/-! ## The list -/

theorem Alike.range_perm (h : Alike m m') (order order' : MapOrder) :
    (m.negotiated.range order).Perm (m'.negotiated.range order') := by
  obtain ⟨table, rfl, htable⟩ := h
  rw [perm_ext_iff_of_nodup (GoMap.nodup_keys_range _ _).of_map (GoMap.nodup_keys_range _ _).of_map]
  intro e
  rw [GoMap.mem_range, GoMap.mem_range]
  exact (congrArg (· = some e.2) (lookup_negotiated htable e.1)).symm.to_iff

theorem reserve_comm (p : Picker) {u v : URI} {i j : Nat} (h : u = v → i = j) :
    (p.reserve u i).reserve v j = (p.reserve v j).reserve u i := by
  by_cases huv : u = v
  · rw [huv, h huv]
  · have hvu : v ≠ u := Ne.symm huv
    unfold Picker.reserve
    rw [Picker.mk.injEq]
    constructor
    · funext w
      by_cases hu : w = u
      · subst hu; simp [huv]
      · simp [hu, hvu]
    · funext k
      by_cases hi : k = i <;> simp [hi]

/-- No URI has two IDs in the negotiated table. -/
def ClearTable (m : MediaEngine) : Prop := ∀ u i j, m.pair u i → m.pair u j → i = j

/-- **One call**: the lists are equal and the engines stay alike. -/
theorem Alike.parameters (h : Alike m m') (hclear : m.ClearTable) (typ : RTPCodecType)
    (dirs : List RTPTransceiverDirection) (order order' : MapOrder) :
    (m.getRTPParametersByKind typ dirs order).1 = (m'.getRTPParametersByKind typ dirs order').1 ∧
      Alike (m.getRTPParametersByKind typ dirs order).2
        (m'.getRTPParametersByKind typ dirs order').2 := by
  have hperm := h.range_perm order order'
  have hpair : ∀ x ∈ m.negotiated.range order, m.pair x.2.uri x.1 := fun x hx =>
    ⟨x.2, GoMap.mem_range.mp hx, rfl⟩
  obtain ⟨table, hm', htable⟩ := id h
  have hkind : m'.negotiatedKind typ = m.negotiatedKind typ := by rw [hm']; rfl
  unfold getRTPParametersByKind
  rw [hkind]
  by_cases hneg : m.negotiatedKind typ = true
  · rw [if_pos hneg, if_pos hneg]
    refine ⟨sortHeaderExtensions_perm ((hperm.filter _).map _) fun a ha b hb huri => ?_, h⟩
    obtain ⟨x, hx, rfl⟩ := mem_map.mp ha
    obtain ⟨y, hy, rfl⟩ := mem_map.mp hb
    have hx := hpair x (mem_filter.mp hx).1
    have hy := hpair y (mem_filter.mp hy).1
    dsimp only at huri ⊢
    rw [huri] at hx
    rw [hclear _ _ _ hx hy, huri]
  · rw [if_neg hneg, if_neg hneg]
    have hreserved : reserveAll (m.negotiated.range order) m.headerExtensionIDs =
        reserveAll (m'.negotiated.range order') m'.headerExtensionIDs := by
      rw [hm']
      rw [hm'] at hperm
      exact hperm.foldl_eq' (fun x hx y hy p => reserve_comm p fun huri =>
        hclear _ _ _ (hpair x hx) (huri ▸ hpair y hy)) _
    rw [hreserved]
    subst hm'
    exact ⟨rfl, table, rfl, htable⟩

end Description

/-! ## Whole runs -/

inductive EngineCall where
  | register (uri : URI) (typ : RTPCodecType) (dirs : List RTPTransceiverDirection)
  | remote (sections : List MediaSection)
  | parameters (typ : RTPCodecType) (dirs : List RTPTransceiverDirection) (order : MapOrder)

/-- The lists that the `getRTPParametersByKind` calls of a run return. -/
def lists (m : MediaEngine) : List EngineCall → List (List HeaderExtensionParameter)
  | [] => []
  | .register uri typ dirs :: calls => (m.registerHeaderExtension uri typ dirs).1.lists calls
  | .remote sections :: calls => (m.updateFromRemoteDescription sections).1.lists calls
  | .parameters typ dirs order :: calls =>
    let (list, m) := m.getRTPParametersByKind typ dirs order
    list :: m.lists calls

/-- The calls differ in nothing but the orders of their loops. -/
inductive SameCall : EngineCall → EngineCall → Prop
  | register (uri : URI) (typ : RTPCodecType) (dirs : List RTPTransceiverDirection) :
      SameCall (.register uri typ dirs) (.register uri typ dirs)
  | remote {sections sections' : List MediaSection} (h : Forall₂ SameSection sections sections') :
      SameCall (.remote sections) (.remote sections')
  | parameters (typ : RTPCodecType) (dirs : List RTPTransceiverDirection)
      (order order' : MapOrder) :
      SameCall (.parameters typ dirs order) (.parameters typ dirs order')

/-- No call of the run meets a competition. -/
def ClearRun (m : MediaEngine) : List EngineCall → Prop
  | [] => True
  | .register uri typ dirs :: calls => ClearRun (m.registerHeaderExtension uri typ dirs).1 calls
  | .remote sections :: calls =>
    (∀ media ∈ sections, m.ClearSection media) ∧
      ClearRun (m.updateFromRemoteDescription sections).1 calls
  | .parameters typ dirs order :: calls =>
    m.ClearTable ∧ ClearRun (m.getRTPParametersByKind typ dirs order).2 calls

theorem Alike.register {m m' : MediaEngine} (h : Alike m m') (uri : URI) (typ : RTPCodecType)
    (dirs : List RTPTransceiverDirection) :
    Alike (m.registerHeaderExtension uri typ dirs).1
      (m'.registerHeaderExtension uri typ dirs).1 := by
  obtain ⟨table, rfl, htable⟩ := h
  unfold registerHeaderExtension
  dsimp only
  have hentries := congrArg some (funext (lookup_negotiated htable))
  split_ifs <;> exact ⟨_, rfl, hentries⟩

theorem Alike.lists_eq {m m' : MediaEngine} {calls calls' : List EngineCall}
    (hsame : Forall₂ SameCall calls calls') (h : Alike m m') (hclear : m.ClearRun calls) :
    m.lists calls = m'.lists calls' := by
  induction hsame generalizing m m' with
  | nil => rfl
  | cons hcall _ ih =>
    cases hcall with
    | register uri typ dirs => exact ih (h.register uri typ dirs) hclear
    | remote hsections => exact ih (h.remote hclear.1 hsections) hclear.2
    | parameters typ dirs order order' =>
      obtain ⟨hlist, hafter⟩ := h.parameters hclear.1 typ dirs order order'
      exact congrArg₂ cons hlist (ih hafter hclear.2)

/-- **Header extension lists do not depend on map order** in a run in which no
two registered URIs are announced under one ID and no URI has two. -/
theorem header_extension_lists_independent (multi : Bool) {calls calls' : List EngineCall}
    (hsame : Forall₂ SameCall calls calls') (hclear : (new multi).ClearRun calls) :
    (new multi).lists calls = (new multi).lists calls' :=
  Alike.lists_eq hsame ⟨none, rfl, rfl⟩ hclear

/-- Audio sections, each with the IDs that it announces. -/
def audioSections (sections : List (List (URI × Nat))) (order : MapOrder) : List MediaSection :=
  sections.map fun pairs => ⟨.audio, pairs.map some, .matched, order, order⟩

/-- Two extensions are registered, announced and listed. -/
def audioRun (sections : List (List (URI × Nat))) (order : MapOrder) : List EngineCall :=
  [.register ssrcAudioLevel .audio [], .register toffset .audio [],
    .remote (audioSections sections order), .parameters .audio [.sendonly] order]

/-- The entries in the opposite order. -/
def reversed : MapOrder := ⟨List.reverse, List.reverse_perm⟩

theorem audioRun_same (sections : List (List (URI × Nat))) (order order' : MapOrder) :
    Forall₂ SameCall (audioRun sections order) (audioRun sections order') := by
  refine .cons (.register ..)
    (.cons (.register ..) (.cons (.remote ?_) (.cons (.parameters ..) .nil)))
  rw [audioSections, audioSections, forall₂_map_left_iff, forall₂_map_right_iff]
  exact forall₂_same.mpr fun pairs _ => ⟨order', order', rfl⟩

theorem announced_of_pair {m : MediaEngine} {pairs : List (URI × Nat)} {order : MapOrder} {u : URI}
    {i : Nat} (hempty : m.negotiated = ∅)
    (h : (m.updateFromRemoteDescription (audioSections [pairs] order)).1.pair u i) :
    (u, i) ∈ pairs := by
  obtain ⟨e, he, rfl⟩ := h
  rcases (takes_updateFromRemoteDescription _ _).entries i e he with
    ⟨_, hold, -⟩ | ⟨⟨media, hmedia, -, hpair⟩, -⟩
  · rw [hempty] at hold
    cases hold
  · obtain rfl := mem_singleton.mp hmedia
    simpa using hpair

theorem header_extension_lists_independent_two_uris :
    (new false).lists (audioRun [[(ssrcAudioLevel, 5), (toffset, 6)]] .stored) =
        (new false).lists (audioRun [[(ssrcAudioLevel, 5), (toffset, 6)]] reversed) ∧
      (new false).lists (audioRun [[(ssrcAudioLevel, 5), (toffset, 6)]] reversed) =
        [[⟨5, ssrcAudioLevel⟩, ⟨6, toffset⟩]] := by
  have hone : ∀ x ∈ [(ssrcAudioLevel, 5), (toffset, 6)],
      ∀ y ∈ [(ssrcAudioLevel, 5), (toffset, 6)], x.1 = y.1 ↔ x.2 = y.2 := by decide
  refine ⟨header_extension_lists_independent false (audioRun_same _ _ _) ⟨?_, ?_, trivial⟩, by rfl⟩
  · intro media hmedia u v i hu hv _ _
    obtain rfl := mem_singleton.mp hmedia
    exact (hone (u, i) (by simpa using hu.2) (v, i) (by simpa using hv.2)).mpr rfl
  · intro u i j hi hj
    exact (hone _ (announced_of_pair rfl hi) _ (announced_of_pair rfl hj)).mp rfl

/-- **A URI with two IDs**: the list is as the map was walked. -/
theorem header_extension_lists_two_ids :
    Forall₂ SameCall (audioRun [[(ssrcAudioLevel, 5)], [(ssrcAudioLevel, 6)]] .stored)
        (audioRun [[(ssrcAudioLevel, 5)], [(ssrcAudioLevel, 6)]] reversed) ∧
      (new false).lists (audioRun [[(ssrcAudioLevel, 5)], [(ssrcAudioLevel, 6)]] .stored) =
        [[⟨6, ssrcAudioLevel⟩, ⟨5, ssrcAudioLevel⟩]] ∧
      (new false).lists (audioRun [[(ssrcAudioLevel, 5)], [(ssrcAudioLevel, 6)]] reversed) =
        [[⟨5, ssrcAudioLevel⟩, ⟨6, ssrcAudioLevel⟩]] :=
  ⟨audioRun_same _ _ _, by rfl, by rfl⟩

end MediaEngine

end HeadlessClient.WebRTC
