import HeadlessClient.QuicTLS.Profile
import HeadlessClient.QuicTLS.Setup

/-!
# QuicTLS — isolation

Connections set up from one spec do not see each other, in any order of their steps.

The memory a run starts with, below `start`, has the cached spec, and is never
written to but for the random content of a GREASE for ECH (`Grown`). What each
connection has copied lies above, and no two connections reach a common cell of it
(`Separate`). So a step of one connection leaves alone what the others have, and
what a connection has is, place by place, on the way from the cached spec to its own
ClientHello (`Sound`).
-/

namespace HeadlessClient.QuicTLS

open Base List

variable {start : Nat} {h h' h'' : Heap}

/-! ## The memory below -/

/-- Nothing below `start` has changed, but what was random and not yet chosen. -/
def Grown (start : Nat) (h h' : Heap) : Prop :=
  ∀ a < start, h'[a]? = h[a]? ∨
    h[a]? = some (.extension (.greaseECH none)) ∧
      ∃ bytes, h'[a]? = some (.extension (.greaseECH (some bytes)))

theorem grown_refl (start : Nat) (h : Heap) : Grown start h h := fun _ _ => .inl rfl

theorem Grown.trans (hg : Grown start h h') (hg' : Grown start h' h'') : Grown start h h'' := by
  intro a ha
  rcases hg a ha with hsame | ⟨hnone, bytes, hbytes⟩
  · have hnext := hg' a ha
    rw [hsame] at hnext
    exact hnext
  · rcases hg' a ha with hsame | ⟨hnone', -⟩
    · exact .inr ⟨hnone, bytes, hsame.trans hbytes⟩
    · rw [hbytes] at hnone'
      cases hnone'

theorem grown_append (hstart : start ≤ h.length) (cells : List Cell) :
    Grown start h (h ++ cells) := fun _ ha =>
  .inl (getElem?_append_left (Nat.lt_of_lt_of_le ha hstart))

variable {a q : Nat}

theorem Grown.blockAt (hg : Grown start h h') (ha : a < start) : blockAt h' a = blockAt h a := by
  rcases hg a ha with hsame | ⟨hnone, bytes, hbytes⟩
  · exact blockAt_congr hsame
  · simp [QuicTLS.blockAt, hnone, hbytes]

theorem Grown.extensionAt (hg : Grown start h h') (ha : a < start) :
    extensionAt h' a = extensionAt h a ∨
      extensionAt h a = .greaseECH none ∧ ∃ bytes, extensionAt h' a = .greaseECH (some bytes) := by
  rcases hg a ha with hsame | ⟨hnone, bytes, hbytes⟩
  · exact .inl (extensionAt_congr hsame)
  · right
    exact ⟨by simp [QuicTLS.extensionAt, hnone], bytes, by simp [QuicTLS.extensionAt, hbytes]⟩

/-- An extension of an emitted kind, all below `start`. -/
structure Below (start : Nat) (h : Heap) (p : Nat) : Prop where
  emitted : (extensionAt h p).Emitted
  below : ∀ a ∈ footprint h p, a < start

section
variable {p : Nat}

theorem isGreaseECH_iff : (extensionAt h p).isGreaseECH = true ↔
    ∃ state, extensionAt h p = .greaseECH state := by
  cases extensionAt h p <;> simp [Extension.isGreaseECH]

variable (hp : Below start h p) (hg : Grown start h h')

include hp hg

theorem Below.blocks :
    ∀ a ∈ reach (blockAt h) (extensionAt h p), QuicTLS.blockAt h' a = QuicTLS.blockAt h a :=
  fun a ha => hg.blockAt (hp.below a (mem_cons_of_mem _ ha))

theorem Below.footprint : footprint h' p = footprint h p := by
  rcases hg.extensionAt (hp.below p mem_cons_self) with hsame | ⟨hnone, bytes, hbytes⟩
  · rw [QuicTLS.footprint, hsame, reach_congr (hp.blocks hg), QuicTLS.footprint]
  · rw [QuicTLS.footprint, hbytes, QuicTLS.footprint, hnone]
    rfl

theorem Below.kept : Kept (content h p) (content h' p) := by
  rcases hg.extensionAt (hp.below p mem_cons_self) with hsame | ⟨hnone, bytes, hbytes⟩
  · left
    rw [content, hsame, contentOf_congr (hp.blocks hg), content]
  · right
    rw [content, content, hnone, hbytes]
    exact ⟨rfl, bytes, rfl⟩

theorem Below.isGreaseECH :
    (extensionAt h' p).isGreaseECH = (extensionAt h p).isGreaseECH := by
  rcases hg.extensionAt (hp.below p mem_cons_self) with hsame | ⟨hnone, bytes, hbytes⟩
  · rw [hsame]
  · rw [hnone, hbytes]
    rfl

theorem Below.grown : Below start h' p := by
  constructor
  · rcases hg.extensionAt (hp.below p mem_cons_self) with hsame | ⟨-, bytes, hbytes⟩
    · rw [hsame]
      exact hp.emitted
    · rw [hbytes]
      trivial
  · rw [hp.footprint hg]
    exact hp.below

theorem Below.content_eq (hech : (extensionAt h p).isGreaseECH = false) :
    content h' p = content h p := by
  rcases hp.kept hg with hsame | ⟨hnone, -⟩
  · exact hsame
  · cases he : extensionAt h p <;>
      simp [content, he, contentOf, Extension.isGreaseECH] at hnone hech

end

/-! ## The memory of a connection -/

/-- What a connection has copied. -/
def own (start : Nat) : Footprint Cell (List Nat) where
  cells h extensions := (extensions.filter (start ≤ ·)).flatMap (footprint h)
  congr hsame := by
    apply flatMap_congr
    intro p hp
    apply footprint_congr
    intro a ha
    exact hsame a (mem_flatMap.mpr ⟨p, hp, ha⟩)

theorem mem_own {extensions : List Nat} :
    a ∈ (own start).cells h extensions ↔ ∃ p ∈ extensions, start ≤ p ∧ a ∈ footprint h p := by
  simp only [own, mem_flatMap, mem_filter, decide_eq_true_eq, and_assoc]

/-- An extension `q` of a connection for the extension `p` of the cached spec. -/
structure Linked (start : Nat) (handshake : Handshake) (stage : Stage) (h : Heap) (p q : Nat) :
    Prop where
  shared : (extensionAt h p).isGreaseECH = true → q = p
  copied : (extensionAt h p).isGreaseECH = false → start ≤ q
  progress : Progress handshake stage (content h p) (content h q)

/-- A connection on its way. -/
structure Sound (start : Nat) (cached : ClientHelloSpec) (h : Heap) (c : Setup) : Prop where
  lists : c.spec = { cached with extensions := c.spec.extensions }
  short : c.spec.extensions.length ≤ cached.extensions.length
  whole : c.stage ≠ .copying → c.spec.extensions.length = cached.extensions.length
  linked : ∀ k p q : Nat, cached.extensions[k]? = some p → c.spec.extensions[k]? = some q →
    Linked start c.handshake c.stage h p q
  hello : ∀ hello, c.hello = some hello → CarriesSpec c.handshake cached h hello

structure Inv (start : Nat) (cached : ClientHelloSpec) (s : State) : Prop where
  length : start ≤ s.heap.length
  below : ∀ p ∈ cached.extensions, Below start s.heap p
  separate : Separate (own start) start s.heap fun i : Nat =>
    s.setups[i]?.map fun c => c.spec.extensions
  sound : ∀ (i : Nat) c, s.setups[i]? = some c → Sound start cached s.heap c

variable {cached : ClientHelloSpec} {c : Setup} {handshake : Handshake} {stage : Stage}

/-! ## What the other connections do -/

theorem progress_shared {p : Nat} (hech : (extensionAt h p).isGreaseECH = true) :
    Progress handshake stage (content h p) (content h p) := by
  obtain ⟨state, hstate⟩ := isGreaseECH_iff.mp hech
  rw [content, hstate]
  exact .greaseECH state

/-- A link in a later memory, at a later stage. Only a copy has to be looked at. -/
theorem Linked.later {stage' : Stage} {p : Nat} (hl : Linked start handshake stage h p q)
    (hp : Below start h p) (hg : Grown start h h')
    (hprogress : (extensionAt h p).isGreaseECH = false →
      Progress handshake stage' (content h p) (content h' q)) :
    Linked start handshake stage' h' p q := by
  have hkind := hp.isGreaseECH hg
  constructor
  · rw [hkind]
    exact hl.shared
  · rw [hkind]
    exact hl.copied
  · cases hech : (extensionAt h p).isGreaseECH with
    | true =>
      rw [hl.shared hech]
      exact progress_shared (hkind.trans hech)
    | false =>
      rw [hp.content_eq hg hech]
      exact hprogress hech

theorem Carries.kept {a b d : Content} (hc : Carries handshake a d) (hk : Kept a b) :
    Carries handshake b d := by
  rcases hk with rfl | ⟨rfl, -⟩
  · exact hc
  · cases hc

theorem CarriesSpec.grown {hello : Hello} (hc : CarriesSpec handshake cached h hello)
    (hbelow : ∀ p ∈ cached.extensions, Below start h p) (hg : Grown start h h') :
    CarriesSpec handshake cached h' hello := by
  refine ⟨hc.versions, hc.cipherSuites, hc.compressionMethods, ?_⟩
  have hkept : List.Forall₂ (fun b a => Kept a b) (cached.extensions.map (content h'))
      (cached.extensions.map (content h)) := by
    rw [forall₂_map_left_iff, forall₂_map_right_iff]
    exact forall₂_same.mpr fun p hp => (hbelow p hp).kept hg
  exact forall₂_comp hkept hc.extensions fun _ _ _ hk hcarries => hcarries.kept hk

theorem Sound.later (hs : Sound start cached h c)
    (hbelow : ∀ p ∈ cached.extensions, Below start h p) (hg : Grown start h h') (stage : Stage)
    (hwhole : stage ≠ .copying → c.spec.extensions.length = cached.extensions.length)
    (hprogress : ∀ p, ∀ q ∈ c.spec.extensions, Linked start c.handshake c.stage h p q →
      start ≤ q → (extensionAt h p).isGreaseECH = false →
        Progress c.handshake stage (content h p) (content h' q)) :
    Sound start cached h' { c with stage := stage } := by
  refine ⟨hs.lists, hs.short, hwhole, ?_, ?_⟩
  · intro k p q hp hq
    have hl := hs.linked k p q hp hq
    apply hl.later (hbelow p (mem_of_getElem? hp)) hg
    intro hech
    exact hprogress p q (mem_of_getElem? hq) hl (hl.copied hech) hech
  · intro hello hsent
    exact (hs.hello hello hsent).grown hbelow hg

theorem Sound.frame (hs : Sound start cached h c)
    (hbelow : ∀ p ∈ cached.extensions, Below start h p) (hg : Grown start h h')
    (hsame : ∀ a ∈ (own start).cells h c.spec.extensions, h'[a]? = h[a]?) :
    Sound start cached h' c := by
  apply hs.later hbelow hg c.stage hs.whole
  intro p q hq hl hge _
  rw [content_congr fun a ha => hsame a (mem_own.mpr ⟨q, hq, hge, ha⟩)]
  exact hl.progress

/-- **A step of one connection.** It is enough to look at that connection. -/
theorem Inv.update {s s' : State} {i : Nat} {c' : Setup} {area cells : List Nat}
    (hinv : Inv start cached s) (hi : s'.setups[i]? = some c')
    (hothers : ∀ j, j ≠ i → s'.setups[j]? = s.setups[j]?)
    (hcells : ∀ a ∈ cells, ∃ c, s.setups[i]? = some c ∧
      a ∈ (own start).cells s.heap c.spec.extensions)
    (hw : Writes area s.heap s'.heap) (harea : ∀ a ∈ area, a ∈ cells ∨ a < start)
    (hg : Grown start s.heap s'.heap) (hreach : ∀ a ∈ (own start).cells s'.heap c'.spec.extensions,
      a ∈ cells ∨ s.heap.length ≤ a ∧ a < s'.heap.length)
    (hsound : Sound start cached s'.heap c') : Inv start cached s' := by
  have hown : ∀ a ∈ cells, ∃ x, (s.setups[i]?.map fun c => c.spec.extensions) = some x ∧
      a ∈ (own start).cells s.heap x := by
    intro a ha
    obtain ⟨c, hc, hmem⟩ := hcells a ha
    exact ⟨c.spec.extensions, by rw [hc]; rfl, hmem⟩
  constructor
  · exact Nat.le_trans hinv.length hw.length_le
  · intro p hp
    exact (hinv.below p hp).grown hg
  · apply hinv.separate.write hinv.length hown (by rw [hi]; rfl) _ hw harea hreach
    intro j hj
    rw [hothers j hj]
  · intro j d hd
    by_cases hj : j = i
    · subst hj
      rw [hi] at hd
      cases hd
      exact hsound
    · rw [hothers j hj] at hd
      apply (hinv.sound j d hd).frame hinv.below hg
      exact hinv.separate.kept hown hw harea (by rw [hd]; rfl) (Ne.symm hj)

/-! ## The steps -/

theorem Sound.exists_linked (hs : Sound start cached h c) (hq : q ∈ c.spec.extensions) :
    ∃ p ∈ cached.extensions, Linked start c.handshake c.stage h p q := by
  obtain ⟨k, hk⟩ := mem_iff_getElem?.mp hq
  have hlt : k < cached.extensions.length :=
    Nat.lt_of_lt_of_le (List.getElem?_eq_some_iff.mp hk).1 hs.short
  have hp : cached.extensions[k]? = some cached.extensions[k] := getElem?_eq_getElem hlt
  exact ⟨_, getElem_mem hlt, hs.linked k _ q hp hk⟩

/-- Below `start` a connection has GREASE for ECH only. -/
theorem Sound.isGreaseECH_of_lt (hs : Sound start cached h c) (hq : q ∈ c.spec.extensions)
    (hlt : q < start) : (extensionAt h q).isGreaseECH = true := by
  obtain ⟨p, -, hl⟩ := hs.exists_linked hq
  cases hech : (extensionAt h p).isGreaseECH with
  | true =>
    rw [hl.shared hech]
    exact hech
  | false =>
    have hle := hl.copied hech
    omega

theorem footprint_greaseECH (hech : (extensionAt h q).isGreaseECH = true) :
    footprint h q = [q] := by
  obtain ⟨state, hstate⟩ := isGreaseECH_iff.mp hech
  rw [footprint, hstate]
  rfl

/-- All a connection reaches is its own, or below. -/
theorem Sound.own_or_lt (hs : Sound start cached h c) (hq : q ∈ c.spec.extensions)
    (ha : a ∈ footprint h q) : a ∈ (own start).cells h c.spec.extensions ∨ a < start := by
  rcases Nat.lt_or_ge q start with hlt | hge
  · rw [footprint_greaseECH (hs.isGreaseECH_of_lt hq hlt), mem_singleton] at ha
    exact .inr (ha ▸ hlt)
  · exact .inl (mem_own.mpr ⟨q, hq, hge, ha⟩)

theorem Sound.extend {p : Nat} (hs : Sound start cached h c) (hstage : c.stage = .copying)
    (hp : cached.extensions[c.spec.extensions.length]? = some p)
    (hl : Linked start c.handshake c.stage h p q) :
    Sound start cached h (c.withExtensions (c.spec.extensions ++ [q])) := by
  refine ⟨?_, ?_, ?_, ?_, hs.hello⟩
  · rw [Setup.withExtensions, hs.lists]
  · have hlt := (List.getElem?_eq_some_iff.mp hp).1
    simpa [Setup.withExtensions] using Nat.succ_le_of_lt hlt
  · intro hnot
    exact absurd hstage hnot
  · intro k p' q' hp' hq'
    simp only [Setup.withExtensions] at hq'
    rcases Nat.lt_trichotomy k c.spec.extensions.length with hlt | rfl | hgt
    · rw [getElem?_append_left hlt] at hq'
      exact hs.linked k p' q' hp' hq'
    · rw [hp] at hp'
      rw [getElem?_append_right (Nat.le_refl _), Nat.sub_self] at hq'
      cases hp'
      cases hq'
      exact hl
    · rw [getElem?_eq_none (by simpa using Nat.succ_le_of_lt hgt)] at hq'
      cases hq'

theorem getElem?_greaseECH (hech : (extensionAt h a).isGreaseECH = true) :
    ∃ state, h[a]? = some (.extension (.greaseECH state)) := by
  obtain ⟨state, hstate⟩ := isGreaseECH_iff.mp hech
  rw [extensionAt] at hstate
  split at hstate
  · next e he => exact ⟨state, by rw [he, hstate]⟩
  · cases hstate

theorem isGreaseECH_of_content {state : Option Bytes} (hcontent : content h a = .greaseECH state) :
    (extensionAt h a).isGreaseECH = true := by
  rw [content] at hcontent
  cases he : extensionAt h a <;> rw [he] at hcontent <;> first | rfl | cases hcontent

theorem Linked.not_greaseECH {p : Nat} (hl : Linked start handshake stage h p q)
    (hech : (extensionAt h p).isGreaseECH = false) : ∀ state, content h q ≠ .greaseECH state := by
  intro state hstate
  have hprogress := hl.progress
  rw [hstate] at hprogress
  generalize hcontent : content h p = d at hprogress
  cases hprogress
  rw [isGreaseECH_of_content hcontent] at hech
  cases hech

section
variable {s : State} {i : Nat} {h' : Heap} {c' : Setup} {a p : Nat}
  (hinv : Inv start cached s) (hc : s.setups[i]? = some c)

include hinv hc

theorem Inv.own_lt (ha : a ∈ (own start).cells s.heap c.spec.extensions) : a < s.heap.length :=
  (hinv.separate.inside i c.spec.extensions (by rw [hc]; rfl) a ha).2

theorem Inv.put {area : List Nat} (hw : Writes area s.heap h')
    (harea : ∀ a ∈ area, a ∈ (own start).cells s.heap c.spec.extensions ∨ a < start)
    (hg : Grown start s.heap h') (hreach : ∀ a ∈ (own start).cells h' c'.spec.extensions,
      a ∈ (own start).cells s.heap c.spec.extensions ∨ s.heap.length ≤ a ∧ a < h'.length)
    (hsound : Sound start cached h' c') : Inv start cached (s.put i h' c') := by
  have hlt : i < s.setups.length := (List.getElem?_eq_some_iff.mp hc).1
  have hi : (s.put i h' c').setups[i]? = some c' := getElem?_set_self hlt
  apply hinv.update hi _ _ hw harea hg hreach hsound
  · intro j hj
    exact getElem?_set_ne (Ne.symm hj)
  · intro a ha
    exact ⟨c, hc, ha⟩

/-- A step that writes nothing. -/
theorem Inv.put_same
    (hextensions : c'.spec.extensions.filter (start ≤ ·) = c.spec.extensions.filter (start ≤ ·))
    (hsound : Sound start cached s.heap c') : Inv start cached (s.put i s.heap c') := by
  apply hinv.put hc (Writes.refl [] s.heap) _ (grown_refl start s.heap) _ hsound
  · intro a ha
    cases ha
  · intro a ha
    left
    simpa only [own, hextensions] using ha

/-! ### Copying -/

theorem inv_copyNext
    (hstage : c.stage = .copying) (hp : cached.extensions[c.spec.extensions.length]? = some p) :
    Inv start cached
        (s.put i (copyExtension s.heap p).1
          (c.withExtensions (c.spec.extensions ++ [(copyExtension s.heap p).2]))) ∧
      Grown start s.heap (copyExtension s.heap p).1 := by
  have hbelow := hinv.below p (mem_of_getElem? hp)
  have hs := hinv.sound i c hc
  cases hech : (extensionAt s.heap p).isGreaseECH with
  | true =>
    -- the object itself: nothing is written, and nothing is owned
    have hlt : p < start := hbelow.below p mem_cons_self
    have hl : Linked start c.handshake c.stage s.heap p p := by
      refine ⟨fun _ => rfl, fun hnot => ?_, progress_shared hech⟩
      rw [hech] at hnot
      cases hnot
    rw [copyExtension_shared hech]
    refine ⟨hinv.put_same hc ?_ (hs.extend hstage hp hl), grown_refl start s.heap⟩
    have hnot : ¬start ≤ p := by omega
    simp [Setup.withExtensions, filter_append, hnot]
  | false =>
    have hcopy := copyExtension_isCopy hbelow.emitted hech
    obtain ⟨cells, hcells⟩ := hcopy.appended
    have hg : Grown start s.heap (copyExtension s.heap p).1 := by
      rw [hcells]
      exact grown_append hinv.length cells
    have hw : Writes [] s.heap (copyExtension s.heap p).1 := by
      rw [hcells]
      exact Writes.append [] s.heap cells
    have hsame : ∀ a ∈ (own start).cells s.heap c.spec.extensions,
        (copyExtension s.heap p).1[a]? = s.heap[a]? := by
      intro a ha
      exact hw.kept a (hinv.own_lt hc ha) not_mem_nil
    have hfresh : start ≤ (copyExtension s.heap p).2 :=
      Nat.le_trans hinv.length (hcopy.fresh _ mem_cons_self).1
    have hl : Linked start c.handshake c.stage (copyExtension s.heap p).1 p
        (copyExtension s.heap p).2 := by
      refine ⟨fun hyes => ?_, fun _ => hfresh, ?_⟩
      · rw [hbelow.isGreaseECH hg, hech] at hyes
        cases hyes
      · rw [hbelow.content_eq hg hech, hcopy.content, hstage]
        exact progress_reset hbelow.emitted
    refine ⟨hinv.put hc hw ?_ hg ?_ ((hs.frame hinv.below hg hsame).extend hstage hp hl), hg⟩
    · intro a ha
      cases ha
    · intro a ha
      obtain ⟨q, hq, hge, haq⟩ := mem_own.mp ha
      rcases mem_append.mp hq with hq | hq
      · left
        have hold : ∀ b ∈ footprint s.heap q, (copyExtension s.heap p).1[b]? = s.heap[b]? :=
          fun b hb => hsame b (mem_own.mpr ⟨q, hq, hge, hb⟩)
        rw [footprint_congr hold] at haq
        exact mem_own.mpr ⟨q, hq, hge, haq⟩
      · rw [mem_singleton.mp hq] at haq
        exact .inr (hcopy.fresh a haq)

/-! ### Writing to the extensions -/

/-- Below `start` there is only GREASE for ECH to write to. -/
theorem updateExtensions_below (cells : List Cell) {f : Extension → Extension}
    (hf : ∀ e, f (f e) = f e) (hech : ∀ state, f (.greaseECH state) = .greaseECH state)
    {a : Nat} (ha : a < start) :
    (updateExtensions f c.spec.extensions (s.heap ++ cells))[a]? = s.heap[a]? := by
  rw [getElem?_updateExtensions hf, getElem?_append_left (Nat.lt_of_lt_of_le ha hinv.length)]
  by_cases hmem : a ∈ c.spec.extensions
  · obtain ⟨state, hstate⟩ := getElem?_greaseECH ((hinv.sound i c hc).isGreaseECH_of_lt hmem ha)
    rw [if_pos hmem, hstate]
    simp [Cell.map, hech]
  · rw [if_neg hmem]

/-- The functions of the source that write to the extensions of a spec: new cells, then
a write `f` to every extension, which does not touch the GREASE for ECH. -/
theorem inv_updateExtensions
    (hwhole : c.spec.extensions.length = cached.extensions.length) (cells : List Cell)
    {f : Extension → Extension} (stage : Stage) (hf : ∀ e, f (f e) = f e)
    (hother : f .other = .other) (hech : ∀ state, f (.greaseECH state) = .greaseECH state)
    (hreach : ∀ e, ∀ a ∈ reach (blockAt (s.heap ++ cells)) (f e),
      a ∈ reach (blockAt (s.heap ++ cells)) e ∨
        s.heap.length ≤ a ∧ a < (s.heap ++ cells).length) (hprogress : ∀ d e,
      Progress c.handshake c.stage d (contentOf (blockAt (s.heap ++ cells)) e) →
      Progress c.handshake stage d (contentOf (blockAt (s.heap ++ cells)) (f e))) :
    Inv start cached
        (s.put i (updateExtensions f c.spec.extensions (s.heap ++ cells))
          { c with stage := stage }) ∧
      Grown start s.heap (updateExtensions f c.spec.extensions (s.heap ++ cells)) := by
  have hs := hinv.sound i c hc
  have hold : ∀ a < s.heap.length, (s.heap ++ cells)[a]? = s.heap[a]? :=
    fun a ha => getElem?_append_left ha
  have hg : Grown start s.heap (updateExtensions f c.spec.extensions (s.heap ++ cells)) :=
    fun a ha => .inl (updateExtensions_below hinv hc cells hf hech ha)
  have hw : Writes ((own start).cells s.heap c.spec.extensions) s.heap
      (updateExtensions f c.spec.extensions (s.heap ++ cells)) := by
    constructor
    · rw [length_updateExtensions, length_append]
      exact Nat.le_add_right _ _
    · intro a ha hnot
      rcases Nat.lt_or_ge a start with hlt | hge
      · exact updateExtensions_below hinv hc cells hf hech hlt
      · have hmem : a ∉ c.spec.extensions := fun hmem =>
          hnot (mem_own.mpr ⟨a, hmem, hge, mem_cons_self⟩)
        rw [getElem?_updateExtensions hf, if_neg hmem, hold a ha]
  -- what a copied extension is before and after
  have hreach' :
      ∀ q ∈ c.spec.extensions, start ≤ q → ∀ a ∈ reach (blockAt s.heap) (extensionAt s.heap q),
      blockAt (s.heap ++ cells) a = blockAt s.heap a := by
    intro q hq hge a ha
    exact blockAt_congr (hold a (hinv.own_lt hc
      (mem_own.mpr ⟨q, hq, hge, mem_cons_of_mem _ ha⟩)))
  have hafter : ∀ q ∈ c.spec.extensions, start ≤ q →
      extensionAt (updateExtensions f c.spec.extensions (s.heap ++ cells)) q
        = f (extensionAt s.heap q) := by
    intro q hq hge
    have hlt := hinv.own_lt hc (mem_own.mpr ⟨q, hq, hge, mem_cons_self⟩)
    rw [extensionAt_updateExtensions hf hother, if_pos hq, extensionAt_congr (hold q hlt)]
  refine ⟨hinv.put hc hw (fun a ha => .inl ha) hg ?_ ?_, hg⟩
  · intro a ha
    obtain ⟨q, hq, hge, haq⟩ := mem_own.mp ha
    rw [footprint, hafter q hq hge, blockAt_updateExtensions hf] at haq
    rw [length_updateExtensions]
    rcases mem_cons.mp haq with rfl | haq
    · exact .inl (mem_own.mpr ⟨a, hq, hge, mem_cons_self⟩)
    · rcases hreach _ a haq with haq | hfresh
      · rw [reach_congr (hreach' q hq hge)] at haq
        exact .inl (mem_own.mpr ⟨q, hq, hge, mem_cons_of_mem _ haq⟩)
      · exact .inr hfresh
  · apply hs.later hinv.below hg stage fun _ => hwhole
    intro p q hq hl hge _
    have hbefore : contentOf (blockAt (s.heap ++ cells)) (extensionAt s.heap q)
        = content s.heap q := contentOf_congr (hreach' q hq hge)
    have hcontent : content (updateExtensions f c.spec.extensions (s.heap ++ cells)) q
        = contentOf (blockAt (s.heap ++ cells)) (f (extensionAt s.heap q)) := by
      rw [content, hafter q hq hge, blockAt_updateExtensions hf]
    rw [hcontent]
    apply hprogress
    rw [hbefore]
    exact hl.progress

theorem inv_setName
    (hstage : c.stage = .copying) (hlength : c.spec.extensions.length = cached.extensions.length) :
    Inv start cached
        (s.put i (setSNIServerName s.heap c.spec.extensions c.handshake.serverName)
          { c with stage := .named }) ∧
      Grown start s.heap (setSNIServerName s.heap c.spec.extensions c.handshake.serverName) := by
  have hslices : ∀ e, (withServerName c.handshake.serverName e).slices = e.slices := by
    intro e
    cases e <;> rfl
  have hupdate := inv_updateExtensions hinv hc hlength [] .named
    (withServerName_twice c.handshake.serverName) rfl (fun _ => rfl)
  rw [append_nil] at hupdate
  apply hupdate
  · intro e a ha
    left
    simpa only [reach, hslices] using ha
  · intro d e hd
    rw [hstage] at hd
    exact progress_withServerName hd

theorem inv_setParameters (hstage : c.stage = .applied) :
    Inv start cached
        (s.put i (setTransportParameters s.heap c.spec.extensions c.handshake.parameters)
          { c with stage := .ready }) ∧
      Grown start s.heap
        (setTransportParameters s.heap c.spec.extensions c.handshake.parameters) := by
  have hwhole := (hinv.sound i c hc).whole (by rw [hstage]; decide)
  have hblock : blockAt (s.heap ++ [.block (.bytes c.handshake.parameters)]) s.heap.length
      = some (.bytes c.handshake.parameters) := by
    simp [blockAt]
  apply inv_updateExtensions hinv hc hwhole _ .ready (withParameters_twice _) rfl (fun _ => rfl)
  · -- the only new pointer is to the parameters
    intro e a ha
    cases e with
    | generic id data =>
      by_cases hid : id = quicTransportParametersExtensionID
      · right
        simp only [withParameters, if_pos hid] at ha
        simp [reach, Extension.slices, hblock, Block.slices] at ha
        simp [ha]
      · left
        simpa only [withParameters, if_neg hid] using ha
    | _ => exact .inl ha
  · intro d e hd
    rw [hstage] at hd
    exact progress_withParameters hd hblock

/-! ### uTLS -/

/-- Below `start` uTLS fills in the GREASE for ECH, and nothing else. -/
theorem grown_of_utls
    (hw : UtlsWrites c.handshake c.spec.extensions s.heap h') : Grown start s.heap h' := by
  have hs := hinv.sound i c hc
  intro a ha
  by_cases hmem : a ∈ c.spec.extensions.flatMap (footprint s.heap)
  · obtain ⟨q, hq, haq⟩ := mem_flatMap.mp hmem
    have hlt : q < start := by
      rcases Nat.lt_or_ge q start with hlt | hge
      · exact hlt
      · have hinside := hinv.separate.inside i c.spec.extensions (by rw [hc]; rfl) a
          (mem_own.mpr ⟨q, hq, hge, haq⟩)
        omega
    have hech := hs.isGreaseECH_of_lt hq hlt
    rw [footprint_greaseECH hech, mem_singleton] at haq
    subst haq
    obtain ⟨state, hstate⟩ := getElem?_greaseECH hech
    have hcontent : content s.heap a = .greaseECH state := by
      simp [content, extensionAt, hstate, contentOf]
    have hfills := hw.fills a hq
    rw [hcontent] at hfills
    -- what it is afterwards
    have hafter : ∀ state', content h' a = .greaseECH state' →
        h'[a]? = some (.extension (.greaseECH state')) := by
      intro state' hstate'
      obtain ⟨state'', hcell⟩ := getElem?_greaseECH (isGreaseECH_of_content hstate')
      simp [content, extensionAt, hcell, contentOf] at hstate'
      rw [hcell, hstate']
    generalize hnew : content h' a = new at hfills
    cases hfills with
    | same =>
      left
      rw [hafter state hnew, hstate]
    | greaseECH bytes =>
      right
      exact ⟨hstate, bytes, hafter _ hnew⟩
  · exact .inl (hw.writes.kept a (Nat.lt_of_lt_of_le ha hinv.length) hmem)

theorem inv_utls
    (hstage : c.stage ≠ .copying) (hw : UtlsWrites c.handshake c.spec.extensions s.heap h') :
    Inv start cached (s.put i h' c) := by
  have hs := hinv.sound i c hc
  have hg := grown_of_utls hinv hc hw
  have hnamed : c.stage.isNamed = true := by
    cases hcase : c.stage with
    | copying => exact absurd hcase hstage
    | _ => rfl
  apply hinv.put hc hw.writes _ hg
  · -- what it reaches afterwards
    intro a ha
    obtain ⟨q, hq, hge, haq⟩ := mem_own.mp ha
    rcases hw.reaches q hq a haq with hold | hfresh
    · exact .inl (mem_own.mpr ⟨q, hq, hge, hold⟩)
    · exact .inr hfresh
  · apply hs.later hinv.below hg c.stage hs.whole
    intro p q hq hl _ hech
    exact hl.progress.fill hnamed (hl.not_greaseECH hech) (hw.fills q hq)
  · intro a ha
    obtain ⟨q, hq, haq⟩ := mem_flatMap.mp ha
    exact hs.own_or_lt hq haq

/-! ### The rest -/

theorem inv_applyPreset (hstage : c.stage = .named) (hkeys : Generated s.heap c.spec.extensions) :
    Inv start cached (s.put i s.heap { c with stage := .applied }) := by
  have hs := hinv.sound i c hc
  refine hinv.put_same hc rfl ?_
  have hwhole := hs.whole (by rw [hstage]; decide)
  apply hs.later hinv.below (grown_refl start s.heap) .applied fun _ => hwhole
  intro p q hq hl _ _
  rw [hstage] at hl
  exact hl.progress.applyPreset (hkeys q hq)

theorem inv_send (hstage : c.stage = .ready) {suites : List UInt16}
    (hsuites : List.Forall₂ Regreased c.spec.cipherSuites suites)
    (hech : ∀ p ∈ c.spec.extensions, content s.heap p ≠ .greaseECH none) :
    Inv start cached (s.put i s.heap { c with hello := some (helloOf s.heap c.spec suites) }) := by
  have hs := hinv.sound i c hc
  have hwhole := hs.whole (by rw [hstage]; decide)
  refine hinv.put_same hc rfl ?_
  refine ⟨hs.lists, hs.short, hs.whole, hs.linked, ?_⟩
  intro hello hsent
  cases hsent
  rw [hs.lists] at hsuites
  refine ⟨?_, sameButGREASE_of_regreased hsuites, ?_, ?_⟩
  · rw [helloOf, hs.lists]
    exact ⟨rfl, rfl⟩
  · rw [helloOf, hs.lists]
  · -- place by place
    simp only [helloOf, forall₂_map_left_iff, forall₂_map_right_iff]
    rw [forall₂_iff_get]
    refine ⟨hwhole.symm, ?_⟩
    intro k hk hk'
    have hp : cached.extensions[k]? = some (cached.extensions.get ⟨k, hk⟩) :=
      getElem?_eq_getElem hk
    have hq : c.spec.extensions[k]? = some (c.spec.extensions.get ⟨k, hk'⟩) :=
      getElem?_eq_getElem hk'
    have hl := hs.linked k _ _ hp hq
    rw [hstage] at hl
    exact hl.progress.carries (hech _ (mem_of_getElem? hq))

end

theorem inv_dial {s : State} (hinv : Inv start cached s) (handshake : Handshake) :
    Inv start cached
      ⟨s.heap, s.setups ++ [⟨handshake, { cached with extensions := [] }, .copying, none⟩]⟩ := by
  generalize hnew : (⟨handshake, { cached with extensions := [] }, .copying, none⟩ : Setup) = new
  have hempty : new.spec.extensions = [] := by
    rw [← hnew]
  have hsound : Sound start cached s.heap new := by
    rw [← hnew]
    refine ⟨rfl, Nat.zero_le _, fun hnot => absurd rfl hnot, ?_, ?_⟩
    · intro k p q _ hq
      cases hq
    · intro hello hsent
      cases hsent
  have hi : (⟨s.heap, s.setups ++ [new]⟩ : State).setups[s.setups.length]? = some new := by
    simp
  have hw : Writes [] s.heap (⟨s.heap, s.setups ++ [new]⟩ : State).heap := Writes.refl [] s.heap
  have hnone : ∀ a ∈ ([] : List Nat), ∃ c, s.setups[s.setups.length]? = some c ∧
      a ∈ (own start).cells s.heap c.spec.extensions := by
    intro a ha
    cases ha
  refine hinv.update hi ?_ hnone hw ?_ (grown_refl start s.heap) ?_ hsound
  · intro j hj
    rcases Nat.lt_or_ge j s.setups.length with hlt | hge
    · exact getElem?_append_left hlt
    · have hgt : s.setups.length < j := Nat.lt_of_le_of_ne hge (Ne.symm hj)
      rw [getElem?_eq_none hge, getElem?_eq_none (by simpa using Nat.succ_le_of_lt hgt)]
  · intro a ha
    cases ha
  · intro a ha
    rw [hempty] at ha
    cases ha

/-- **Every step** keeps the invariant, and what lies below `start`. -/
theorem inv_step {s s' : State} (hinv : Inv start cached s) (hstep : Step cached s s') :
    Inv start cached s' ∧ Grown start s.heap s'.heap := by
  cases hstep with
  | dial handshake => exact ⟨inv_dial hinv handshake, grown_refl start s.heap⟩
  | copyNext hc hstage hp => exact inv_copyNext hinv hc hstage hp
  | setName hc hstage hlength => exact inv_setName hinv hc hstage hlength
  | utls hc hstage hw => exact ⟨inv_utls hinv hc hstage hw, grown_of_utls hinv hc hw⟩
  | applyPreset hc hstage hkeys =>
    exact ⟨inv_applyPreset hinv hc hstage hkeys, grown_refl start s.heap⟩
  | setParameters hc hstage => exact inv_setParameters hinv hc hstage
  | send hc hstage hsuites hech =>
    exact ⟨inv_send hinv hc hstage hsuites hech, grown_refl start s.heap⟩

theorem inv_run {s s' : State} (hinv : Inv start cached s) (hrun : Run cached s s') :
    Inv start cached s' ∧ Grown start s.heap s'.heap := by
  induction hrun with
  | refl => exact ⟨hinv, grown_refl start s.heap⟩
  | tail _ hstep ih =>
    obtain ⟨hinv', hg⟩ := ih
    obtain ⟨hinv'', hg'⟩ := inv_step hinv' hstep
    exact ⟨hinv'', hg.trans hg'⟩

theorem inv_start (hvalid : ∀ p ∈ cached.extensions, Valid h p) : Inv h.length cached ⟨h, []⟩ := by
  refine ⟨Nat.le_refl _, ?_, ⟨?_, ?_⟩, ?_⟩
  · intro p hp
    exact ⟨(hvalid p hp).emitted, (hvalid p hp).allocated⟩
  · intro i x hx
    cases hx
  · intro i j x y hx
    cases hx
  · intro i c hc
    cases hc

/-! ## Isolation -/

/-- **Connections from one spec are isolated.** In every run of any number of
connections, whatever their steps' order: the cached spec keeps its contents, now and
in all that follows; and the ClientHello of a connection has the connection's own
server name, transport parameters, key shares and session, and else the contents of
the cached spec in their order. -/
theorem connections_isolated (h : Heap) (cached : ClientHelloSpec)
    (hvalid : ∀ p ∈ cached.extensions, Valid h p) (s : State) (hrun : Run cached ⟨h, []⟩ s) :
    (∀ p ∈ cached.extensions, Kept (content h p) (content s.heap p)) ∧
    (∀ s', Run cached s s' →
      ∀ p ∈ cached.extensions, Kept (content s.heap p) (content s'.heap p)) ∧
    ∀ c ∈ s.setups, ∀ hello, c.hello = some hello →
      CarriesSpec c.handshake cached s.heap hello := by
  have hstart := inv_start hvalid
  obtain ⟨hinv, hg⟩ := inv_run hstart hrun
  refine ⟨?_, ?_, ?_⟩
  · intro p hp
    exact (hstart.below p hp).kept hg
  · intro s' hrun' p hp
    exact (hinv.below p hp).kept (inv_run hinv hrun').2
  · intro c hc hello hsent
    obtain ⟨i, hi⟩ := mem_iff_getElem?.mp hc
    exact (hinv.sound i c hi).hello hello hsent

/-! ## Two connections -/

/-- The package variables and a list of protocols. -/
def samplePackage : Heap :=
  [.block (.words [0x0403, 0x0804]), .block (.strings [ascii "h3"]), .block (.bytes [0, 1]),
    .extension (.generic 0xca34 (some 2)), .block (.bytes [0, 0]),
    .extension (.generic 0x12e0 (some 4))]

def sampleGlobals : Globals := ⟨some 0, 3, 5⟩

/-- The memory and the spec of a configuration for HTTP/3. -/
def sampleConfig : Heap × ClientHelloSpec :=
  quicClientHelloSpec sampleGlobals true .http3 (some 1) List.reverse samplePackage

theorem sampleConfig_valid : ∀ p ∈ sampleConfig.2.extensions, Valid sampleConfig.1 p := by
  apply quicClientHelloSpec_valid _ true .http3 fun l => reverse_perm l
  refine ⟨?_, ?_, ⟨trivial, by decide⟩, ⟨trivial, by decide⟩⟩
  · intro p hp
    cases hp
    exact ⟨by decide, fun b hb => by cases hb; rfl⟩
  · intro p hp
    cases hp
    exact ⟨by decide, fun b hb => by cases hb; rfl⟩

/-- A handshake with its own byte in its parameters and keys. -/
def sampleHandshake (name : String) (mark : UInt8) : Handshake where
  serverName := ascii name
  parameters := [mark]
  Key group key := key = [mark, UInt8.ofNat group.toNat]
  Session _ := False

def sampleSetup (name : String) (mark : UInt8) : Setup :=
  ⟨sampleHandshake name mark, { sampleConfig.2 with extensions := [] }, .copying, none⟩

/-- The first connection, with the extensions it has copied. -/
def sampleFirst (stage : Stage) : Setup :=
  { sampleSetup "a.example" 1 with
    spec := (copyClientHelloSpec sampleConfig.1 sampleConfig.2).2
    stage := stage }

def sampleCopied : Heap := (copyClientHelloSpec sampleConfig.1 sampleConfig.2).1

def sampleSecond (stage : Stage) : Setup :=
  { sampleSetup "b.example" 2 with
    spec := (copyClientHelloSpec sampleCopied sampleConfig.2).2
    stage := stage }

def sampleNamed : Heap :=
  setSNIServerName (copyClientHelloSpec sampleCopied sampleConfig.2).1
    (sampleFirst .copying).spec.extensions (ascii "a.example")

/-- uTLS makes keys, in the block of the key shares, and the GREASE for ECH. -/
def sampleFill (h : Heap) (block : Nat) (mark : UInt8) : Heap :=
  (h.set block
    (.block (.shares [(x25519MLKEM768, some h.length), (x25519, some (h.length + 1))]))).set
      21 (.extension (.greaseECH (some [9]))) ++
    [.block (.bytes [mark, 0xec]), .block (.bytes [mark, 29])]

def sampleFilled : Heap := sampleFill sampleNamed 31 1

def sampleBothNamed : Heap :=
  setSNIServerName sampleFilled (sampleSecond .copying).spec.extensions (ascii "b.example")

def sampleBothFilled : Heap := sampleFill sampleBothNamed 55 2

def sampleReady : Heap :=
  setTransportParameters sampleBothFilled (sampleFirst .applied).spec.extensions [1]

def sampleBothReady : Heap :=
  setTransportParameters sampleReady (sampleSecond .applied).spec.extensions [2]

/-- The connection has sent what the memory holds for it. -/
def Setup.sends (c : Setup) (h : Heap) : Setup :=
  { c with hello := some (helloOf h c.spec c.spec.cipherSuites) }

def sampleSent : State :=
  ⟨sampleBothReady,
    [(sampleFirst .ready).sends sampleReady, (sampleSecond .ready).sends sampleBothReady]⟩

theorem fills_sample (name : String) (mark : UInt8) (share : Nat) {h h' : Heap} {ps : List Nat}
    (hshare : content h share = .keyShare [(x25519MLKEM768, []), (x25519, [])] ∧
      content h' share = .keyShare [(x25519MLKEM768, [mark, 0xec]), (x25519, [mark, 29])])
    (hothers : ∀ p ∈ ps, p = share ∨ content h' p = content h p ∨
      content h p = .greaseECH none ∧ content h' p = .greaseECH (some [9])) :
    ∀ p ∈ ps, Fills (sampleHandshake name mark) (content h p) (content h' p) := by
  intro p hp
  rcases hothers p hp with rfl | hsame | ⟨hech, hech'⟩
  · rw [hshare.1, hshare.2]
    apply Fills.keyShare
    exact .cons (.key (by decide) (by decide) rfl) (.cons (.key (by decide) (by decide) rfl) .nil)
  · rw [hsame]
    exact .same _
  · rw [hech, hech']
    exact .greaseECH [9]

/-- The last two steps of a connection. -/
theorem run_sends {cached : ClientHelloSpec} {h h' : Heap} {setups : List Setup} {i : Nat}
    {c : Setup}
    (hc : setups[i]? = some c) (hstage : c.stage = .applied)
    (hready : h' = setTransportParameters h c.spec.extensions c.handshake.parameters)
    (hech : ∀ p ∈ c.spec.extensions, content h' p ≠ .greaseECH none) :
    Run cached ⟨h, setups⟩ ⟨h', setups.set i ({ c with stage := .ready }.sends h')⟩ := by
  subst hready
  have hsend : Step cached _ _ :=
    .send (State.getElem?_put (s := ⟨h, setups⟩) hc _ { c with stage := .ready }) rfl
      (regreased_refl _) hech
  rw [State.put_put] at hsend
  exact .tail (.single (.setParameters hc hstage)) hsend

theorem generated_of_keys {h : Heap} {ps : List Nat}
    (hkeys : ∀ p ∈ ps, ∀ share ∈ (content h p).shares, share.2 ≠ []) : Generated h ps :=
  fun p hp share hshare _ => hkeys p hp share hshare

theorem run_sampleSent : Run sampleConfig.2 ⟨sampleConfig.1, []⟩ sampleSent := by
  have hdial : Step sampleConfig.2 ⟨sampleConfig.1, []⟩
      ⟨sampleConfig.1, [sampleSetup "a.example" 1]⟩ := Step.dial _ _
  have hcopy : Run sampleConfig.2 ⟨sampleConfig.1, [sampleSetup "a.example" 1]⟩
      ⟨sampleCopied, [sampleFirst .copying]⟩ := run_copyClientHelloSpec (i := 0) rfl rfl rfl
  have hdial' : Step sampleConfig.2 ⟨sampleCopied, [sampleFirst .copying]⟩
      ⟨sampleCopied, [sampleFirst .copying, sampleSetup "b.example" 2]⟩ := Step.dial _ _
  have hcopy' : Run sampleConfig.2 ⟨sampleCopied, [sampleFirst .copying, sampleSetup "b.example" 2]⟩
      ⟨(copyClientHelloSpec sampleCopied sampleConfig.2).1,
        [sampleFirst .copying, sampleSecond .copying]⟩ :=
    run_copyClientHelloSpec (i := 1) rfl rfl rfl
  have hname : Step sampleConfig.2 _ ⟨sampleNamed, [sampleFirst .named, sampleSecond .copying]⟩ :=
    Step.setName (s := ⟨_, [sampleFirst .copying, sampleSecond .copying]⟩) (i := 0) rfl rfl
      (by decide +kernel)
  have hutls : Step sampleConfig.2 ⟨sampleNamed, [sampleFirst .named, sampleSecond .copying]⟩
      ⟨sampleFilled, [sampleFirst .named, sampleSecond .copying]⟩ := by
    refine Step.utls (i := 0) rfl (by decide) ⟨⟨by decide +kernel, by decide +kernel⟩,
      by decide +kernel, fills_sample _ 1 32 (by decide +kernel) (by decide +kernel)⟩
  have hname' : Step sampleConfig.2 _
      ⟨sampleBothNamed, [sampleFirst .named, sampleSecond .named]⟩ :=
    Step.setName (s := ⟨sampleFilled, [sampleFirst .named, sampleSecond .copying]⟩) (i := 1) rfl rfl
      (by decide +kernel)
  have hutls' : Step sampleConfig.2 ⟨sampleBothNamed, [sampleFirst .named, sampleSecond .named]⟩
      ⟨sampleBothFilled, [sampleFirst .named, sampleSecond .named]⟩ := by
    refine Step.utls (i := 1) rfl (by decide) ⟨⟨by decide +kernel, by decide +kernel⟩,
      by decide +kernel, fills_sample _ 2 56 (by decide +kernel) (by decide +kernel)⟩
  have happly : Step sampleConfig.2 _
      ⟨sampleBothFilled, [sampleFirst .applied, sampleSecond .named]⟩ :=
    Step.applyPreset (s := ⟨sampleBothFilled, [sampleFirst .named, sampleSecond .named]⟩) (i := 0)
      rfl rfl (generated_of_keys (by decide +kernel))
  have happly' : Step sampleConfig.2 _
      ⟨sampleBothFilled, [sampleFirst .applied, sampleSecond .applied]⟩ :=
    Step.applyPreset (s := ⟨sampleBothFilled, [sampleFirst .applied, sampleSecond .named]⟩) (i := 1)
      rfl rfl (generated_of_keys (by decide +kernel))
  have hsend : Run sampleConfig.2 ⟨sampleBothFilled, [sampleFirst .applied, sampleSecond .applied]⟩
      ⟨sampleReady, [(sampleFirst .ready).sends sampleReady, sampleSecond .applied]⟩ :=
    run_sends (i := 0) rfl rfl rfl (by decide +kernel)
  have hsend' : Run sampleConfig.2
      ⟨sampleReady, [(sampleFirst .ready).sends sampleReady, sampleSecond .applied]⟩ sampleSent :=
    run_sends (i := 1) rfl rfl rfl (by decide +kernel)
  have hcopied := (((Relation.ReflTransGen.single hdial).trans hcopy).tail hdial').trans hcopy'
  have hfilled := (((hcopied.tail hname).tail hutls).tail hname').tail hutls'
  exact (((hfilled.tail happly).tail happly').trans hsend).trans hsend'

theorem connections_isolated_two :
    (∀ p ∈ sampleConfig.2.extensions,
      Kept (content sampleConfig.1 p) (content sampleSent.heap p)) ∧
    (∀ s', Run sampleConfig.2 sampleSent s' →
      ∀ p ∈ sampleConfig.2.extensions, Kept (content sampleSent.heap p) (content s'.heap p)) ∧
    (∀ c ∈ sampleSent.setups, ∃ hello, c.hello = some hello ∧
      CarriesSpec c.handshake sampleConfig.2 sampleSent.heap hello) := by
  obtain ⟨hkept, hafter, hcarries⟩ :=
    connections_isolated sampleConfig.1 sampleConfig.2 sampleConfig_valid sampleSent run_sampleSent
  refine ⟨hkept, hafter, fun c hc => ?_⟩
  have hsent : ∃ hello, c.hello = some hello := by
    rcases mem_pair.mp hc with rfl | rfl
    · exact ⟨_, rfl⟩
    · exact ⟨_, rfl⟩
  obtain ⟨hello, hhello⟩ := hsent
  exact ⟨hello, hhello, hcarries c hc hello hhello⟩

end HeadlessClient.QuicTLS
