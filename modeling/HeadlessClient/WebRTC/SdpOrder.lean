import HeadlessClient.Base.Bytes
import HeadlessClient.Base.GoMap
import HeadlessClient.Base.StableSort
import Mathlib.Data.List.Infix
import Mathlib.Data.List.TakeWhile

/-!
# WebRTC — the order of SDP attributes

`internal/sdporder/sdporder.go`, and its use in `webrtc/sdp.go`: attributes are
sorted by the place of their name in the order of a browser, and a name without a
place goes to the end. The lines that describe codecs share ONE place, so that they
stay interleaved as they were written.

A description is ordered when it is built, and again when candidates have been
added to it; in between it may have been written and parsed, which splits a line
that was one key into a key and a value.
-/

namespace HeadlessClient.WebRTC.SdpOrder

open Base List

/-! ## Ranks -/

inductive Level where
  | session
  | media
deriving DecidableEq, Repr

def codecBlockRank : Bytes := ascii "codec block"

def sessionOrder : List Bytes :=
  ["group", "extmap-allow-mixed", "cryptex", "msid-semantic", "ice-lite"].map ascii

def mediaOrder : List Bytes :=
  ["rtcp", "candidate", "end-of-candidates", "ice-ufrag", "ice-pwd", "ice-options", "fingerprint",
    "setup", "mid", "sctp-port", "max-message-size", "sctp-init", "extmap-allow-mixed", "cryptex",
    "extmap", "inactive", "recvonly", "sendonly", "sendrecv", "msid", "rtcp-mux", "rtcp-rsize",
    "rtcp-xr", "x-google-flag", "remote-net-estimate", "sframe"].map ascii ++
  codecBlockRank :: ["ssrc-group", "ssrc", "rid", "simulcast"].map ascii

def codecBlockAttributes : List Bytes := ["rtpmap", "rtcp-fb", "fmtp", "packetization"].map ascii

def buildRanks (order : List Bytes) : GoMap Bytes Nat :=
  order.zipIdx.foldl (fun byName (name, position) =>
    if name = codecBlockRank then
      codecBlockAttributes.foldl
        (fun byName codecAttribute => byName.insert codecAttribute position)
        byName
    else byName.insert name position) ∅

def order : Level → List Bytes
  | .session => sessionOrder
  | .media => mediaOrder

def ranks (level : Level) : GoMap Bytes Nat := buildRanks (order level)

def unknownRanks (level : Level) : Nat := (order level).length

def colon : UInt8 := 58

def space : UInt8 := 32

/-- `AttributeName`: up to the first colon, and up to the first space of that. -/
def attributeName (key : Bytes) : Bytes := (key.takeWhile (· ≠ colon)).takeWhile (· ≠ space)

def rank (level : Level) (key : Bytes) : Option Nat := (ranks level).lookup (attributeName key)

/-- `rankOf` of `Reorder`. -/
def rankOf (level : Level) (key : Bytes) : Nat := (rank level key).getD (unknownRanks level)

def reorder {Attribute : Type} (level : Level) (attributes : List Attribute)
    (key : Attribute → Bytes) : List Attribute :=
  stableSort (fun a => rankOf level (key a)) attributes

/-! ## The table -/

theorem media_table : ∀ e ∈ (ranks .media).entries,
    e.2 < unknownRanks .media ∧ (e.2 = 26 ↔ e.1 ∈ codecBlockAttributes) := by
  decide +kernel

theorem session_table : ∀ e ∈ (ranks .session).entries, e.2 < unknownRanks .session := by
  decide +kernel

theorem codec_ranks : ∀ name ∈ codecBlockAttributes, (ranks .media).lookup name = some 26 ∧
    (ranks .session).lookup name = none := by
  decide +kernel

variable {key : Bytes}

theorem rank_lt {level : Level} {position : Nat} (h : rank level key = some position) :
    position < unknownRanks level := by
  have hentry := AList.mem_lookup_iff.mp (Option.mem_def.mpr h)
  cases level with
  | session => exact session_table _ hentry
  | media => exact (media_table _ hentry).1

/-- A name that the order does not have. -/
def isUnknown (level : Level) (key : Bytes) : Bool := (rank level key).isNone

def isCodec (key : Bytes) : Bool := codecBlockAttributes.contains (attributeName key)

theorem rankOf_eq_unknown {level : Level} :
    rankOf level key = unknownRanks level ↔ isUnknown level key = true := by
  unfold rankOf isUnknown
  cases h : rank level key with
  | none => simp
  | some position =>
    have hlt := rank_lt h
    simp only [Option.getD_some, Option.isNone_some, Bool.false_eq_true, iff_false]
    omega

theorem rankOf_le (level : Level) (key : Bytes) : rankOf level key ≤ unknownRanks level := by
  unfold rankOf
  cases h : rank level key with
  | none => exact Nat.le_refl _
  | some position => exact (rank_lt h).le

theorem rankOf_eq_codec : rankOf .media key = 26 ↔ isCodec key = true := by
  rw [isCodec, contains_iff_mem]
  constructor
  · intro h
    unfold rankOf at h
    cases hrank : rank .media key with
    | none =>
      rw [hrank] at h
      exact absurd h (by decide)
    | some position =>
      rw [hrank, Option.getD_some] at h
      exact (media_table _ (AList.mem_lookup_iff.mp (Option.mem_def.mpr hrank))).2.mp h
  · intro h
    rw [rankOf, rank, (codec_ranks _ h).1, Option.getD_some]

theorem isUnknown_codec (h : isCodec key = true) : isUnknown .session key = true := by
  rw [isUnknown, rank, (codec_ranks _ (contains_iff_mem.mp h)).2]
  rfl

/-! ## The order -/

section Reorder

variable {α : Type} {level : Level} {key : α → Bytes}

/-- The attributes of one rank are a block, in their order. -/
theorem reorder_block (xs : List α) {r : Nat} {p : Bytes → Bool}
    (hp : ∀ {key}, rankOf level key = r ↔ p key = true) :
    ∃ before after, reorder level xs key = before ++ xs.filter (fun a => p (key a)) ++ after ∧
      (∀ a ∈ before, p (key a) = false) ∧ ∀ a ∈ after, r < rankOf level (key a) := by
  obtain ⟨before, after, hsplit, hbefore, hafter⟩ :=
    block_of_sorted (sortedBy_stableSort (fun a => rankOf level (key a)) xs) r
  have hblock : ofRank (fun a => rankOf level (key a)) r xs = xs.filter fun a => p (key a) := by
    refine filter_congr fun a _ => ?_
    rw [Bool.eq_iff_iff, decide_eq_true_eq]
    exact hp
  rw [ofRank_stableSort, hblock] at hsplit
  refine ⟨before, after, hsplit, fun a ha => ?_, hafter⟩
  rw [← Bool.not_eq_true, ← hp]
  exact (hbefore a ha).ne

theorem reorder_unknown (level : Level) (xs : List α) (key : α → Bytes) :
    ∃ known, reorder level xs key = known ++ xs.filter (fun a => isUnknown level (key a)) ∧
      ∀ a ∈ known, isUnknown level (key a) = false := by
  obtain ⟨before, after, hsplit, hbefore, hafter⟩ :=
    @reorder_block α level key xs _ (isUnknown level) rankOf_eq_unknown
  have hnil : after = [] := by
    refine eq_nil_iff_forall_not_mem.mpr fun a ha => ?_
    exact absurd (hafter a ha) (rankOf_le level (key a)).not_gt
  rw [hnil, append_nil] at hsplit
  exact ⟨before, hsplit, hbefore⟩

theorem reorder_codecs (xs : List α) (key : α → Bytes) :
    ∃ before after, reorder .media xs key =
        before ++ xs.filter (fun a => isCodec (key a)) ++ after ∧
      ∀ a ∈ before ++ after, isCodec (key a) = false := by
  obtain ⟨before, after, hsplit, hbefore, hafter⟩ :=
    @reorder_block α .media key xs _ isCodec rankOf_eq_codec
  refine ⟨before, after, hsplit, forall_mem_append.mpr ⟨hbefore, fun a ha => ?_⟩⟩
  rw [← Bool.not_eq_true, ← rankOf_eq_codec]
  exact (hafter a ha).ne'

end Reorder

/-! ## Text -/

/-- `sdp.Attribute`. -/
structure Attribute where
  key : Bytes
  value : Bytes
deriving DecidableEq, Repr

/-- How `pion/sdp`, which is not part of the repository, writes and parses the part
of an attribute line after `a=`. A line that begins with its colon may be parsed as
a value without a name or as a name. -/
structure AttributeText where
  write : Attribute → Bytes
  parse : Bytes → Attribute
  write_property : ∀ key, write ⟨key, []⟩ = key
  write_value : ∀ key value, value ≠ [] → write ⟨key, value⟩ = key ++ colon :: value
  parse_property : ∀ text, colon ∉ text → parse text = ⟨text, []⟩
  parse_value : ∀ name value, name ≠ [] → colon ∉ name →
    parse (name ++ colon :: value) = ⟨name, value⟩
  parse_unnamed : ∀ value, parse (colon :: value) = ⟨[], value⟩ ∨
    parse (colon :: value) = ⟨colon :: value, []⟩

/-- A name, its colon and nothing else. -/
def IsBare (text : Bytes) : Prop := ∃ name, colon ∉ name ∧ text = name ++ [colon]

theorem takeWhile_cut {name rest : Bytes} (h : colon ∉ name) :
    (name ++ colon :: rest).takeWhile (· ≠ colon) = name := by
  have hname : ∀ b ∈ name, decide (b ≠ colon) = true :=
    fun b hb => decide_eq_true fun heq => h (heq ▸ hb)
  rw [takeWhile_append_of_pos hname, takeWhile_cons_of_neg (by simp), append_nil]

theorem takeWhile_uncut {text : Bytes} (h : colon ∉ text) : text.takeWhile (· ≠ colon) = text :=
  takeWhile_eq_self_iff.mpr fun _ hb => decide_eq_true fun heq => h (heq ▸ hb)

namespace AttributeText

variable (t : AttributeText)

theorem write_name (a : Attribute) :
    (t.write a).takeWhile (· ≠ colon) = a.key.takeWhile (· ≠ colon) := by
  obtain ⟨key, value⟩ := a
  by_cases hvalue : value = []
  · rw [hvalue, t.write_property]
  · rw [t.write_value key value hvalue]
    by_cases hkey : colon ∈ key
    · obtain ⟨name, rest, rfl, hname⟩ := eq_append_cons_of_mem hkey
      rw [append_assoc, cons_append, takeWhile_cut hname, takeWhile_cut hname]
    · rw [takeWhile_cut hkey, takeWhile_uncut hkey]

theorem parse_cases (text : Bytes) :
    t.parse text = ⟨text, []⟩ ∨
      ∃ name value,
        colon ∉ name ∧ text = name ++ colon :: value ∧ t.parse text = ⟨name, value⟩ := by
  by_cases htext : colon ∈ text
  · obtain ⟨name, value, rfl, hname⟩ := eq_append_cons_of_mem htext
    by_cases hnil : name = []
    · subst hnil
      rcases t.parse_unnamed value with h | h
      · exact .inr ⟨[], value, not_mem_nil, rfl, h⟩
      · exact .inl h
    · exact .inr ⟨name, value, hname, rfl, t.parse_value name value hnil hname⟩
  · exact .inl (t.parse_property text htext)

theorem write_parse {text : Bytes} (hbare : ¬IsBare text) : t.write (t.parse text) = text := by
  rcases t.parse_cases text with h | ⟨name, value, hname, htext, h⟩
  · rw [h, t.write_property]
  · have hvalue : value ≠ [] := by
      rintro rfl
      exact hbare ⟨name, hname, htext⟩
    rw [h, t.write_value name value hvalue, htext]

def reparse (a : Attribute) : Attribute := t.parse (t.write a)

theorem rankOf_write (level : Level) (a : Attribute) :
    rankOf level (t.write a) = rankOf level a.key := by
  rw [rankOf, rankOf, rank, rank, attributeName, attributeName, t.write_name]

theorem write_reorder (level : Level) (xs : List Attribute) :
    (reorder level xs Attribute.key).map t.write = reorder level (xs.map t.write) id :=
  map_stableSort fun x _ => t.rankOf_write level x

theorem map_write_reparse {xs : List Attribute} (hbare : ∀ a ∈ xs, ¬IsBare (t.write a)) :
    (xs.map t.reparse).map t.write = xs.map t.write := by
  rw [map_map]
  exact map_congr_left fun a ha => t.write_parse (hbare a ha)

/-- **Ordering again after the text was parsed.** -/
theorem write_reorder_reparse (level : Level) {xs : List Attribute} (ys : List Attribute)
    (hbare : ∀ a ∈ xs, ¬IsBare (t.write a)) :
    (reorder level ((reorder level xs Attribute.key).map t.reparse ++ ys)
        Attribute.key).map t.write =
      (reorder level (xs ++ ys) Attribute.key).map t.write := by
  have hsorted : ∀ a ∈ reorder level xs Attribute.key, ¬IsBare (t.write a) :=
    fun a ha => hbare a ((stableSort_perm _ xs).mem_iff.mp ha)
  rw [t.write_reorder, t.write_reorder, map_append, map_append,
    t.map_write_reparse hsorted, t.write_reorder]
  exact stableSort_append _ _ _

/-- `pion/sdp` as it is today: a colon in the first place does not separate. -/
def plain : AttributeText where
  write a := if a.value = [] then a.key else a.key ++ colon :: a.value
  parse text :=
    if colon ∈ text ∧ text.head? ≠ some colon then
      ⟨text.takeWhile (· ≠ colon), (text.dropWhile (· ≠ colon)).tail⟩
    else ⟨text, []⟩
  write_property key := if_pos rfl
  write_value key value h := if_neg h
  parse_property text h := if_neg fun h' => h h'.1
  parse_value name value hne hname := by
    have hhead : (name ++ colon :: value).head? ≠ some colon := by
      cases name with
      | nil => exact absurd rfl hne
      | cons b name => simpa using fun heq : b = colon => hname (heq ▸ mem_cons_self)
    have hdrop : (name ++ colon :: value).dropWhile (· ≠ colon) = colon :: value := by
      have := takeWhile_append_dropWhile (p := (· ≠ colon)) (l := name ++ colon :: value)
      rw [takeWhile_cut hname] at this
      exact append_cancel_left this
    rw [if_pos ⟨by simp, hhead⟩, takeWhile_cut hname, hdrop]
    rfl
  parse_unnamed value := .inr (if_neg fun h => h.2 rfl)

end AttributeText

/-! ## Canonical and incremental -/

/-- **Reordering is canonical and incremental**, at both levels; the block of the
codec lines is one of media sections, and at session level they are unknown. -/
theorem reorder_canonical (t : AttributeText) (level : Level) (xs ys : List Attribute) :
    (reorder level xs Attribute.key).Perm xs ∧
      SortedBy (fun a => rankOf level (Attribute.key a)) (reorder level xs Attribute.key) ∧
      (∀ r, ofRank (fun a => rankOf level (Attribute.key a)) r (reorder level xs Attribute.key) =
        ofRank (fun a => rankOf level (Attribute.key a)) r xs) ∧
      (∃ known, reorder level xs Attribute.key =
          known ++ xs.filter (fun a => isUnknown level a.key) ∧
        ∀ a ∈ known, isUnknown level a.key = false) ∧
      (level = .media → ∃ before after, reorder level xs Attribute.key =
          before ++ xs.filter (fun a => isCodec a.key) ++ after ∧
        ∀ a ∈ before ++ after, isCodec a.key = false) ∧
      (level = .session → ∀ a ∈ xs, isCodec a.key = true → isUnknown level a.key = true) ∧
      reorder level (reorder level xs Attribute.key) Attribute.key =
        reorder level xs Attribute.key ∧
      reorder level (reorder level xs Attribute.key ++ ys) Attribute.key =
        reorder level (xs ++ ys) Attribute.key ∧
      ((∀ a ∈ xs, ¬IsBare (t.write a)) →
        (reorder level (((reorder level xs Attribute.key).map t.write).map t.parse ++ ys)
            Attribute.key).map t.write =
          (reorder level (xs ++ ys) Attribute.key).map t.write) := by
  refine ⟨stableSort_perm _ xs, sortedBy_stableSort _ xs, fun r => ofRank_stableSort _ r xs,
    reorder_unknown level xs Attribute.key, ?_, ?_, stableSort_idem _ xs, stableSort_append _ xs ys,
    ?_⟩
  · rintro rfl
    exact reorder_codecs xs Attribute.key
  · rintro rfl a _ hcodec
    exact isUnknown_codec hcodec
  · intro hbare
    rw [map_map]
    exact t.write_reorder_reparse level ys hbare

/-- A section whose candidate arrives after it was built. -/
theorem reorder_canonical_late_candidate :
    (reorder .media (((reorder .media
          [⟨ascii "rtpmap:111 opus/48000/2", []⟩, ⟨ascii "mid", ascii "0"⟩]
          Attribute.key).map AttributeText.plain.write).map AttributeText.plain.parse ++
        [⟨ascii "candidate", ascii "1"⟩]) Attribute.key).map AttributeText.plain.write =
      (reorder .media ([⟨ascii "rtpmap:111 opus/48000/2", []⟩, ⟨ascii "mid", ascii "0"⟩] ++
        [⟨ascii "candidate", ascii "1"⟩]) Attribute.key).map AttributeText.plain.write := by
  obtain ⟨-, -, -, -, -, -, -, -, htext⟩ := reorder_canonical AttributeText.plain .media
    [⟨ascii "rtpmap:111 opus/48000/2", []⟩, ⟨ascii "mid", ascii "0"⟩]
    [⟨ascii "candidate", ascii "1"⟩]
  refine htext fun a ha hbare => ?_
  obtain ⟨name, -, htail⟩ := hbare
  have hlast := congrArg List.getLast? htail
  rw [getLast?_append_cons, getLast?_singleton] at hlast
  rcases mem_cons.mp ha with rfl | ha
  · exact absurd hlast (by decide)
  · obtain rfl := mem_singleton.mp ha
    exact absurd hlast (by decide)

def sessionLines : List Attribute :=
  [⟨ascii "rtpmap", ascii "0"⟩, ⟨ascii "tool", ascii "x"⟩, ⟨ascii "fmtp", ascii "0"⟩]

/-- At session level the codec lines have no place, and another unknown line stays
between them; a bare name loses its colon on the way through the parser. -/
theorem reorder_session_codecs_apart :
    (¬∃ before after, reorder .session sessionLines Attribute.key =
        before ++ sessionLines.filter (fun a => isCodec a.key) ++ after) ∧
      (reorder .media (((reorder .media [⟨ascii "tool:", []⟩] Attribute.key).map
          AttributeText.plain.write).map AttributeText.plain.parse) Attribute.key).map
            AttributeText.plain.write ≠
        (reorder .media [⟨ascii "tool:", []⟩] Attribute.key).map AttributeText.plain.write := by
  refine ⟨?_, by decide +kernel⟩
  rintro ⟨before, after, h⟩
  have hinfix : sessionLines.filter (fun a => isCodec a.key) <:+:
      reorder .session sessionLines Attribute.key := ⟨before, after, h.symm⟩
  revert hinfix
  decide +kernel

end HeadlessClient.WebRTC.SdpOrder
