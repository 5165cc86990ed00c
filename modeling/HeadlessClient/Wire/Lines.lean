import HeadlessClient.Base.Bytes

/-!
# Wire — lines and blocks

A text protocol's head is a BLOCK: lines, each ended by CRLF, up to the first
empty line. `cutLine` and `cutBlock` are the reader; `block` is the writer. The
two determine each other exactly on lines that are not empty and have no CRLF
inside (`cutBlock_eq_some`), which is all there is to say about injection: a
piece of text with a CRLF in it is never read back as one line.

A CR or LF alone is an ordinary byte here.
-/

namespace HeadlessClient.Wire

open Base List

/-! ## One line -/

/-- The bytes before the first CRLF and those after it. -/
def cutLine : Bytes → Option (Bytes × Bytes)
  | a :: b :: rest =>
    if a = cr ∧ b = lf then some ([], rest)
    else (cutLine (b :: rest)).map fun (line, after) => (a :: line, after)
  | _ => none

/-- There is no CRLF in the text. -/
def NoBreak (text : Bytes) : Prop := cutLine text = none

instance : DecidablePred NoBreak := fun text => inferInstanceAs (Decidable (cutLine text = none))

variable {rest line text more : Bytes}

theorem cutLine_cons {a b : UInt8} (h : ¬(a = cr ∧ b = lf)) :
    cutLine (a :: b :: rest) =
      (cutLine (b :: rest)).map fun (line, after) => (a :: line, after) := by
  rw [cutLine, if_neg h]

/-- **A line without CRLF is read back**, whatever follows its end. -/
theorem NoBreak.cutLine (h : NoBreak line) (rest : Bytes) :
    Wire.cutLine (line ++ crlf ++ rest) = some (line, rest) := by
  induction line with
  | nil => rfl
  | cons a line ih =>
    cases line with
    | nil =>
      -- the byte before the CRLF may itself be a CR
      have hnot : ¬(a = cr ∧ cr = lf) := by
        rintro ⟨-, hcr⟩
        exact absurd hcr (by decide)
      show Wire.cutLine (a :: cr :: lf :: rest) = _
      rw [cutLine_cons hnot]
      rfl
    | cons b line =>
      have hnot : ¬(a = cr ∧ b = lf) := by
        intro hab
        rw [NoBreak, Wire.cutLine, if_pos hab] at h
        cases h
      have htail : NoBreak (b :: line) := by
        rw [NoBreak, cutLine_cons hnot] at h
        exact Option.map_eq_none_iff.mp h
      show Wire.cutLine (a :: b :: (line ++ crlf ++ rest)) = _
      rw [cutLine_cons hnot]
      rw [show b :: (line ++ crlf ++ rest) = (b :: line) ++ crlf ++ rest from rfl, ih htail]
      rfl

theorem eq_of_cutLine (h : cutLine text = some (line, rest)) :
    text = line ++ crlf ++ rest ∧ NoBreak line := by
  induction text generalizing line with
  | nil => cases h
  | cons a text ih =>
    cases text with
    | nil => cases h
    | cons b text =>
      by_cases hab : a = cr ∧ b = lf
      · rw [cutLine, if_pos hab] at h
        cases h
        exact ⟨by rw [hab.1, hab.2]; rfl, rfl⟩
      · rw [cutLine_cons hab] at h
        obtain ⟨⟨line', rest'⟩, hcut, heq⟩ := Option.map_eq_some_iff.mp h
        cases heq
        obtain ⟨htext, hline⟩ := ih hcut
        refine ⟨by rw [htext]; rfl, ?_⟩
        cases line' with
        | nil => rfl
        | cons c line' =>
          have hcb : b = c := by
            injection htext
          subst hcb
          rw [NoBreak, cutLine_cons hab, hline]
          rfl

theorem cutLine_append (h : cutLine text = some (line, rest)) (more : Bytes) :
    cutLine (text ++ more) = some (line, rest ++ more) := by
  obtain ⟨htext, hline⟩ := eq_of_cutLine h
  rw [htext, append_assoc]
  exact hline.cutLine (rest ++ more)

theorem NoBreak.of_append_left (h : NoBreak (text ++ more)) : NoBreak text := by
  cases hcut : Wire.cutLine text with
  | none => exact hcut
  | some r =>
    obtain ⟨line, rest⟩ := r
    rw [NoBreak, cutLine_append hcut] at h
    cases h

theorem NoBreak.of_cons {a : UInt8} (h : NoBreak (a :: text)) : NoBreak text := by
  cases text with
  | nil => rfl
  | cons b text =>
    by_cases hab : a = cr ∧ b = lf
    · rw [NoBreak, Wire.cutLine, if_pos hab] at h
      cases h
    · rw [NoBreak, cutLine_cons hab] at h
      exact Option.map_eq_none_iff.mp h

theorem NoBreak.of_append_right (h : NoBreak (text ++ more)) : NoBreak more := by
  induction text with
  | nil => exact h
  | cons a text ih => exact ih h.of_cons

theorem noBreak_join {sep : UInt8} (hcr : sep ≠ cr) (hlf : sep ≠ lf) :
    NoBreak (text ++ sep :: more) ↔ NoBreak text ∧ NoBreak more := by
  constructor
  · intro h
    exact ⟨h.of_append_left, (h.of_append_right : NoBreak (sep :: more)).of_cons⟩
  · rintro ⟨htext, hmore⟩
    have hsep : NoBreak (sep :: more) := by
      cases more with
      | nil => rfl
      | cons b more =>
        rw [NoBreak, cutLine_cons fun h => hcr h.1, hmore]
        rfl
    induction text with
    | nil => exact hsep
    | cons a text ih =>
      cases text with
      | nil =>
        show NoBreak (a :: sep :: more)
        rw [NoBreak, cutLine_cons fun h => hlf h.2, hsep]
        rfl
      | cons b text =>
        have hab : ¬(a = cr ∧ b = lf) := by
          intro hab
          rw [NoBreak, Wire.cutLine, if_pos hab] at htext
          cases htext
        have htail : NoBreak (b :: (text ++ sep :: more)) := ih htext.of_cons
        show NoBreak (a :: b :: (text ++ sep :: more))
        rw [NoBreak, cutLine_cons hab, htail]
        rfl

/-! ## Blocks -/

/-- Lines, each with its end. -/
def block (lines : List Bytes) : Bytes := lines.flatMap (· ++ crlf)

@[simp] theorem block_nil : block [] = [] := rfl

@[simp] theorem block_cons (line : Bytes) (lines : List Bytes) :
    block (line :: lines) = line ++ crlf ++ block lines := rfl

/-- The loop of `cutBlock`, for a text of at most `fuel` lines. -/
def cutBlockLoop : Nat → Bytes → Option (List Bytes × Bytes)
  | 0, _ => none
  | fuel + 1, text => do
      let (line, rest) ← cutLine text
      if line = [] then return ([], rest)
      else
        let (lines, after) ← cutBlockLoop fuel rest
        return (line :: lines, after)

/-- The lines before the first empty line and what follows it. -/
def cutBlock (text : Bytes) : Option (List Bytes × Bytes) := cutBlockLoop text.length text

/-- The lines can be told apart: none is empty and none has a CRLF in it. -/
def Plain (lines : List Bytes) : Prop := ∀ line ∈ lines, line ≠ [] ∧ NoBreak line

theorem length_le_block (lines : List Bytes) : lines.length ≤ (block lines).length := by
  induction lines with
  | nil => exact Nat.le_refl 0
  | cons line lines ih =>
    simp only [block_cons, length_append, length_cons, crlf, length_nil]
    omega

theorem cutBlockLoop_block (lines : List Bytes) (rest : Bytes) :
    ∀ fuel, Plain lines → lines.length < fuel →
      cutBlockLoop fuel (block lines ++ crlf ++ rest) = some (lines, rest) := by
  induction lines with
  | nil =>
    intro fuel _ hfuel
    obtain ⟨fuel, rfl⟩ := Nat.exists_eq_succ_of_ne_zero (Nat.ne_of_gt hfuel)
    rfl
  | cons line lines ih =>
    intro fuel hplain hfuel
    obtain ⟨fuel, rfl⟩ := Nat.exists_eq_succ_of_ne_zero (Nat.ne_of_gt (Nat.zero_lt_of_lt hfuel))
    obtain ⟨hne, hline⟩ := hplain line mem_cons_self
    have htail := ih fuel (fun l hl => hplain l (mem_cons_of_mem _ hl))
      (Nat.lt_of_succ_lt_succ hfuel)
    rw [cutBlockLoop, block_cons]
    rw [show line ++ crlf ++ block lines ++ crlf ++ rest
      = line ++ crlf ++ (block lines ++ crlf ++ rest) by simp only [append_assoc]]
    rw [hline.cutLine]
    simp only [Option.bind_eq_bind, Option.bind_some, if_neg hne, htail]
    rfl

theorem eq_of_cutBlockLoop (fuel : Nat) : ∀ {text rest : Bytes} {lines : List Bytes},
    cutBlockLoop fuel text = some (lines, rest) →
      text = block lines ++ crlf ++ rest ∧ Plain lines := by
  induction fuel with
  | zero => intro text rest lines h; cases h
  | succ fuel ih =>
    intro text rest lines h
    rw [cutBlockLoop] at h
    obtain ⟨⟨line, after⟩, hcut, h⟩ := Option.bind_eq_some_iff.mp h
    obtain ⟨htext, hline⟩ := eq_of_cutLine hcut
    dsimp only at h
    split_ifs at h with hempty
    · cases h
      exact ⟨by rw [htext, hempty]; rfl, fun l hl => (nomatch hl)⟩
    · obtain ⟨⟨lines', rest'⟩, hloop, h⟩ := Option.bind_eq_some_iff.mp h
      cases h
      obtain ⟨hafter, hplain⟩ := ih hloop
      refine ⟨by rw [htext, hafter]; simp only [block_cons, append_assoc], fun l hl => ?_⟩
      rcases mem_cons.mp hl with rfl | hl
      · exact ⟨hempty, hline⟩
      · exact hplain l hl

/-- **Reading undoes writing, and nothing else**: a text is read as these lines
iff it is these lines, and they can be told apart. -/
theorem cutBlock_eq_some {lines : List Bytes} :
    cutBlock text = some (lines, rest) ↔ text = block lines ++ crlf ++ rest ∧ Plain lines := by
  constructor
  · exact eq_of_cutBlockLoop _
  · rintro ⟨rfl, hplain⟩
    refine cutBlockLoop_block lines rest _ hplain ?_
    have hlen := length_le_block lines
    simp only [length_append, crlf, length_cons, length_nil]
    omega

theorem cutBlock_append {lines : List Bytes}
    (h : cutBlock text = some (lines, rest)) (more : Bytes) :
    cutBlock (text ++ more) = some (lines, rest ++ more) := by
  obtain ⟨htext, hplain⟩ := cutBlock_eq_some.mp h
  exact cutBlock_eq_some.mpr ⟨by rw [htext, append_assoc], hplain⟩

end HeadlessClient.Wire
