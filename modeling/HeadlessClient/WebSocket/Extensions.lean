import HeadlessClient.Http1.Header

/-!
# WebSocket — tokens and extension lists

The header parsers of `websocket/util.go`. `parseExtensions` reads the grammar of
RFC 6455 (`extension-list`) with optional white space around every separator;
what it does not understand ends the header line, and the extensions read before
it are kept.

`SpellsExtension` is the other direction: the texts one extension with its
parameters may be written as. `parseExtensions_spelled` says that every such
text is read back as that extension.
-/

namespace HeadlessClient.WebSocket

open Base Http1 List

/-! ## Tokens -/

/-- `isTokenOctet`, the token octets of RFC 2616. -/
def isTokenOctet (c : UInt8) : Bool := validHeaderFieldByte c

def isSpace (c : UInt8) : Bool := c = 32 || c = 9

def comma : UInt8 := 44

def semicolon : UInt8 := 59

def equals : UInt8 := 61

def quote : UInt8 := 34

def backslash : UInt8 := 92

def skipSpace (s : Bytes) : Bytes := s.dropWhile isSpace

def nextToken (s : Bytes) : Bytes × Bytes := (s.takeWhile isTokenOctet, s.dropWhile isTokenOctet)

/-- The two loops of `nextTokenOrQuoted` behind the opening quote: `value` is
what has been read, `escape` whether a backslash stands before the next byte. A
string that is not closed is no value and leaves nothing. -/
def quotedRest (escape : Bool) (value : Bytes) : Bytes → Bytes × Bytes
  | [] => ([], [])
  | b :: s =>
    if escape then quotedRest false (value ++ [b]) s
    else if b = backslash then quotedRest true value s
    else if b = quote then (value, s)
    else quotedRest false (value ++ [b]) s

def nextTokenOrQuoted (s : Bytes) : Bytes × Bytes :=
  if s.head? = some quote then quotedRest false [] s.tail else nextToken s

/-- `equalASCIIFold`, on the ASCII strings it is called with. -/
def equalASCIIFold (s t : Bytes) : Bool :=
  let lower (c : UInt8) : UInt8 := if isUpper c then c + 32 else c
  s.map lower == t.map lower

/-- One header line of `tokenListContainsValue`. Each round takes a byte at
least. -/
def tokenListLine (value : Bytes) : Nat → Bytes → Bool
  | 0, _ => false
  | fuel + 1, s =>
    let (t, s) := nextToken (skipSpace s)
    let s := skipSpace s
    if t = [] then false
    else if s ≠ [] ∧ s.head? ≠ some comma then false
    else if equalASCIIFold t value then true
    else if s = [] then false
    else tokenListLine value fuel s.tail

/-- `tokenListContainsValue` for the lines of one header. -/
def tokenListContainsValue (header : Header) (name value : Bytes) : Bool :=
  ((header.lookup name).getD []).any fun s => tokenListLine value (s.length + 1) s

/-! ## Extensions -/

/-- One extension: its name under the empty key, and its parameters. -/
abbrev ExtensionMap := GoMap Bytes Bytes

/-- A parameter behind its semicolon: key, value and what follows. -/
def parseParam (s : Bytes) : Bytes × Bytes × Bytes :=
  let (k, s) := nextToken (skipSpace s)
  let s := skipSpace s
  if s.head? = some equals then
    let (v, s) := nextTokenOrQuoted (skipSpace s.tail)
    (k, v, skipSpace s)
  else (k, [], s)

/-- The loop over the parameters; `none` is `continue headers`. Each round takes
a semicolon, so more fuel than there are bytes is enough. -/
def parseParams : Nat → Bytes → ExtensionMap → Option (ExtensionMap × Bytes)
  | 0, _, _ => none
  | fuel + 1, s, ext =>
    let s := skipSpace s
    if s.head? ≠ some semicolon then some (ext, s)
    else
      let (k, v, s) := parseParam s.tail
      if k = [] then none
      else if s ≠ [] ∧ s.head? ≠ some comma ∧ s.head? ≠ some semicolon then none
      else parseParams fuel s (ext.insert k v)

/-- The loop over one header line. -/
def parseExtensionLine : Nat → Bytes → List ExtensionMap
  | 0, _ => []
  | fuel + 1, s =>
    let (t, s) := nextToken (skipSpace s)
    if t = [] then []
    else
      match parseParams (s.length + 1) s ((∅ : ExtensionMap).insert [] t) with
      | none => []
      | some (ext, s) =>
        if s ≠ [] ∧ s.head? ≠ some comma then []
        else if s = [] then [ext]
        else ext :: parseExtensionLine fuel s.tail

def parseExtensions (header : Header) : List ExtensionMap :=
  ((header.lookup (ascii "Sec-Websocket-Extensions")).getD []).flatMap fun s =>
    parseExtensionLine (s.length + 1) s

/-! ## Writing an extension -/

def Spaces (s : Bytes) : Prop := ∀ c ∈ s, isSpace c = true

structure Token (s : Bytes) : Prop where
  ne_nil : s ≠ []
  octets : ∀ c ∈ s, isTokenOctet c = true

/-- `text` is `value` between quotes, with any of its bytes escaped. -/
inductive Quoted : Bytes → Bytes → Prop
  | nil : Quoted [] []
  | plain {c value text} (hquote : c ≠ quote) (hbackslash : c ≠ backslash) (h : Quoted value text) :
      Quoted (c :: value) (c :: text)
  | escaped {c value text} (h : Quoted value text) : Quoted (c :: value) (backslash :: c :: text)

/-- A value as a token or as a quoted string. -/
inductive SpellsValue (value : Bytes) : Bytes → Prop
  | token (h : Token value) : SpellsValue value value
  | quoted {text} (h : Quoted value text) : SpellsValue value (quote :: text ++ [quote])

/-- Parameters with white space around every separator. -/
inductive SpellsParams : List (Bytes × Option Bytes) → Bytes → Prop
  | nil {trail} (h : Spaces trail) : SpellsParams [] trail
  | flag {name params before after rest} (hname : Token name) (hbefore : Spaces before)
      (hafter : Spaces after) (h : SpellsParams params rest) :
      SpellsParams ((name, none) :: params) (before ++ semicolon :: after ++ name ++ rest)
  | value {name value params before after before' after' text rest} (hname : Token name)
      (hbefore : Spaces before) (hafter : Spaces after) (hbefore' : Spaces before')
      (hafter' : Spaces after') (hvalue : SpellsValue value text) (h : SpellsParams params rest) :
      SpellsParams ((name, some value) :: params)
        (before ++ semicolon :: after ++ name ++ before' ++ equals :: after' ++ text ++ rest)

def SpellsExtension (name : Bytes) (params : List (Bytes × Option Bytes)) (line : Bytes) : Prop :=
  Token name ∧ ∃ lead rest, Spaces lead ∧ SpellsParams params rest ∧ line = lead ++ name ++ rest

def extensionMap (ext : ExtensionMap) (params : List (Bytes × Option Bytes)) : ExtensionMap :=
  params.foldl (fun ext p => ext.insert p.1 (p.2.getD [])) ext

/-! ### Reading it back -/

variable {s spaces : Bytes} {c : UInt8}

theorem skipSpace_append (h : Spaces spaces) : skipSpace (spaces ++ s) = skipSpace s := by
  induction spaces with
  | nil => rfl
  | cons c spaces ih =>
    have hc : isSpace c = true := h c mem_cons_self
    have hrest : Spaces spaces := fun c hc => h c (mem_cons_of_mem _ hc)
    simp only [skipSpace, cons_append, dropWhile_cons, hc, if_true]
    exact ih hrest

theorem skipSpace_cons (h : isSpace c = false) : skipSpace (c :: s) = c :: s := by
  simp [skipSpace, h]

theorem skipSpace_spaces (h : Spaces spaces) : skipSpace spaces = [] := by
  have := skipSpace_append (s := []) h
  rwa [append_nil] at this

/-- What cannot be taken for more of a token. -/
def EndsToken (s : Bytes) : Prop := ∀ c, s.head? = some c → isTokenOctet c = false

theorem nextToken_append {token : Bytes} (h : ∀ c ∈ token, isTokenOctet c = true)
    (hs : EndsToken s) :
    nextToken (token ++ s) = (token, s) := by
  induction token with
  | nil =>
    cases s with
    | nil => rfl
    | cons c s => simp [nextToken, hs c rfl]
  | cons c token ih =>
    have hc : isTokenOctet c = true := h c mem_cons_self
    have hrest := ih fun c hc => h c (mem_cons_of_mem _ hc)
    rw [nextToken, Prod.mk.injEq] at hrest ⊢
    simp [hc, hrest.1, hrest.2]

theorem skipSpace_token {token : Bytes} (h : Token token) :
    skipSpace (token ++ s) = token ++ s := by
  cases token with
  | nil => exact absurd rfl h.ne_nil
  | cons c token =>
    have hc := h.octets c mem_cons_self
    have hspace : isSpace c = false := by
      by_contra hspace
      rw [Bool.not_eq_false, isSpace, Bool.or_eq_true, decide_eq_true_iff, decide_eq_true_iff]
        at hspace
      rcases hspace with rfl | rfl <;> exact absurd hc (by decide)
    exact skipSpace_cons hspace

variable {value text rest name : Bytes} {params : List (Bytes × Option Bytes)}

theorem quotedRest_quoted (h : Quoted value text) :
    ∀ acc, quotedRest false acc (text ++ quote :: s) = (acc ++ value, s) := by
  induction h with
  | nil =>
    intro acc
    simp [quotedRest, quote, backslash]
  | plain hquote hbackslash _ ih =>
    intro acc
    simp [quotedRest, hquote, hbackslash, ih]
  | escaped _ ih =>
    intro acc
    simp [quotedRest, ih]

theorem nextTokenOrQuoted_spelled (h : SpellsValue value text) (hs : EndsToken s) :
    nextTokenOrQuoted (skipSpace (text ++ s)) = (value, s) := by
  cases h with
  | token h =>
    rw [skipSpace_token h]
    have hhead : (value ++ s).head? ≠ some quote := by
      cases value with
      | nil => exact absurd rfl h.ne_nil
      | cons c value =>
        intro heq
        have hc := h.octets c mem_cons_self
        rw [cons_append, head?_cons, Option.some.injEq] at heq
        rw [heq] at hc
        exact absurd hc (by decide)
    rw [nextTokenOrQuoted, if_neg hhead]
    exact nextToken_append h.octets hs
  | @quoted text h =>
    have hline : quote :: text ++ [quote] ++ s = quote :: (text ++ quote :: s) := by simp
    rw [hline, skipSpace_cons (by decide), nextTokenOrQuoted, if_pos (head?_cons),
      tail_cons, quotedRest_quoted h, nil_append]

theorem endsToken_spaces (h : Spaces spaces) (hs : EndsToken s) : EndsToken (spaces ++ s) := by
  cases spaces with
  | nil => exact hs
  | cons c spaces =>
    intro c' hc'
    have hc := h c mem_cons_self
    cases hc'
    by_contra htoken
    rw [isSpace, Bool.or_eq_true, decide_eq_true_iff, decide_eq_true_iff] at hc
    rcases hc with rfl | rfl <;> exact absurd htoken (by decide)

theorem endsToken_cons (h : isTokenOctet c = false) (s : Bytes) : EndsToken (c :: s) := by
  intro c' hc'
  cases hc'
  exact h

theorem SpellsParams.follows (h : SpellsParams params rest) :
    EndsToken rest ∧ (skipSpace rest = [] ∨ (skipSpace rest).head? = some semicolon) := by
  cases h with
  | @nil _ h =>
    refine ⟨?_, .inl (skipSpace_spaces h)⟩
    have := endsToken_spaces h (s := []) nofun
    rwa [append_nil] at this
  | flag hname hbefore hafter h | value hname hbefore hafter hbefore' hafter' hvalue h =>
    simp only [append_assoc, cons_append]
    refine ⟨endsToken_spaces hbefore (endsToken_cons (by decide) _), .inr ?_⟩
    rw [skipSpace_append hbefore, skipSpace_cons (by decide), head?_cons]

theorem parseParam_flag {after : Bytes} (hname : Token name) (hafter : Spaces after)
    (hends : EndsToken rest)
    (hrest : skipSpace rest = [] ∨ (skipSpace rest).head? = some semicolon) :
    parseParam (after ++ (name ++ rest)) = (name, [], skipSpace rest) := by
  have hhead : (skipSpace rest).head? ≠ some equals := by
    intro heq
    rcases hrest with h | h
    · rw [h] at heq
      cases heq
    · rw [h] at heq
      exact absurd heq (by decide)
  simp only [parseParam, skipSpace_append hafter, skipSpace_token hname,
    nextToken_append hname.octets hends, if_neg hhead]

theorem parseParam_value {after before' after' : Bytes} (hname : Token name) (hafter : Spaces after)
    (hbefore' : Spaces before') (hafter' : Spaces after') (hvalue : SpellsValue value text)
    (hends : EndsToken rest) :
    parseParam (after ++ (name ++ (before' ++ equals :: (after' ++ (text ++ rest)))))
      = (name, value, skipSpace rest) := by
  have hname' : EndsToken (before' ++ equals :: (after' ++ (text ++ rest))) :=
    endsToken_spaces hbefore' (endsToken_cons (by decide) _)
  simp only [parseParam, skipSpace_append hafter, skipSpace_token hname,
    nextToken_append hname.octets hname', skipSpace_append hbefore',
    skipSpace_cons (show isSpace equals = false by decide), head?_cons, if_true,
    tail_cons, skipSpace_append hafter', nextTokenOrQuoted_spelled hvalue hends]

theorem skipSpace_skipSpace (s : Bytes) : skipSpace (skipSpace s) = skipSpace s := by
  induction s with
  | nil => rfl
  | cons c s ih =>
    by_cases hc : isSpace c = true
    · simpa [skipSpace, hc] using ih
    · rw [Bool.not_eq_true] at hc
      rw [skipSpace_cons hc, skipSpace_cons hc]

theorem parseParams_skipSpace (fuel : Nat) (s : Bytes) (ext : ExtensionMap) :
    parseParams fuel (skipSpace s) ext = parseParams fuel s ext := by
  cases fuel with
  | zero => rfl
  | succ fuel => simp only [parseParams, skipSpace_skipSpace]

theorem parseParams_round {fuel : Nat} {before key : Bytes} {ext : ExtensionMap}
    (hbefore : Spaces before) (hkey : key ≠ [])
    (hparam : parseParam s = (key, value, skipSpace rest))
    (hrest : skipSpace rest = [] ∨ (skipSpace rest).head? = some semicolon) :
    parseParams (fuel + 1) (before ++ semicolon :: s) ext
      = parseParams fuel rest (ext.insert key value) := by
  have hcontinue : ¬(skipSpace rest ≠ [] ∧ (skipSpace rest).head? ≠ some comma ∧
      (skipSpace rest).head? ≠ some semicolon) := by
    rintro ⟨hne, -, hhead⟩
    rcases hrest with h | h
    · exact hne h
    · exact hhead h
  rw [parseParams, skipSpace_append hbefore, skipSpace_cons (by decide)]
  simp only [head?_cons, ne_eq, not_true_eq_false, if_false, tail_cons, hparam, hkey]
  rw [if_neg hcontinue, parseParams_skipSpace]

/-- **Parameters are read back**, up to the end of the line. -/
theorem parseParams_spelled (h : SpellsParams params rest) :
    ∀ (fuel : Nat) (ext : ExtensionMap), params.length < fuel →
      parseParams fuel rest ext = some (extensionMap ext params, []) := by
  induction h with
  | nil h =>
    intro fuel ext hfuel
    obtain ⟨fuel, rfl⟩ : ∃ k, fuel = k + 1 := ⟨fuel - 1, by omega⟩
    simp [parseParams, skipSpace_spaces h, extensionMap]
  | flag hname hbefore hafter h ih =>
    intro fuel ext hfuel
    obtain ⟨fuel, rfl⟩ : ∃ k, fuel = k + 1 := ⟨fuel - 1, by omega⟩
    obtain ⟨hends, hrest⟩ := h.follows
    have hparam := parseParam_flag hname hafter hends hrest
    simp only [append_assoc, cons_append]
    rw [parseParams_round hbefore hname.ne_nil hparam hrest,
      ih fuel _ (by simpa using hfuel)]
    rfl
  | value hname hbefore hafter hbefore' hafter' hvalue h ih =>
    intro fuel ext hfuel
    obtain ⟨fuel, rfl⟩ : ∃ k, fuel = k + 1 := ⟨fuel - 1, by omega⟩
    obtain ⟨hends, hrest⟩ := h.follows
    have hparam := parseParam_value hname hafter hbefore' hafter' hvalue hends
    simp only [append_assoc, cons_append]
    rw [parseParams_round hbefore hname.ne_nil hparam hrest,
      ih fuel _ (by simpa using hfuel)]
    rfl

theorem SpellsParams.length_le (h : SpellsParams params rest) : params.length ≤ rest.length := by
  induction h with
  | nil => simp
  | flag _ _ _ _ ih | value _ _ _ _ _ _ _ ih =>
    simp only [length_append, length_cons]
    omega

/-- **Every spelling of an extension is read as that extension.** -/
theorem parseExtensionLine_spelled {line : Bytes} (h : SpellsExtension name params line)
    (fuel : Nat) :
    parseExtensionLine (fuel + 1) line
      = [extensionMap ((∅ : ExtensionMap).insert [] name) params] := by
  obtain ⟨hname, lead, rest, hlead, hparams, rfl⟩ := h
  have htoken : nextToken (skipSpace (lead ++ name ++ rest)) = (name, rest) := by
    rw [append_assoc, skipSpace_append hlead, skipSpace_token hname,
      nextToken_append hname.octets hparams.follows.1]
  have hread := parseParams_spelled hparams (rest.length + 1)
    ((∅ : ExtensionMap).insert [] name) (Nat.lt_succ_of_le hparams.length_le)
  simp only [parseExtensionLine, htoken, if_neg hname.ne_nil, hread]
  simp

theorem mem_extensionMap (params : List (Bytes × Option Bytes)) :
    ∀ (ext : ExtensionMap) (key : Bytes),
      key ∈ extensionMap ext params ↔ key ∈ ext ∨ ∃ p ∈ params, p.1 = key := by
  induction params with
  | nil => intro ext key; simp [extensionMap]
  | cons p params ih =>
    intro ext key
    have := ih (ext.insert p.1 (p.2.getD [])) key
    simp only [extensionMap, foldl_cons] at this ⊢
    rw [this, AList.mem_insert]
    simp only [mem_cons, exists_eq_or_imp]
    tauto

theorem lookup_extensionMap (params : List (Bytes × Option Bytes)) :
    ∀ (ext : ExtensionMap), (∀ p ∈ params, p.1 ≠ []) →
      (extensionMap ext params).lookup [] = ext.lookup [] := by
  induction params with
  | nil => intro ext _; rfl
  | cons p params ih =>
    intro ext hne
    have hp : ([] : Bytes) ≠ p.1 := (hne p mem_cons_self).symm
    have := ih (ext.insert p.1 (p.2.getD [])) fun q hq => hne q (mem_cons_of_mem _ hq)
    simp only [extensionMap, foldl_cons] at this ⊢
    rw [this, AList.lookup_insert_ne hp]

end HeadlessClient.WebSocket
