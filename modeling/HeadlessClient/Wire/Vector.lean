import HeadlessClient.Base.Bytes
import HeadlessClient.Base.Except
import Mathlib.Tactic.Ring

/-!
# Wire — big-endian integers and length-prefixed vectors

The presentation language of TLS: integers of a fixed width, most significant
byte first (`putUint`, `getUint`); a body behind its length (`vec`); a list of
items behind one another. A list is read by `readList`, which takes items off
the front until nothing is left, and written by `writeList`, which appends them
while they fit.

An item's reader and writer are described by the SAME two data: `put a`, its
bytes, and `good acc a`, when it may follow the items `acc`. Both loops are then
characterised exactly (`readList_eq_ok`, `writeList_eq_ok`), by one condition on
the list and one equation for its bytes, so that a codec made of them inverts
itself as soon as its two sides agree on `good`.
-/

namespace HeadlessClient.Wire

open Base List

/-! ## Integers -/

/-- The `w` low-order bytes of `n`, most significant first. -/
def putUint : Nat → Nat → Bytes
  | 0, _ => []
  | w + 1, n => UInt8.ofNat (n / 256 ^ w) :: putUint w n

/-- The number that bytes spell, most significant first. -/
def getUint : Bytes → Nat
  | [] => 0
  | b :: bs => b.toNat * 256 ^ bs.length + getUint bs

@[simp] theorem length_putUint (w n : Nat) : (putUint w n).length = w := by
  induction w with
  | zero => rfl
  | succ w ih => simp [putUint, ih]

theorem getUint_lt (bs : Bytes) : getUint bs < 256 ^ bs.length := by
  induction bs with
  | nil => simp [getUint]
  | cons b bs ih =>
    have hlead : (b.toNat + 1) * 256 ^ bs.length ≤ 256 * 256 ^ bs.length :=
      Nat.mul_le_mul_right _ b.toNat_lt
    rw [Nat.add_mul, Nat.one_mul] at hlead
    rw [getUint, length_cons, pow_succ]
    omega

theorem getUint_putUint_mod (w n : Nat) : getUint (putUint w n) = n % 256 ^ w := by
  induction w with
  | zero => simp [putUint, getUint, Nat.mod_one]
  | succ w ih =>
    have hlead : (UInt8.ofNat (n / 256 ^ w)).toNat = n / 256 ^ w % 256 := by simp
    rw [putUint, getUint, length_putUint, ih, hlead, pow_succ, Nat.mod_mul]
    ring

variable {w n : Nat}

theorem getUint_putUint (h : n < 256 ^ w) : getUint (putUint w n) = n := by
  rw [getUint_putUint_mod, Nat.mod_eq_of_lt h]

/-- What lies above the `w` low-order bytes is not written. -/
theorem putUint_add_mul (w k n : Nat) : putUint w (n + k * 256 ^ w) = putUint w n := by
  induction w generalizing k with
  | zero => rfl
  | succ w ih =>
    have hsplit : n + k * 256 ^ (w + 1) = n + k * 256 * 256 ^ w := by ring
    have hlead : UInt8.ofNat (n / 256 ^ w + k * 256) = UInt8.ofNat (n / 256 ^ w) := by
      apply UInt8.toNat_inj.mp
      simp
    rw [putUint, putUint, hsplit, ih, Nat.add_mul_div_right _ _ (Nat.pow_pos (by decide)), hlead]

theorem putUint_getUint (bs : Bytes) : putUint bs.length (getUint bs) = bs := by
  induction bs with
  | nil => rfl
  | cons b bs ih =>
    have hlead : (getUint bs + b.toNat * 256 ^ bs.length) / 256 ^ bs.length = b.toNat := by
      rw [Nat.add_mul_div_right _ _ (Nat.pow_pos (by decide)),
        Nat.div_eq_of_lt (getUint_lt bs), Nat.zero_add]
    rw [length_cons, putUint, getUint, Nat.add_comm, hlead, putUint_add_mul, ih, UInt8.ofNat_toNat]

/-- `data` starts with the `w`-byte number `n`, and `rest` follows. -/
theorem putUint_append_iff {data rest : Bytes} :
    (w ≤ data.length ∧ getUint (data.take w) = n ∧ data.drop w = rest) ↔
      n < 256 ^ w ∧ data = putUint w n ++ rest := by
  constructor
  · rintro ⟨hw, rfl, rfl⟩
    have hlen : (data.take w).length = w := by simpa using hw
    refine ⟨by simpa [hlen] using getUint_lt (data.take w), ?_⟩
    have hbe := putUint_getUint (data.take w)
    rw [hlen] at hbe
    rw [hbe, take_append_drop]
  · rintro ⟨hn, rfl⟩
    refine ⟨by simp, ?_, ?_⟩
    · rw [take_left' (length_putUint w n), getUint_putUint hn]
    · rw [drop_left' (length_putUint w n)]

/-- A byte string behind its `w`-byte length. -/
def vec (w : Nat) (a : Bytes) : Bytes := putUint w a.length ++ a

@[simp] theorem length_vec (w : Nat) (a : Bytes) : (vec w a).length = w + a.length := by
  simp [vec]

theorem vec_ne_nil (hw : 0 < w) (a : Bytes) : vec w a ≠ [] := by
  intro hnil
  have hlen := congrArg List.length hnil
  simp only [length_vec, length_nil] at hlen
  omega

theorem getUint_take_vec {a : Bytes} (h : a.length < 256 ^ w) (rest : Bytes) :
    getUint ((vec w a ++ rest).take w) = a.length := by
  rw [vec, append_assoc, take_left' (length_putUint _ _), getUint_putUint h]

theorem drop_vec (w : Nat) (a rest : Bytes) : (vec w a ++ rest).drop w = a ++ rest := by
  rw [vec, append_assoc, drop_left' (length_putUint _ _)]

/-- `data` starts with the byte string `a` behind its length, and `rest` follows. -/
theorem vec_append_iff {data a rest : Bytes} (hn : n = getUint (data.take w)) :
    (w ≤ data.length ∧ n ≤ (data.drop w).length ∧ (data.drop w).take n = a ∧
        (data.drop w).drop n = rest) ↔
      a.length < 256 ^ w ∧ data = vec w a ++ rest := by
  constructor
  · rintro ⟨hw, hle, rfl, rfl⟩
    have hlen : ((data.drop w).take n).length = n := by
      rw [length_take]
      exact Nat.min_eq_left hle
    obtain ⟨hlt, hdata⟩ := putUint_append_iff.mp ⟨hw, hn.symm, rfl⟩
    rw [vec, hlen, append_assoc, take_append_drop]
    exact ⟨hlt, hdata⟩
  · rintro ⟨hlt, rfl⟩
    obtain rfl : n = a.length := hn.trans (getUint_take_vec hlt rest)
    rw [drop_vec]
    exact ⟨by simp; omega, by simp, take_left, drop_left⟩

/-- `data` is the byte string `a` behind its length, with nothing after it. -/
theorem vec_iff {w : Nat} {data a : Bytes} :
    (w ≤ data.length ∧ getUint (data.take w) = data.length - w ∧ data.drop w = a) ↔
      a.length < 256 ^ w ∧ data = vec w a := by
  constructor
  · rintro ⟨hw, hn, rfl⟩
    rw [vec, length_drop]
    exact putUint_append_iff.mp ⟨hw, hn, rfl⟩
  · rintro ⟨hlt, rfl⟩
    obtain ⟨hw, hn, hd⟩ := putUint_append_iff.mpr ⟨hlt, rfl⟩
    refine ⟨hw, ?_, hd⟩
    rw [vec, hn]
    simp

/-- A writer and a reader of one byte string agree if their checks do. -/
theorem vec_codec {good ok : Prop} {data a : Bytes} (hgood : good → a.length < 256 ^ w)
    (hok : ok → w ≤ data.length ∧ getUint (data.take w) = data.length - w)
    (h : data.length = w + a.length → getUint (data.take w) = a.length → a.length < 256 ^ w →
      (good ↔ ok)) :
    good ∧ vec w a = data ↔ ok ∧ data.drop w = a := by
  constructor
  · rintro ⟨hwritten, rfl⟩
    obtain ⟨-, hlen, hdrop⟩ := vec_iff.mpr ⟨hgood hwritten, rfl⟩
    have htotal := length_vec w a
    exact ⟨(h htotal (by omega) (hgood hwritten)).mp hwritten, hdrop⟩
  · rintro ⟨hread, rfl⟩
    obtain ⟨hw, hlen⟩ := hok hread
    obtain ⟨hlt, hdata⟩ := vec_iff.mp ⟨hw, hlen, rfl⟩
    rw [length_drop] at h hlt
    exact ⟨(h (by omega) hlen hlt).mpr hread, hdata.symm⟩

/-! ## Lists of items -/

variable {ε α : Type}

/-- Every item may follow the ones before it, the first of them following `acc`. -/
def Follows (good : List α → α → Prop) : List α → List α → Prop
  | _, [] => True
  | acc, a :: as => good acc a ∧ Follows good (acc ++ [a]) as

theorem follows_const {p : α → Prop} {acc as : List α} :
    Follows (fun _ => p) acc as ↔ ∀ a ∈ as, p a := by
  induction as generalizing acc with
  | nil => simp [Follows]
  | cons a as ih => simp [Follows, ih]

theorem Follows.mem {good : List α → α → Prop} {acc as : List α} (h : Follows good acc as)
    {a : α} (ha : a ∈ as) : ∃ seen, good seen a := by
  induction as generalizing acc with
  | nil => simp at ha
  | cons b as ih =>
    rcases mem_cons.mp ha with rfl | hin
    · exact ⟨acc, h.1⟩
    · exact ih h.2 hin

/-- `for len(data) > 0 { … }`, reading one item a turn. `item` sees the items
read before. Each turn takes a byte at least, so `fuel` never runs out. -/
def readAll (item : List α → Bytes → Except ε (α × Bytes)) :
    Nat → List α → Bytes → Except ε (List α)
  | _, acc, [] => .ok acc
  | 0, acc, _ :: _ => .ok acc
  | fuel + 1, acc, b :: bs => do
      let (a, rest) ← item acc (b :: bs)
      readAll item fuel (acc ++ [a]) rest

def readList (item : List α → Bytes → Except ε (α × Bytes)) (data : Bytes) :
    Except ε (List α) :=
  readAll item data.length [] data

/-- `for _, a := range as { … }`, appending one item a turn to at most `room`
bytes; `full` is the error for an item that no longer fits. -/
def writeAll (room : Nat) (full : ε) (item : List α → α → Except ε Bytes) :
    List α → Bytes → List α → Except ε Bytes
  | _, out, [] => .ok out
  | acc, out, a :: as => do
      let bytes ← item acc a
      if room < out.length + bytes.length then .error full
      else writeAll room full item (acc ++ [a]) (out ++ bytes) as

def writeList (room : Nat) (full : ε) (item : List α → α → Except ε Bytes)
    (as : List α) : Except ε Bytes :=
  writeAll room full item [] [] as

section Laws

variable {good : List α → α → Prop} {put : α → Bytes}

@[simp] theorem readAll_nil (item : List α → Bytes → Except ε (α × Bytes)) (fuel : Nat)
    (acc : List α) : readAll item fuel acc [] = .ok acc := by
  cases fuel <;> rfl

variable {as : List α} {item : List α → Bytes → Except ε (α × Bytes)}

theorem flatMap_put_eq_nil (hne : ∀ a, put a ≠ []) :
    as.flatMap put = [] ↔ as = [] := by
  rw [flatMap_eq_nil_iff, eq_nil_iff_forall_not_mem]
  exact forall_congr' fun a => ⟨fun h ha => hne a (h ha), fun h ha => absurd ha h⟩

theorem length_put_le {a : α} (ha : a ∈ as) : (put a).length ≤ (as.flatMap put).length := by
  obtain ⟨before, after, rfl⟩ := append_of_mem ha
  simp only [flatMap_append, flatMap_cons, length_append]
  omega

theorem readAll_eq_ok (hne : ∀ a, put a ≠ [])
    (hitem : ∀ acc data a rest,
      item acc data = .ok (a, rest) ↔ good acc a ∧ data = put a ++ rest)
    {fuel : Nat} {acc bs : List α} {data : Bytes} (hfuel : data.length ≤ fuel) :
    readAll item fuel acc data = .ok bs ↔
      ∃ as, bs = acc ++ as ∧ Follows good acc as ∧ data = as.flatMap put := by
  induction fuel generalizing acc data with
  | zero =>
    obtain rfl : data = [] := eq_nil_of_length_eq_zero (Nat.le_zero.mp hfuel)
    constructor
    · intro h
      exact ⟨[], by simpa using h.symm, trivial, rfl⟩
    · rintro ⟨as, rfl, -, hdata⟩
      obtain rfl := (flatMap_put_eq_nil hne).mp hdata.symm
      simp
  | succ fuel ih =>
    cases data with
    | nil =>
      rw [readAll_nil, ← ih (show ([] : Bytes).length ≤ fuel from Nat.zero_le _), readAll_nil]
    | cons b data =>
      rw [readAll, bind_eq_ok]
      constructor
      · rintro ⟨⟨a, rest⟩, hread, htail⟩
        obtain ⟨ha, hsplit⟩ := (hitem _ _ _ _).mp hread
        have hshort : rest.length ≤ fuel := by
          have hpos := length_pos_iff.mpr (hne a)
          have := congrArg List.length hsplit
          simp only [length_cons, length_append] at this hfuel
          omega
        obtain ⟨as, hbs, hgood, hrest⟩ := (ih hshort).mp htail
        refine ⟨a :: as, by simpa using hbs, ⟨ha, hgood⟩, ?_⟩
        rw [hsplit, hrest, flatMap_cons]
      · rintro ⟨as, hbs, hgood, hdata⟩
        cases as with
        | nil => simp at hdata
        | cons a as =>
          rw [flatMap_cons] at hdata
          have hshort : (as.flatMap put).length ≤ fuel := by
            have hpos := length_pos_iff.mpr (hne a)
            have := congrArg List.length hdata
            simp only [length_cons, length_append] at this hfuel
            omega
          exact ⟨(a, as.flatMap put), (hitem _ _ _ _).mpr ⟨hgood.1, hdata⟩,
            (ih hshort).mpr ⟨as, by simpa using hbs, hgood.2, rfl⟩⟩

/-- **Reading a list**: it succeeds exactly on the concatenation of good items. -/
theorem readList_eq_ok (hne : ∀ a, put a ≠ [])
    (hitem : ∀ acc data a rest,
      item acc data = .ok (a, rest) ↔ good acc a ∧ data = put a ++ rest)
    {data : Bytes} :
    readList item data = .ok as ↔ Follows good [] as ∧ data = as.flatMap put := by
  rw [readList, readAll_eq_ok hne hitem (Nat.le_refl _)]
  simp

theorem writeAll_eq_ok {room : Nat} {full : ε} {item : List α → α → Except ε Bytes}
    (hitem : ∀ acc a bytes, item acc a = .ok bytes ↔ good acc a ∧ bytes = put a) {acc : List α}
    {out res : Bytes} (hroom : out.length ≤ room) :
    writeAll room full item acc out as = .ok res ↔
      Follows good acc as ∧ res = out ++ as.flatMap put ∧ res.length ≤ room := by
  induction as generalizing acc out with
  | nil =>
    simp only [writeAll, Except.ok.injEq, Follows, flatMap_nil, append_nil, true_and]
    constructor
    · rintro rfl
      exact ⟨rfl, hroom⟩
    · rintro ⟨rfl, -⟩
      rfl
  | cons a as ih =>
    rw [writeAll, bind_eq_ok]
    constructor
    · rintro ⟨bytes, hbytes, h⟩
      obtain ⟨ha, rfl⟩ := (hitem _ _ _).mp hbytes
      split at h
      · cases h
      · rename_i hfit
        obtain ⟨hgood, hres, hlen⟩ :=
          (ih (by rw [length_append]; exact Nat.le_of_not_lt hfit)).mp h
        exact ⟨⟨ha, hgood⟩, by simp [hres], hlen⟩
    · rintro ⟨hgood, hres, hlen⟩
      refine ⟨put a, (hitem _ _ _).mpr ⟨hgood.1, rfl⟩, ?_⟩
      have hfit : out.length + (put a).length ≤ room := by
        rw [hres] at hlen
        simp only [flatMap_cons, length_append] at hlen
        omega
      rw [if_neg (Nat.not_lt.mpr hfit)]
      exact (ih (by rwa [length_append])).mpr ⟨hgood.2, by simp [hres], hlen⟩

/-- **Writing a list**: it succeeds exactly on good items that fit together. -/
theorem writeList_eq_ok {room : Nat} {full : ε} {item : List α → α → Except ε Bytes}
    (hitem : ∀ acc a bytes, item acc a = .ok bytes ↔ good acc a ∧ bytes = put a) {res : Bytes} :
    writeList room full item as = .ok res ↔
      Follows good [] as ∧ res = as.flatMap put ∧ res.length ≤ room := by
  rw [writeList, writeAll_eq_ok hitem (Nat.zero_le _)]
  simp

end Laws

end HeadlessClient.Wire
