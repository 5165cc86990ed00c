import HeadlessClient.Base.GoMap
import HeadlessClient.Base.Bytes
import Mathlib.Logic.Function.Basic

/-!
# Transport — pooled HTTP/1.1 connections

The connection flags of `internal/chromehttp1/conn.go` and the idle pool of
`tls.go`, function by function. A `*http1.Conn` is an index into the list of
connections made so far. What `Conn.RoundTrip` and the body reader do with bytes
is in `Http1`; here a response body is the number of its bytes not yet read.

The idle list of an address is kept NEWEST FIRST: Go appends to a slice and
takes from its end.
-/

namespace HeadlessClient.Transport

open Base List

/-- `host:port`. -/
abbrev Address := Bytes

/-- Nanoseconds on some clock. -/
abbrev Time := Int

/-- A `*http1.Conn`. -/
abbrev ConnId := Nat

/-- `1 << 16`. -/
def drainLimit : Nat := 1 <<< 16

def chromeMaxIdleConnectionsPerHost : Nat := 6

/-- `300 * time.Second`. -/
def chromeIdleConnectionTimeout : Time := 300 * 1000000000

/-- `http1.Conn`. -/
structure Conn where
  /-- The address its idle handler returns it under. -/
  address : Address
  reusable : Bool
  /-- `Close` was called. -/
  closed : Bool
  /-- Bytes of the last response body that nobody has read. -/
  unread : Nat
deriving DecidableEq, Repr

namespace Conn

/-- `NewConn`, with the idle handler set. -/
def new (address : Address) : Conn := ⟨address, true, false, 0⟩

/-- `(*Conn).Close`. -/
def close (c : Conn) : Conn := { c with reusable := false, closed := true }

/-- `(*Conn).RoundTrip` that returns a response with a body of `unread` bytes;
`last` is `response.Close || request.Close`. -/
def answered (c : Conn) (last : Bool) (unread : Nat) : Conn :=
  { c with reusable := if last then false else c.reusable, unread := unread }

/-- `(*Conn).RoundTrip` that returns an error, and `(*pooledBody).Read` that
returns one other than `io.EOF`. -/
def failed (c : Conn) : Conn := { c with reusable := false }

/-- `(*pooledBody).Read` of `n` bytes. -/
def readBody (c : Conn) (n : Nat) : Conn := { c with unread := c.unread - n }

/-- The drain of `(*pooledBody).Close`: `io.CopyN` reads up to `drainLimit`
bytes and returns `io.EOF` if the body ends before. `readErr` is any other
error, after `n` bytes. -/
def drain (c : Conn) (readErr : Option Nat) : Conn :=
  if c.reusable then
    match readErr with
    | some n => { c with reusable := false, unread := c.unread - n }
    | none =>
      if c.unread < drainLimit then { c with unread := 0 }
      else { c with reusable := false, unread := c.unread - drainLimit }
  else c

theorem closed_drain (c : Conn) (readErr : Option Nat) : (c.drain readErr).closed = c.closed := by
  unfold drain
  cases readErr with
  | some n => split_ifs <;> rfl
  | none => split_ifs <;> rfl

/-- **A connection that is still reusable after the drain has no unread byte.** -/
theorem unread_drain {c : Conn} {readErr : Option Nat} (h : (c.drain readErr).reusable = true) :
    (c.drain readErr).unread = 0 := by
  unfold drain at h ⊢
  by_cases hr : c.reusable = true
  · rw [if_pos hr] at h ⊢
    cases readErr with
    | some n => cases h
    | none =>
      dsimp only at h ⊢
      by_cases hlt : c.unread < drainLimit
      · rw [if_pos hlt]
      · rw [if_neg hlt] at h
        cases h
  · rw [if_neg hr] at h
    exact absurd h hr

end Conn

/-! ## The idle pool -/

structure IdleConnection where
  connection : ConnId
  expiresAt : Time
deriving DecidableEq, Repr

def held (pool : List IdleConnection) : List ConnId := pool.map (·.connection)

/-- `connection.Close()` on one of the connections. -/
def closeConn (conns : List Conn) (c : ConnId) : List Conn := conns.modify c Conn.close

def reusable (conns : List Conn) (c : ConnId) : Bool := (conns[c]?).any (·.reusable)

structure Taken where
  connection : Option ConnId
  pool : List IdleConnection
  conns : List Conn

/-- The loop of `takeIdle` over the idle list of the address. -/
def takeIdle (now : Time) : List IdleConnection → List Conn → Taken
  | [], conns => ⟨none, [], conns⟩
  | last :: pool, conns =>
    if now < last.expiresAt ∧ reusable conns last.connection = true then
      ⟨some last.connection, pool, conns⟩
    else takeIdle now pool (closeConn conns last.connection)

/-- The locked section of `putIdle`: the list and whether it took the connection. -/
def putIdle (now : Time) (pool : List IdleConnection) (c : ConnId) :
    List IdleConnection × Bool :=
  if pool.length ≥ chromeMaxIdleConnectionsPerHost then (pool, false)
  else (⟨c, now + chromeIdleConnectionTimeout⟩ :: pool, true)

/-! ### What `takeIdle` does -/

def closeAll (conns : List Conn) (cs : List ConnId) : List Conn := cs.foldl closeConn conns

theorem getElem?_modify_if {α : Type} (l : List α) (c d : Nat) (f : α → α) :
    (l.modify c f)[d]? = if c = d then (l[d]?).map f else l[d]? := by
  rw [getElem?_modify]
  by_cases h : c = d <;> simp [h]

theorem getElem?_closeConn (conns : List Conn) (c d : ConnId) :
    (closeConn conns c)[d]? = if d = c then (conns[d]?).map Conn.close else conns[d]? := by
  rw [closeConn, getElem?_modify_if]
  simp only [eq_comm]

theorem getElem?_closeAll (cs : List ConnId) : ∀ (conns : List Conn) (d : ConnId),
    (closeAll conns cs)[d]? = if d ∈ cs then (conns[d]?).map Conn.close else conns[d]? := by
  induction cs with
  | nil => intro conns d; rfl
  | cons c cs ih =>
    intro conns d
    show (closeAll (closeConn conns c) cs)[d]? = _
    rw [ih, getElem?_closeConn]
    by_cases hd : d ∈ cs
    · rw [if_pos hd, if_pos (mem_cons_of_mem _ hd)]
      by_cases hc : d = c
      · -- closed twice is closed
        rw [if_pos hc, Option.map_map]
        rfl
      · rw [if_neg hc]
    · rw [if_neg hd]
      by_cases hc : d = c
      · rw [if_pos hc, if_pos (hc ▸ mem_cons_self)]
      · rw [if_neg hc, if_neg]
        rintro (_ | hd')
        · exact hc rfl
        · exact hd (by assumption)

theorem reusable_closeConn_ne (conns : List Conn) {c d : ConnId} (h : d ≠ c) :
    reusable (closeConn conns c) d = reusable conns d := by
  rw [reusable, getElem?_closeConn, if_neg h]
  rfl

/-- The entry can be handed out. -/
def Usable (now : Time) (conns : List Conn) (e : IdleConnection) : Prop :=
  now < e.expiresAt ∧ reusable conns e.connection = true

/-- **What `takeIdle` does**: it skips and closes a run of entries that are
expired or not reusable, and returns the first usable one, if there is any. -/
theorem takeIdle_cases (now : Time) (pool : List IdleConnection) :
    ∀ conns : List Conn, (held pool).Nodup →
      ∃ skipped, (takeIdle now pool conns).conns = closeAll conns (held skipped) ∧
        (∀ e ∈ skipped, ¬Usable now conns e) ∧
        ((pool = skipped ∧ (takeIdle now pool conns).connection = none ∧
            (takeIdle now pool conns).pool = []) ∨
          ∃ e, pool = skipped ++ e :: (takeIdle now pool conns).pool ∧ Usable now conns e ∧
            (takeIdle now pool conns).connection = some e.connection) := by
  induction pool with
  | nil => intro conns _; exact ⟨[], rfl, fun e he => (nomatch he), .inl ⟨rfl, rfl, rfl⟩⟩
  | cons last pool ih =>
    intro conns hnd
    rw [held, map_cons, nodup_cons] at hnd
    obtain ⟨hnot, hnd⟩ := hnd
    rw [takeIdle]
    split_ifs with hu
    · exact ⟨[], rfl, fun e he => (nomatch he), .inr ⟨last, rfl, hu, rfl⟩⟩
    · obtain ⟨skipped, hconns, hskip, hcases⟩ := ih (closeConn conns last.connection) hnd
      -- closing the first entry does not change what is said of the others
      have hother : ∀ e ∈ pool, reusable (closeConn conns last.connection) e.connection
          = reusable conns e.connection := by
        intro e he
        refine reusable_closeConn_ne conns fun heq => hnot ?_
        rw [← heq]
        exact mem_map.mpr ⟨e, he, rfl⟩
      have hsub : ∀ e ∈ skipped, e ∈ pool := by
        intro e he
        rcases hcases with ⟨hp, -, -⟩ | ⟨e', hp, -, -⟩
        · rw [hp]; exact he
        · rw [hp]; exact mem_append_left _ he
      refine ⟨last :: skipped, hconns, fun e he => ?_, ?_⟩
      · rcases mem_cons.mp he with rfl | he
        · exact hu
        · have := hskip e he
          rwa [Usable, hother e (hsub e he)] at this
      · rcases hcases with ⟨hp, hnone, hnil⟩ | ⟨e, hp, huse, hsome⟩
        · exact .inl ⟨by rw [← hp], hnone, hnil⟩
        · refine .inr ⟨e, ?_, ?_, hsome⟩
          · rw [cons_append, ← hp]
          · have hmem : e ∈ pool := by
              rw [hp]; exact mem_append_right _ mem_cons_self
            rwa [Usable, hother e hmem] at huse

end HeadlessClient.Transport
