import HeadlessClient.Base.Ownership
import HeadlessClient.Transport.State

/-!
# Transport — the invariant of the HTTP/1.1 pool

A connection is in at most one PLACE: with the call that uses it, in the idle
list of one address, or in the hands of a `CloseIdleConnections` that is about
to close it. Every step moves connections between places (`Placed.relocate`) or
makes a new one (`Placed.create`), and the condition a connection is in depends
on its place: drained, it has no unread byte unless it is not reusable; in the
pool it is reusable.
-/

namespace HeadlessClient.Transport

open Base List

/-! ## Places -/

/-- How far a call has got with its connection. -/
inductive Phase where
  | busy
  | drained
  | checked
deriving DecidableEq, Repr

inductive Place where
  | call (t : CallId) (phase : Phase)
  | idle (address : Address)
  | swept (t : CallId)
deriving DecidableEq, Repr

namespace Call

def holds : Call → Option (ConnId × Phase)
  | .exchange _ c _ => some (c, .busy)
  | .failed _ c _ => some (c, .busy)
  | .body c => some (c, .busy)
  | .drained c => some (c, .drained)
  | .putIdle c => some (c, .checked)
  | _ => none

/-- The connections a `CloseIdleConnections` has yet to close. -/
def swept : Call → List ConnId
  | .sweep cs _ => cs
  | _ => []

end Call

def Phase.Meets : Phase → Conn → Prop
  | .busy, conn => conn.closed = false
  | .drained, conn => conn.closed = false ∧ (conn.reusable = true → conn.unread = 0)
  | .checked, conn => conn.closed = false ∧ conn.reusable = true ∧ conn.unread = 0

def Place.Meets : Place → Conn → Prop
  | .call _ phase, conn => phase.Meets conn
  | .idle _, conn => Phase.checked.Meets conn
  | .swept _, _ => True

def Place.owner : Place → Option CallId
  | .call t _ => some t
  | .idle _ => none
  | .swept t => some t

/-- Connection `c` is at the place. -/
def State.At (s : State) (c : ConnId) : Place → Prop
  | .call t phase => (s.calls t).holds = some (c, phase)
  | .idle a => c ∈ held (s.pool a)
  | .swept t => c ∈ (s.calls t).swept

structure PoolInv (s : State) : Prop where
  placed : Placed s.At (fun c => s.conns[c]?) Place.Meets
  nodup : ∀ a, (held (s.pool a)).Nodup
  size : ∀ a, (s.pool a).length ≤ chromeMaxIdleConnectionsPerHost

/-! ## Reading a changed state -/

theorem Phase.Meets.isOpen {phase : Phase} {conn : Conn} (h : phase.Meets conn) :
    conn.closed = false := by
  cases phase with
  | busy => exact h
  | drained => exact h.1
  | checked => exact h.1

theorem State.pool_setPool (s : State) (a b : Address) (pool : List IdleConnection) :
    (s.setPool a pool).pool b = if b = a then pool else s.pool b := by
  unfold State.setPool State.pool
  by_cases h : b = a
  · subst h
    simp
  · simp [h, AList.lookup_insert_ne h]

variable {s : State}

/-- After a call moved on, a connection is where that call says, or where it was
before, if that is not with the call. -/
theorem State.At.of_goto {t : CallId} {next : Call} {c : ConnId} {p : Place}
    (h : (s.goto t next).At c p) :
    (∃ phase, p = .call t phase ∧ next.holds = some (c, phase)) ∨
      (p = .swept t ∧ c ∈ next.swept) ∨ (s.At c p ∧ p.owner ≠ some t) := by
  cases p with
  | idle a => exact .inr (.inr ⟨h, nofun⟩)
  | call u phase =>
    by_cases hu : u = t
    · subst hu
      simp only [State.At, State.goto_calls_self] at h
      exact .inl ⟨phase, rfl, h⟩
    · simp only [State.At, s.goto_calls_ne t next hu] at h
      exact .inr (.inr ⟨h, fun heq => hu (Option.some.inj heq)⟩)
  | swept u =>
    by_cases hu : u = t
    · subst hu
      simp only [State.At, State.goto_calls_self] at h
      exact .inr (.inl ⟨rfl, h⟩)
    · simp only [State.At, s.goto_calls_ne t next hu] at h
      exact .inr (.inr ⟨h, fun heq => hu (Option.some.inj heq)⟩)

theorem State.At.of_goto_free {t : CallId} {next : Call} {c : ConnId} {p : Place}
    (h : (s.goto t next).At c p) (hholds : next.holds = none) (hswept : next.swept = []) :
    s.At c p ∧ p.owner ≠ some t := by
  rcases h.of_goto with ⟨phase, -, hsome⟩ | ⟨-, hmem⟩ | hfree
  · rw [hholds] at hsome
    cases hsome
  · rw [hswept] at hmem
    cases hmem
  · exact hfree

/-! ## What the steps preserve -/

namespace PoolInv

variable {s s' : State} {t : CallId} {c : ConnId} {next : Call}

theorem init : PoolInv State.init where
  placed := by
    constructor
    · intro c p q hp
      cases p <;> cases hp
    · intro c p hp
      cases p <;> cases hp
  nodup _ := nodup_nil
  size _ := Nat.zero_le _

theorem neutral (h : PoolInv s) (hconns : s'.conns = s.conns)
    (hidle : s'.idleConnections = s.idleConnections)
    (hcalls : s'.calls = Function.update s.calls t next)
    (hnext : next.holds = none) (hswept : next.swept = []) : PoolInv s' := by
  have hpool : s'.pool = s.pool := by
    funext a
    rw [State.pool, hidle, State.pool]
  refine ⟨h.placed.frame fun c p hp => ?_, fun a => ?_, fun a => ?_⟩
  · have hgoto : (s.goto t next).At c p := by
      cases p with
      | call u phase => simpa only [State.At, State.goto, hcalls] using hp
      | idle a => simpa only [State.At, State.goto, State.pool, hidle] using hp
      | swept u => simpa only [State.At, State.goto, hcalls] using hp
    exact ⟨(hgoto.of_goto_free hnext hswept).1, by rw [hconns]⟩
  · rw [hpool]
    exact h.nodup a
  · rw [hpool]
    exact h.size a

theorem same (h : PoolInv s) (hconns : s'.conns = s.conns)
    (hidle : s'.idleConnections = s.idleConnections) (hcalls : s'.calls = s.calls) :
    PoolInv s' := by
  obtain ⟨conns, clientConns, idle, table, calls⟩ := s
  obtain ⟨conns', clientConns', idle', table', calls'⟩ := s'
  cases hconns
  cases hidle
  cases hcalls
  exact ⟨h.placed.frame fun c p hp => ⟨by cases p <;> exact hp, rfl⟩, h.nodup, h.size⟩

variable {phase : Phase} {a : Address}

/-- A step of a call on the connection it has: the call keeps the connection or
lets it go, and nobody else sees the change. -/
theorem onOwn (h : PoolInv s) (hold : (s.calls t).holds = some (c, phase))
    (f : Conn → Conn) (hswept : next.swept = [])
    (hnext : ∀ d phase', next.holds = some (d, phase') → d = c ∧
      ∀ conn, s.conns[c]? = some conn → phase.Meets conn → phase'.Meets (f conn)) :
    PoolInv (s.onConn c f |>.goto t next) := by
  have hown : s.At c (.call t phase) := hold
  refine ⟨?_, h.nodup, h.size⟩
  -- the only place that changes is the call's own
  refine h.placed.relocate
    (fun _ p => if p.owner = some t then (next.holds.elim p fun x => .call t x.2) else p)
    fun d p' hp' => ?_
  rcases hp'.of_goto with ⟨phase', rfl, hholds⟩ | ⟨-, hmem⟩ | ⟨hat, howner⟩
  · obtain ⟨rfl, hmeets⟩ := hnext d phase' hholds
    refine ⟨.call t phase, hown, by simp [Place.owner, hholds], fun conn hget hm => ?_⟩
    refine ⟨f conn, ?_, hmeets conn hget hm⟩
    show (s.conns.modify d f)[d]? = _
    rw [getElem?_modify_if, if_pos rfl, hget]
    rfl
  · rw [hswept] at hmem
    cases hmem
  · refine ⟨p', ?_, by rw [if_neg howner], fun conn hget hm => ⟨conn, ?_, hm⟩⟩
    · cases p' <;> exact hat
    · have hne : c ≠ d := by
        rintro rfl
        have heq := h.placed.unique c p' _ (by cases p' <;> exact hat) hown
        exact howner (by rw [heq]; rfl)
      show (s.conns.modify c f)[d]? = _
      rw [getElem?_modify_if, if_neg hne]
      exact hget

theorem letGo (h : PoolInv s) (hold : (s.calls t).holds = some (c, phase)) (f : Conn → Conn)
    (hholds : next.holds = none) (hswept : next.swept = []) :
    PoolInv (s.onConn c f |>.goto t next) :=
  h.onOwn hold f hswept fun d phase' hd => by
    rw [hholds] at hd
    cases hd

/-- `takeIdle`: what it skips leaves the pool closed, what it returns goes to the
call. -/
theorem take (h : PoolInv s) (now : Time) (hswept : next.swept = [])
    (hnext : ∀ d phase, next.holds = some (d, phase) →
      (s.taken now a).connection = some d ∧ phase = .busy) :
    PoolInv (s.take now a |>.goto t next) := by
  obtain ⟨skipped, hconns, -, hcases⟩ := takeIdle_cases now (s.pool a) s.conns (h.nodup a)
  obtain ⟨r, hr⟩ : ∃ r, takeIdle now (s.pool a) s.conns = r := ⟨_, rfl⟩
  rw [hr] at hconns hcases
  simp only [State.take, State.taken, hr] at hnext ⊢
  have hnodup := h.nodup a
  -- the list is the skipped entries, the returned one if any, and the rest
  obtain ⟨mid, hpool, hmid⟩ : ∃ mid, s.pool a = skipped ++ (mid ++ r.pool) ∧
      ∀ d, r.connection = some d ↔ d ∈ held mid := by
    rcases hcases with ⟨hp, hnone, hnil⟩ | ⟨e, hp, -, hsome⟩
    · exact ⟨[], by rw [hnil, hp]; simp, by simp [hnone, held]⟩
    · exact ⟨[e], hp, by simp [hsome, held, eq_comm]⟩
  rw [hpool] at hnodup
  simp only [held, map_append] at hnodup
  obtain ⟨-, hrest, hskip⟩ := nodup_append.mp hnodup
  obtain ⟨-, hpoolnodup, hmidrest⟩ := nodup_append.mp hrest
  have hmem : ∀ d, d ∈ held (s.pool a) ↔ d ∈ held skipped ∨ d ∈ held mid ∨ d ∈ held r.pool := by
    intro d
    rw [hpool]
    simp only [held, map_append, mem_append]
  have hget : ∀ d, d ∉ held skipped → r.conns[d]? = s.conns[d]? := by
    intro d hd
    rw [hconns, getElem?_closeAll, if_neg hd]
  refine ⟨?_, fun b => ?_, fun b => ?_⟩
  · refine h.placed.relocate
      (fun d p => if p = .idle a ∧ r.connection = some d then .call t .busy else p)
      fun d p' hp' => ?_
    rcases hp'.of_goto with ⟨phase, rfl, hholds⟩ | ⟨-, hmem'⟩ | ⟨hat, howner⟩
    · obtain ⟨hsome, rfl⟩ := hnext d phase hholds
      have hdmid := (hmid d).mp hsome
      refine ⟨.idle a, (hmem d).mpr (.inr (.inl hdmid)), by simp [hsome], fun conn hc hm => ?_⟩
      have hds : d ∉ held skipped := fun hd =>
        hskip d hd d (mem_append_left _ hdmid) rfl
      exact ⟨conn, (hget d hds).trans hc, hm.1⟩
    · rw [hswept] at hmem'
      cases hmem'
    · -- not touched: its place is another one, or it is in the rest of the list
      have hstay : s.At d p' ∧ d ∉ held skipped ∧ ¬(p' = .idle a ∧ r.connection = some d) := by
        by_cases hp : p' = .idle a
        · subst hp
          have hd : d ∈ held r.pool := by
            simpa only [State.At, State.pool_setPool, if_pos] using hat
          refine ⟨(hmem d).mpr (.inr (.inr hd)), fun hds => ?_, fun hsome => ?_⟩
          · exact hskip d hds d (mem_append_right _ hd) rfl
          · exact hmidrest d ((hmid d).mp hsome.2) d hd rfl
        · have hat' : s.At d p' := by
            cases p' with
            | call u phase => exact hat
            | swept u => exact hat
            | idle b =>
              have hb : b ≠ a := fun hb => hp (by rw [hb])
              simp only [State.At, State.pool_setPool, if_neg hb] at hat
              exact hat
          refine ⟨hat', fun hds => ?_, fun hsome => hp hsome.1⟩
          exact hp (h.placed.unique d p' (.idle a) hat' ((hmem d).mpr (.inl hds)))
      obtain ⟨hat', hds, hnot⟩ := hstay
      exact ⟨p', hat', by rw [if_neg hnot], fun conn hc hm => ⟨conn, (hget d hds).trans hc, hm⟩⟩
  · show (held ((State.setPool _ a r.pool).pool b)).Nodup
    rw [State.pool_setPool]
    split_ifs with hb
    · exact hpoolnodup
    · exact h.nodup b
  · show ((State.setPool _ a r.pool).pool b).length ≤ _
    rw [State.pool_setPool]
    split_ifs with hb
    · have hsize := h.size a
      rw [hpool, length_append, length_append] at hsize
      omega
    · exact h.size b

/-- `putIdle` with room in the list: the call hands its connection over. -/
theorem store {pool : List IdleConnection} {e : IdleConnection} (h : PoolInv s)
    (hold : (s.calls t).holds = some (e.connection, .checked)) (hpool : s.pool a = pool)
    (hroom : pool.length < chromeMaxIdleConnectionsPerHost) (hholds : next.holds = none)
    (hswept : next.swept = []) : PoolInv (s.setPool a (e :: pool) |>.goto t next) := by
  subst hpool
  have hown : s.At e.connection (.call t .checked) := hold
  refine ⟨?_, fun b => ?_, fun b => ?_⟩
  · refine h.placed.relocate (fun _ p => if p = .call t .checked then .idle a else p)
      fun d p' hp' => ?_
    obtain ⟨hat, howner⟩ := hp'.of_goto_free hholds hswept
    by_cases hnew : p' = .idle a ∧ d = e.connection
    · obtain ⟨rfl, rfl⟩ := hnew
      exact ⟨_, hown, by rw [if_pos rfl], fun conn hc hm => ⟨conn, hc, hm⟩⟩
    · have hat' : s.At d p' := by
        cases p' with
        | call u phase => exact hat
        | swept u => exact hat
        | idle b =>
          simp only [State.At, State.pool_setPool] at hat
          by_cases hb : b = a
          · rw [if_pos hb] at hat
            rcases mem_cons.mp hat with hd | hd
            · exact absurd ⟨by rw [hb], hd⟩ hnew
            · rw [hb]
              exact hd
          · rwa [if_neg hb] at hat
      refine ⟨p', hat', ?_, fun conn hc hm => ⟨conn, hc, hm⟩⟩
      rw [if_neg]
      rintro rfl
      exact howner rfl
  · show (held ((s.setPool a _).pool b)).Nodup
    rw [State.pool_setPool]
    split_ifs with hb
    · refine nodup_cons.mpr ⟨fun hmem => ?_, h.nodup a⟩
      -- it cannot be in the list already: it is with the call
      cases h.placed.unique e.connection (.idle a) _ hmem hown
    · exact h.nodup b
  · show ((s.setPool a _).pool b).length ≤ _
    rw [State.pool_setPool]
    split_ifs with hb
    · rw [length_cons]
      omega
    · exact h.size b

theorem dial (h : PoolInv s) (a : Address)
    (hholds : next.holds = some (s.conns.length, .busy)) (hswept : next.swept = []) :
    PoolInv (s.addConn a |>.goto t next) := by
  refine ⟨?_, h.nodup, h.size⟩
  refine h.placed.create s.conns.length (.call t .busy) (Conn.new a)
    (getElem?_eq_none (Nat.le_refl _)) ?_ rfl fun d p hp => ?_
  · show (s.conns ++ [Conn.new a])[s.conns.length]? = _
    simp
  · rcases hp.of_goto with ⟨phase, rfl, hsome⟩ | ⟨-, hmem⟩ | ⟨hat, -⟩
    · rw [hholds] at hsome
      cases hsome
      exact .inr ⟨rfl, rfl⟩
    · rw [hswept] at hmem
      cases hmem
    · have hat' : s.At d p := by cases p <;> exact hat
      obtain ⟨conn, hconn, -⟩ := h.placed.meets d p hat'
      have hlt : d < s.conns.length := (List.getElem?_eq_some_iff.mp hconn).1
      exact .inl ⟨hat', getElem?_append_left hlt⟩

theorem mem_allIdle {order : MapOrder} :
    c ∈ s.allIdle order ↔ ∃ a, c ∈ held (s.pool a) := by
  have hmem : ∀ pool : List IdleConnection, c ∈ held pool.reverse ↔ c ∈ held pool := by
    intro pool
    simp [held]
  simp only [State.allIdle, mem_flatMap, Prod.exists, GoMap.mem_range, hmem, State.pool]
  constructor
  · rintro ⟨a, pool, hlookup, hc⟩
    exact ⟨a, by rwa [hlookup]⟩
  · rintro ⟨a, hc⟩
    cases hlookup : s.idleConnections.lookup a with
    | none =>
      rw [hlookup] at hc
      cases hc
    | some pool =>
      rw [hlookup] at hc
      exact ⟨a, pool, hlookup, hc⟩

/-- `CloseIdleConnections` takes the whole pool. -/
theorem swap (h : PoolInv s) (order : MapOrder) (ccs : List ClientConnId) :
    PoolInv (s.clear.goto t (.sweep (s.allIdle order) ccs)) := by
  refine ⟨?_, fun _ => nodup_nil, fun _ => Nat.zero_le _⟩
  refine h.placed.relocate (fun _ p => if p.owner = none then .swept t else p)
    fun d p' hp' => ?_
  rcases hp'.of_goto with ⟨phase, -, hsome⟩ | ⟨rfl, hmem⟩ | ⟨hat, -⟩
  · cases hsome
  · obtain ⟨a, ha⟩ := mem_allIdle.mp hmem
    exact ⟨.idle a, ha, rfl, fun conn hc _ => ⟨conn, hc, trivial⟩⟩
  · cases p' with
    | call u phase => exact ⟨.call u phase, hat, rfl, fun conn hc hm => ⟨conn, hc, hm⟩⟩
    | swept u => exact ⟨.swept u, hat, rfl, fun conn hc hm => ⟨conn, hc, hm⟩⟩
    | idle a => cases hat

/-- `CloseIdleConnections` closes the next connection of its list. -/
theorem sweep {cs : List ConnId} {ccs : List ClientConnId} (h : PoolInv s)
    (hcall : s.calls t = .sweep (c :: cs) ccs) :
    PoolInv (s.onConn c Conn.close |>.goto t (.sweep cs ccs)) := by
  have hown : s.At c (.swept t) := by
    rw [State.At, hcall]
    exact mem_cons_self
  refine ⟨?_, h.nodup, h.size⟩
  refine h.placed.relocate (fun _ p => p) fun d p' hp' => ?_
  have hat : s.At d p' := by
    rcases hp'.of_goto with ⟨phase, -, hsome⟩ | ⟨rfl, hmem⟩ | ⟨hat, -⟩
    · cases hsome
    · rw [State.At, hcall]
      exact mem_cons_of_mem _ hmem
    · cases p' <;> exact hat
  refine ⟨p', hat, rfl, fun conn hc hm => ?_⟩
  show ∃ r', (s.conns.modify c Conn.close)[d]? = some r' ∧ _
  rw [getElem?_modify_if]
  by_cases hd : c = d
  · subst hd
    rw [h.placed.unique c p' _ hat hown, if_pos rfl, hc]
    exact ⟨_, rfl, trivial⟩
  · rw [if_neg hd]
    exact ⟨conn, hc, hm⟩

theorem free_of_afterError {reused : Bool} (h : AfterError a reused next) :
    next.holds = none ∧ next.swept = [] := by
  rcases h with rfl | ⟨-, rfl⟩ <;> exact ⟨rfl, rfl⟩

/-- A phase in which the call keeps its connection `c`. -/
private theorem keeps {phase' : Phase} {f : Conn → Conn} (hholds : next.holds = some (c, phase'))
    (hmeets : ∀ conn, s.conns[c]? = some conn → phase.Meets conn → phase'.Meets (f conn)) :
    ∀ d phase'', next.holds = some (d, phase'') → d = c ∧
      ∀ conn, s.conns[c]? = some conn → phase.Meets conn → phase''.Meets (f conn) := by
  intro d phase'' hd
  rw [hholds] at hd
  cases hd
  exact ⟨rfl, hmeets⟩

theorem step {ev : Event} (h : PoolInv s) (hstep : Step s t ev s') : PoolInv s' := by
  cases hstep with
  | start a hcall | lookupHit hcall table get can | lookupDrop hcall table get cannot
  | lookupMiss hcall table =>
    exact h.neutral rfl rfl rfl rfl rfl
  | takeNone now hcall none => exact h.take now rfl nofun
  | takeSome now hcall some =>
    refine h.take now rfl fun d phase hd => ?_
    cases hd
    exact ⟨some, rfl⟩
  | answer last unread hcall | exchangeError hcall =>
    exact h.onOwn (by rw [hcall]; rfl) _ rfl (keeps rfl fun conn _ hm => hm)
  | closeFailed hcall after =>
    obtain ⟨hholds, hswept⟩ := free_of_afterError after
    exact h.letGo (by rw [hcall]; rfl) _ hholds hswept
  | read n hcall | readError hcall =>
    exact h.onOwn (by rw [hcall]; rfl) _ rfl (keeps rfl fun conn _ hm => hm)
  | closeBody readErr hcall =>
    refine h.onOwn (by rw [hcall]; rfl) _ rfl (keeps rfl fun conn _ hm => ?_)
    exact ⟨(conn.closed_drain readErr).trans hm.isOpen, Conn.unread_drain⟩
  | putIdleClose hcall flag => exact h.letGo (by rw [hcall]; rfl) _ rfl rfl
  | @putIdleCheck c hcall flag =>
    -- the check reads the connection without changing it
    have hsame : s.onConn c id = s := by
      rw [State.onConn, modify_id]
    rw [← hsame]
    refine h.onOwn (by rw [hcall]; rfl) id rfl (keeps rfl fun conn hc hm => ?_)
    have hreusable : conn.reusable = true := by
      rwa [reusable, hc] at flag
    exact ⟨hm.1, hreusable, hm.2 hreusable⟩
  | putIdleFull now hcall get full => exact h.letGo (by rw [hcall]; rfl) _ rfl rfl
  | @putIdleStore c conn now hcall get room =>
    by_cases hfull : (s.pool conn.address).length ≥ chromeMaxIdleConnectionsPerHost
    · rw [putIdle, if_pos hfull] at room
      cases room
    · rw [putIdle, if_neg hfull]
      exact h.store (by rw [hcall]; rfl) rfl (Nat.lt_of_not_le hfull) rfl rfl
  | dialError hcall => exact h.neutral rfl rfl rfl rfl rfl
  | dialConn hcall => exact h.dial _ rfl rfl
  | dialClientConn hcall | insert hcall => exact h.neutral rfl rfl rfl rfl rfl
  | openStream connectionClose get started isOpen can | failRequest get started
  | forgetStream get known | peer get does =>
    exact h.same rfl rfl rfl
  | returned hcall after =>
    obtain ⟨hholds, hswept⟩ := free_of_afterError after
    exact h.neutral rfl rfl rfl hholds hswept
  | closeIdle order order' hcall => exact h.swap order _
  | sweepConn hcall => exact h.sweep hcall
  | sweepClientConn hcall | sweepEnd hcall => exact h.neutral rfl rfl rfl rfl rfl

end PoolInv

theorem Reaches.poolInv {ok : State → CallId → Event → Prop} (h : Reaches ok s) : PoolInv s := by
  induction h with
  | init => exact PoolInv.init
  | step _ hstep _ ih => exact ih.step hstep

/-! ## What a caller sees -/

/-- Call `t` has an exchange on connection `c` that has not ended. -/
def State.Serving (s : State) (t : CallId) (c : ConnId) : Prop :=
  ∃ phase, (s.calls t).holds = some (c, phase)

/-- Connection `c` is in the idle list of the address. -/
def State.Held (s : State) (a : Address) (c : ConnId) : Prop := c ∈ held (s.pool a)

def Closed (conns : List Conn) (c : ConnId) : Prop :=
  ∃ conn, conns[c]? = some conn ∧ conn.closed = true

/-- The entries in front of the returned one, all of them if none is returned, are closed and
out of the list. -/
def ClosesSkipped (pool : List IdleConnection) (taken : Taken) : Prop :=
  ∃ skipped,
    (taken.connection = none ∧ pool = skipped ∧ taken.pool = [] ∨
      ∃ e, taken.connection = some e.connection ∧ pool = skipped ++ e :: taken.pool) ∧
    ∀ e ∈ skipped, Closed taken.conns e.connection ∧ e.connection ∉ held taken.pool

/-- What the pool guarantees in a state. -/
structure PoolSafe (s : State) : Prop where
  serving_once : ∀ t u c, s.Serving t c → s.Serving u c → t = u
  held_in_one : ∀ a b c, s.Held a c → s.Held b c → a = b
  held_once : ∀ a, (held (s.pool a)).Nodup
  serving_not_held : ∀ t a c, s.Serving t c → ¬s.Held a c
  serving_not_closed : ∀ t c, s.Serving t c → ¬Closed s.conns c
  held_not_closed : ∀ a c, s.Held a c → ¬Closed s.conns c
  size : ∀ a, (s.pool a).length ≤ 6
  held_ready : ∀ a c, s.Held a c → ∃ conn, s.conns[c]? = some conn ∧ conn.closed = false ∧
    conn.reusable = true ∧ conn.unread = 0
  take_usable : ∀ now a c, (takeIdle now (s.pool a) s.conns).connection = some c →
    reusable (takeIdle now (s.pool a) s.conns).conns c = true ∧
      ∃ e ∈ s.pool a, e.connection = c ∧ now < e.expiresAt
  take_closes_skipped : ∀ now a, ClosesSkipped (s.pool a) (takeIdle now (s.pool a) s.conns)

namespace PoolInv

variable {s : State}

theorem not_closed {c : ConnId} {p : Place} (h : PoolInv s) (hat : s.At c p)
    (hopen : ∀ conn, p.Meets conn → conn.closed = false) : ¬Closed s.conns c := by
  rintro ⟨conn, hget, hclosed⟩
  obtain ⟨conn', hget', hmeets⟩ := h.placed.meets c p hat
  rw [hget] at hget'
  cases hget'
  rw [hopen conn hmeets] at hclosed
  cases hclosed

theorem take_usable {now : Time} {a : Address} {c : ConnId} (h : PoolInv s)
    (htake : (takeIdle now (s.pool a) s.conns).connection = some c) :
    reusable (takeIdle now (s.pool a) s.conns).conns c = true ∧
      ∃ e ∈ s.pool a, e.connection = c ∧ now < e.expiresAt := by
  obtain ⟨skipped, hconns, -, ⟨-, hnone, -⟩ | ⟨e, hp, huse, hsome⟩⟩ :=
    takeIdle_cases now (s.pool a) s.conns (h.nodup a)
  · rw [hnone] at htake
    cases htake
  · rw [hsome] at htake
    cases htake
    have hnodup := h.nodup a
    rw [hp, held, map_append, map_cons] at hnodup
    have hnot : e.connection ∉ held skipped := fun hmem =>
      (nodup_append.mp hnodup).2.2 _ hmem _ mem_cons_self rfl
    refine ⟨?_, e, ?_, rfl, huse.1⟩
    · rw [hconns, reusable, getElem?_closeAll, if_neg hnot]
      exact huse.2
    · rw [hp]
      exact mem_append_right _ mem_cons_self

theorem take_closes_skipped (h : PoolInv s) (now : Time) (a : Address) :
    ClosesSkipped (s.pool a) (takeIdle now (s.pool a) s.conns) := by
  have hnodup := h.nodup a
  obtain ⟨skipped, hconns, -, hcases⟩ := takeIdle_cases now (s.pool a) s.conns hnodup
  have hclosed : ∀ e ∈ skipped, e ∈ s.pool a →
      Closed (takeIdle now (s.pool a) s.conns).conns e.connection := by
    intro e he hin
    obtain ⟨conn, hget, -⟩ := h.placed.meets e.connection (.idle a) (mem_map_of_mem hin)
    have hheld : e.connection ∈ held skipped := mem_map_of_mem he
    exact ⟨conn.close, by rw [hconns, getElem?_closeAll, if_pos hheld, hget]; rfl, rfl⟩
  rcases hcases with ⟨hp, hnone, hnil⟩ | ⟨e', hp, -, hsome⟩
  · refine ⟨skipped, .inl ⟨hnone, hp, hnil⟩, fun e he => ⟨hclosed e he (hp ▸ he), ?_⟩⟩
    rw [hnil]
    exact not_mem_nil
  · refine ⟨skipped, .inr ⟨e', hsome, hp⟩, fun e he => ⟨hclosed e he ?_, fun hin => ?_⟩⟩
    · rw [hp]
      exact mem_append_left _ he
    · -- an address holds a connection once
      rw [hp, held, map_append, nodup_append] at hnodup
      exact hnodup.2.2 _ (mem_map_of_mem he) _ (mem_cons_of_mem _ hin) rfl

end PoolInv

/-- **The pool is safe in every state of every run**, whatever the calls, the
peers and the clock do. -/
theorem idle_pool_safe {s : State} (h : Reaches (fun _ _ _ => True) s) : PoolSafe s := by
  have inv := h.poolInv
  constructor
  case serving_once =>
    rintro t u c ⟨phase, ht⟩ ⟨phase', hu⟩
    cases inv.placed.unique c (.call t phase) (.call u phase') ht hu
    rfl
  case held_in_one =>
    intro a b c ha hb
    cases inv.placed.unique c (.idle a) (.idle b) ha hb
    rfl
  case held_once => exact inv.nodup
  case serving_not_held =>
    rintro t a c ⟨phase, ht⟩ ha
    cases inv.placed.unique c (.call t phase) (.idle a) ht ha
  case serving_not_closed =>
    rintro t c ⟨phase, ht⟩
    exact inv.not_closed (p := .call t phase) ht fun _ hm => Phase.Meets.isOpen hm
  case held_not_closed =>
    intro a c ha
    exact inv.not_closed (p := .idle a) ha fun _ hm => hm.1
  case size => exact inv.size
  case held_ready => exact fun a c ha => inv.placed.meets c (.idle a) ha
  case take_usable => exact fun now a c => inv.take_usable
  case take_closes_skipped => exact inv.take_closes_skipped

theorem reaches_one_idle :
    ∃ s, Reaches (fun _ _ _ => True) s ∧ held (s.pool (ascii "a:443")) = [0] := by
  have h₀ : Reaches (fun _ _ _ => True) State.init := .init
  have h₁ := h₀.step (.start (t := 0) (ascii "a:443") rfl) trivial
  have h₂ := h₁.step (.lookupMiss (t := 0) rfl rfl) trivial
  have h₃ := h₂.step (.takeNone (t := 0) 0 rfl rfl) trivial
  have h₄ := h₃.step (.dialConn (t := 0) rfl) trivial
  have h₅ := h₄.step (.answer (t := 0) false 3 rfl) trivial
  have h₆ := h₅.step (.closeBody (t := 0) none rfl) trivial
  have h₇ := h₆.step (.putIdleCheck (t := 0) rfl rfl) trivial
  have h₈ := h₇.step (.putIdleStore (t := 0) 0 rfl rfl rfl) trivial
  exact ⟨_, h₈, rfl⟩

theorem idle_pool_safe_one_idle :
    ∃ s, Reaches (fun _ _ _ => True) s ∧ held (s.pool (ascii "a:443")) = [0] ∧ PoolSafe s := by
  obtain ⟨s, h, hheld⟩ := reaches_one_idle
  exact ⟨s, h, hheld, idle_pool_safe h⟩

end HeadlessClient.Transport
