import HeadlessClient.Transport.PoolInvariant
import Mathlib.Logic.Relation

/-!
# Transport — who closes an HTTP/2 connection

An HTTP/2 connection stays in the table while its streams run. It leaves the
table when a look-up finds that it takes no more requests, when a second dial to
the same address is inserted over it, or when `CloseIdleConnections` takes the
whole table. Nothing else of the transport knows it, so after the first two
somebody must already have seen to its end: it is closed, or it closes itself
with its last stream. `CloseIdleConnections` closes what it took without asking
whether a stream is open.

`Http2Step` says what a step of the transport can do to HTTP/2 connections. The
invariants are proved over its eight cases.
-/

namespace HeadlessClient.Transport

open Base List

/-! ## What a connection's own goroutines do -/

namespace ClientConn

inductive Runs (cc : ClientConn) : ClientConn → Prop
  | addStream (connectionClose : Bool) (started : 0 < cc.requests) (isOpen : cc.closed = false) :
      Runs cc (cc.addStream connectionClose)
  | failRequest (started : 0 < cc.requests) : Runs cc cc.failRequest
  | forgetStream (id : Nat) (known : id ∈ cc.streams) : Runs cc (cc.forgetStream id)
  | peer {cc' : ClientConn} (does : cc.Peer cc') : Runs cc cc'

/-- The connection needs nobody: it is closed, or it is marked to close with its
last stream and still has one. -/
def SeenTo (cc : ClientConn) : Prop := cc.closed = true ∨ (cc.closeOnIdle = true ∧ cc.streams ≠ [])

variable {cc cc' : ClientConn}

theorem Runs.inFlight (h : Runs cc cc') (hidle : ¬cc.InFlight) : ¬cc'.InFlight := by
  have hrequests : cc.requests = 0 := by
    by_contra hne
    exact hidle (.inl (Nat.pos_of_ne_zero hne))
  have hstreams : cc.streams = [] := by
    by_contra hne
    exact hidle (.inr hne)
  cases h with
  | addStream _ started _ => omega
  | failRequest started => omega
  | forgetStream id known =>
    rw [hstreams] at known
    cases known
  | peer does =>
    rw [InFlight, does.requests, does.streams]
    exact hidle

theorem Peer.closeOnIdle (h : cc.Peer cc') (hmarked : cc.closeOnIdle = true) :
    cc'.closeOnIdle = true := by
  rcases (Bool.or_eq_true _ _).mp hmarked with hd | hg
  · exact (Bool.or_eq_true _ _).mpr (.inl (h.doNotReuse hd))
  · exact (Bool.or_eq_true _ _).mpr (.inr (h.goAway hg))

/-- A connection that is seen to stays so: the last stream closes it. -/
theorem Runs.seenTo (h : Runs cc cc') (hseen : cc.SeenTo) : cc'.SeenTo := by
  cases h with
  | addStream connectionClose _ isOpen =>
    rcases hseen with hclosed | ⟨hmarked, -⟩
    · exact .inl hclosed
    · refine .inr ⟨?_, cons_ne_nil _ _⟩
      simp only [ClientConn.closeOnIdle, ClientConn.addStream] at hmarked ⊢
      rcases (Bool.or_eq_true _ _).mp hmarked with hd | hg
      · simp [hd]
      · simp [hg]
  | failRequest => exact hseen
  | forgetStream id known =>
    rcases hseen with hclosed | ⟨hmarked, -⟩
    · exact .inl (by simp [ClientConn.forgetStream, hclosed])
    · by_cases hlast : cc.streams.erase id = []
      · exact .inl (by simp [ClientConn.forgetStream, hmarked, hlast])
      · exact .inr ⟨hmarked, hlast⟩
  | peer does =>
    rcases hseen with hclosed | ⟨hmarked, hstreams⟩
    · exact .inl (does.closed hclosed)
    · exact .inr ⟨does.closeOnIdle hmarked, by rwa [does.streams]⟩

end ClientConn

/-! ## What a step does to HTTP/2 connections -/

theorem modify_eq_const {conns : List ClientConn} {cc : ClientConnId} {conn : ClientConn}
    (get : conns[cc]? = some conn) (f : ClientConn → ClientConn) :
    conns.modify cc f = conns.modify cc fun _ => f conn := by
  apply ext_getElem?
  intro d
  rw [getElem?_modify_if, getElem?_modify_if]
  by_cases h : cc = d
  · subst h
    rw [if_pos rfl, if_pos rfl, get]
    rfl
  · rw [if_neg h, if_neg h]

namespace Call

/-- The connection a call has made and not inserted yet. -/
def inserting : Call → Option ClientConnId
  | .insert _ cc => some cc
  | _ => none

/-- The HTTP/2 connections a `CloseIdleConnections` has yet to close. -/
def sweptClientConns : Call → List ClientConnId
  | .sweep _ ccs => ccs
  | _ => []

/-- A call that has nothing to do with the table right now. -/
def Free (call : Call) : Prop := call.inserting = none ∧ call.sweptClientConns = []

end Call

/-- Calls have the same HTTP/2 connections in hand. -/
def SameHands (s s' : State) : Prop :=
  ∀ u, (s'.calls u).inserting = (s.calls u).inserting ∧
    (s'.calls u).sweptClientConns = (s.calls u).sweptClientConns

/-- The step of call `t`, as HTTP/2 connections see it. -/
inductive Http2Step (s : State) (t : CallId) : Event → State → Prop
  | quiet {ev s'} (conns : s'.clientConns = s.clientConns)
      (table : s'.http2Connections = s.http2Connections) (hands : SameHands s s') :
      Http2Step s t ev s'
  | runs {ev s' cc conn conn'} (get : s.clientConns[cc]? = some conn) (run : conn.Runs conn')
      (conns : s'.clientConns = s.clientConns.modify cc fun _ => conn')
      (table : s'.http2Connections = s.http2Connections) (hands : SameHands s s') :
      Http2Step s t ev s'
  | hit {ev s' a cc} (found : s.http2Connections.lookup a = some cc)
      (conns : s'.clientConns = s.clientConns.modify cc ClientConn.startRequest)
      (table : s'.http2Connections = s.http2Connections) (hands : SameHands s s') :
      Http2Step s t ev s'
  | drop {s' a} (call : s.calls t = .lookup a) (conns : s'.clientConns = s.clientConns)
      (table : s'.http2Connections = s.http2Connections.erase a) (hands : SameHands s s') :
      Http2Step s t .lookupDrop s'
  | dial {ev s' a} (call : s.calls t = .dial a)
      (conns : s'.clientConns = s.clientConns ++ [ClientConn.new])
      (table : s'.http2Connections = s.http2Connections)
      (calls : s'.calls = Function.update s.calls t (.insert a s.clientConns.length)) :
      Http2Step s t ev s'
  | insert {s' a cc} (call : s.calls t = .insert a cc)
      (conns : s'.clientConns = s.clientConns.modify cc ClientConn.startRequest)
      (table : s'.http2Connections = s.http2Connections.insert a cc)
      (calls : s'.calls = Function.update s.calls t (.clientConn a cc false)) :
      Http2Step s t .insert s'
  | swap {s' cs order} (call : s.calls t = .idle) (conns : s'.clientConns = s.clientConns)
      (table : s'.http2Connections = ∅)
      (calls : s'.calls = Function.update s.calls t (.sweep cs (s.allClientConns order))) :
      Http2Step s t .closeIdle s'
  | sweep {s' cc ccs} (call : s.calls t = .sweep [] (cc :: ccs))
      (conns : s'.clientConns = s.clientConns.modify cc ClientConn.close)
      (table : s'.http2Connections = s.http2Connections)
      (calls : s'.calls = Function.update s.calls t (.sweep [] ccs)) :
      Http2Step s t .sweepClientConn s'

section Cases

variable {s s' : State} {t : CallId}

theorem sameHands_goto {s₀ : State} {call next : Call} (hcalls : s₀.calls = s.calls)
    (hcall : s.calls t = call) (hinsert : next.inserting = call.inserting)
    (hswept : next.sweptClientConns = call.sweptClientConns) : SameHands s (s₀.goto t next) := by
  intro u
  by_cases hu : u = t
  · subst hu
    rw [State.goto_calls_self, hcall]
    exact ⟨hinsert, hswept⟩
  · rw [State.goto_calls_ne _ _ _ hu, hcalls]
    exact ⟨rfl, rfl⟩

theorem sameHands_of_afterError {s₀ : State} {a : Address} {reused : Bool} {call next : Call}
    (hcalls : s₀.calls = s.calls) (hcall : s.calls t = call) (hfree : call.Free)
    (after : AfterError a reused next) : SameHands s (s₀.goto t next) := by
  have hnext : next.inserting = none ∧ next.sweptClientConns = [] := by
    rcases after with rfl | ⟨-, rfl⟩ <;> exact ⟨rfl, rfl⟩
  exact sameHands_goto hcalls hcall (hnext.1.trans hfree.1.symm) (hnext.2.trans hfree.2.symm)

/-- **Every step is one of the eight.** -/
theorem Step.http2 {ev : Event} (h : Step s t ev s') : Http2Step s t ev s' := by
  cases h with
  | start a hcall => exact .quiet rfl rfl (sameHands_goto rfl hcall rfl rfl)
  | lookupHit hcall table get can => exact .hit table rfl rfl (sameHands_goto rfl hcall rfl rfl)
  | lookupDrop hcall table get cannot =>
    exact .drop hcall rfl rfl (sameHands_goto rfl hcall rfl rfl)
  | lookupMiss hcall table | takeNone now hcall none | takeSome now hcall some
  | answer last unread hcall | exchangeError hcall =>
    exact .quiet rfl rfl (sameHands_goto rfl hcall rfl rfl)
  | closeFailed hcall after =>
    exact .quiet rfl rfl (sameHands_of_afterError rfl hcall ⟨rfl, rfl⟩ after)
  | read n hcall | readError hcall | closeBody readErr hcall | putIdleClose hcall flag
  | putIdleCheck hcall flag | putIdleFull now hcall get full | putIdleStore now hcall get room
  | dialError hcall | dialConn hcall =>
    exact .quiet rfl rfl (sameHands_goto rfl hcall rfl rfl)
  | dialClientConn hcall => exact .dial hcall rfl rfl rfl
  | insert hcall => exact .insert hcall rfl rfl rfl
  | openStream connectionClose get started isOpen can =>
    refine .runs get (.addStream connectionClose started isOpen) ?_ rfl fun _ => ⟨rfl, rfl⟩
    exact modify_eq_const get _
  | failRequest get started =>
    refine .runs get (.failRequest started) ?_ rfl fun _ => ⟨rfl, rfl⟩
    exact modify_eq_const get _
  | forgetStream get known =>
    refine .runs get (.forgetStream _ known) ?_ rfl fun _ => ⟨rfl, rfl⟩
    exact modify_eq_const get _
  | peer get does => exact .runs get (.peer does) rfl rfl fun _ => ⟨rfl, rfl⟩
  | returned hcall after =>
    exact .quiet rfl rfl (sameHands_of_afterError rfl hcall ⟨rfl, rfl⟩ after)
  | closeIdle order order' hcall => exact .swap hcall rfl rfl rfl
  | sweepConn hcall => exact .quiet rfl rfl (sameHands_goto rfl hcall rfl rfl)
  | sweepClientConn hcall => exact .sweep hcall rfl rfl rfl
  | sweepEnd hcall => exact .quiet rfl rfl (sameHands_goto rfl hcall rfl rfl)

end Cases

/-! ## No connection is lost -/

def State.TableSeenTo (s : State) (a : Address) : Prop :=
  ∀ cc conn, s.http2Connections.lookup a = some cc → s.clientConns[cc]? = some conn → conn.SeenTo

/-- What a look-up drops from the table, and what an insertion replaces, is seen
to. -/
def DropsOnlySeenTo (s : State) (t : CallId) : Event → Prop
  | .lookupDrop => ∀ a, s.calls t = .lookup a → s.TableSeenTo a
  | .insert => ∀ a cc, s.calls t = .insert a cc → s.TableSeenTo a
  | _ => True

/-- Somebody will close the connection: the table has it, a call has it in hand,
or it is seen to. -/
def State.Accounted (s : State) (cc : ClientConnId) (conn : ClientConn) : Prop :=
  (∃ a, s.http2Connections.lookup a = some cc) ∨ (∃ t, (s.calls t).inserting = some cc) ∨
    (∃ t, cc ∈ (s.calls t).sweptClientConns) ∨ conn.SeenTo

/-- Every HTTP/2 connection is accounted for. -/
def AllAccounted (s : State) : Prop :=
  ∀ cc conn, s.clientConns[cc]? = some conn → s.Accounted cc conn

section Accounted

variable {s s' : State} {t : CallId} {cc : ClientConnId} {conn conn' : ClientConn}

theorem State.Accounted.same (h : s.Accounted cc conn)
    (table : s'.http2Connections = s.http2Connections) (hands : SameHands s s')
    (hseen : conn.SeenTo → conn'.SeenTo) : s'.Accounted cc conn' := by
  rcases h with ⟨a, ha⟩ | ⟨u, hu⟩ | ⟨u, hu⟩ | h
  · exact .inl ⟨a, by rw [table, ha]⟩
  · exact .inr (.inl ⟨u, by rw [(hands u).1, hu]⟩)
  · exact .inr (.inr (.inl ⟨u, by rw [(hands u).2]; exact hu⟩))
  · exact .inr (.inr (.inr (hseen h)))

theorem State.Accounted.hands_of_ne {next : Call} (h : s.Accounted cc conn)
    (calls : s'.calls = Function.update s.calls t next) :
    (∃ a, s.http2Connections.lookup a = some cc) ∨ (s.calls t).inserting = some cc ∨
      cc ∈ (s.calls t).sweptClientConns ∨ s'.Accounted cc conn := by
  rcases h with ha | ⟨u, hu⟩ | ⟨u, hu⟩ | h
  · exact .inl ha
  · by_cases hut : u = t
    · subst hut
      exact .inr (.inl hu)
    · refine .inr (.inr (.inr (.inr (.inl ⟨u, ?_⟩))))
      rwa [calls, Function.update_of_ne hut]
  · by_cases hut : u = t
    · subst hut
      exact .inr (.inr (.inl hu))
    · refine .inr (.inr (.inr (.inr (.inr (.inl ⟨u, ?_⟩)))))
      rwa [calls, Function.update_of_ne hut]
  · exact .inr (.inr (.inr (.inr (.inr (.inr h)))))

theorem mem_allClientConns {order : MapOrder} {a : Address}
    (h : s.http2Connections.lookup a = some cc) : cc ∈ s.allClientConns order :=
  mem_map.mpr ⟨(a, cc), GoMap.mem_range.mpr h, rfl⟩

/-- A connection after `modify`, traced back. -/
theorem getElem?_modify_some {l : List ClientConn} {d : ClientConnId} {f : ClientConn → ClientConn}
    (h : (l.modify cc f)[d]? = some conn') :
    ∃ conn, l[d]? = some conn ∧ ((cc = d ∧ conn' = f conn) ∨ (cc ≠ d ∧ conn' = conn)) := by
  rw [getElem?_modify_if] at h
  split_ifs at h with hd
  · obtain ⟨conn, hget, rfl⟩ := Option.map_eq_some_iff.mp h
    exact ⟨conn, hget, .inl ⟨hd, rfl⟩⟩
  · exact ⟨conn', h, .inr ⟨hd, rfl⟩⟩

/-- **A step that drops only connections that are seen to loses none.** -/
theorem AllAccounted.step {ev : Event} (h : AllAccounted s) (hstep : Step s t ev s')
    (hok : DropsOnlySeenTo s t ev) : AllAccounted s' := by
  intro d conn' hget'
  cases hstep.http2 with
  | quiet conns table hands =>
    rw [conns] at hget'
    exact (h d conn' hget').same table hands id
  | @runs _ _ cc conn₀ conn₁ get run conns table hands =>
    rw [conns] at hget'
    obtain ⟨conn, hget, ⟨rfl, rfl⟩ | ⟨-, rfl⟩⟩ := getElem?_modify_some hget'
    · rw [get] at hget
      cases hget
      exact (h _ _ get).same table hands run.seenTo
    · exact (h d _ hget).same table hands id
  | hit found conns table hands =>
    rw [conns] at hget'
    obtain ⟨conn, hget, ⟨-, rfl⟩ | ⟨-, rfl⟩⟩ := getElem?_modify_some hget'
    · exact (h d conn hget).same table hands id
    · exact (h d _ hget).same table hands id
  | @drop _ a call conns table hands =>
    rw [conns] at hget'
    rcases h d conn' hget' with ⟨b, hb⟩ | ⟨u, hu⟩ | ⟨u, hu⟩ | hseen
    · by_cases hba : b = a
      · -- the dropped connection itself
        subst hba
        exact .inr (.inr (.inr (hok b call d conn' hb hget')))
      · exact .inl ⟨b, by rw [table, AList.lookup_erase_ne hba, hb]⟩
    · exact .inr (.inl ⟨u, by rw [(hands u).1, hu]⟩)
    · exact .inr (.inr (.inl ⟨u, by rw [(hands u).2]; exact hu⟩))
    · exact .inr (.inr (.inr hseen))
  | @dial _ _ a call conns table calls =>
    rw [conns] at hget'
    by_cases hd : d < s.clientConns.length
    · rw [getElem?_append_left hd] at hget'
      rcases (h d conn' hget').hands_of_ne calls with ⟨b, hb⟩ | hi | hs | hacc
      · exact .inl ⟨b, by rw [table, hb]⟩
      · rw [call] at hi
        cases hi
      · rw [call] at hs
        cases hs
      · exact hacc
    · -- the new connection is in the hands of the call that made it
      have hlen : d < (s.clientConns ++ [ClientConn.new]).length :=
        (List.getElem?_eq_some_iff.mp hget').1
      rw [length_append, length_singleton] at hlen
      have hdeq : d = s.clientConns.length :=
        Nat.le_antisymm (Nat.le_of_lt_succ hlen) (Nat.le_of_not_lt hd)
      exact .inr (.inl ⟨t, by rw [calls, Function.update_self, hdeq]; rfl⟩)
  | @insert _ a cc call conns table calls =>
    rw [conns] at hget'
    obtain ⟨conn, hget, hconn⟩ := getElem?_modify_some hget'
    by_cases hd : d = cc
    · exact .inl ⟨a, by rw [table, AList.lookup_insert, hd]⟩
    · obtain rfl : conn' = conn := by
        rcases hconn with ⟨heq, -⟩ | ⟨-, rfl⟩
        · exact absurd heq.symm hd
        · rfl
      rcases (h d conn' hget).hands_of_ne calls with ⟨b, hb⟩ | hi | hs | hacc
      · by_cases hba : b = a
        · -- the connection that was there before
          subst hba
          exact .inr (.inr (.inr (hok b cc call d conn' hb hget)))
        · exact .inl ⟨b, by rw [table, AList.lookup_insert_ne hba, hb]⟩
      · rw [call] at hi
        exact absurd (Option.some.inj hi).symm hd
      · rw [call] at hs
        cases hs
      · exact hacc
  | @swap _ cs order call conns table calls =>
    rw [conns] at hget'
    rcases (h d conn' hget').hands_of_ne calls with ⟨b, hb⟩ | hi | hs | hacc
    · refine .inr (.inr (.inl ⟨t, ?_⟩))
      rw [calls, Function.update_self]
      exact mem_allClientConns hb
    · rw [call] at hi
      cases hi
    · rw [call] at hs
      cases hs
    · exact hacc
  | @sweep _ cc ccs call conns table calls =>
    rw [conns] at hget'
    obtain ⟨conn, hget, ⟨-, rfl⟩ | ⟨hne, rfl⟩⟩ := getElem?_modify_some hget'
    · exact .inr (.inr (.inr (.inl rfl)))
    · rcases (h d conn' hget).hands_of_ne calls with ⟨b, hb⟩ | hi | hs | hacc
      · exact .inl ⟨b, by rw [table, hb]⟩
      · rw [call] at hi
        cases hi
      · rw [call] at hs
        rcases mem_cons.mp hs with rfl | hs
        · exact absurd rfl hne
        · exact .inr (.inr (.inl ⟨t, by rw [calls, Function.update_self]; exact hs⟩))
      · exact hacc

end Accounted

theorem Reaches.allAccounted {s : State} (h : Reaches DropsOnlySeenTo s) : AllAccounted s := by
  induction h with
  | init => exact fun cc conn hget => (nomatch hget)
  | step _ hstep hok ih => exact ih.step hstep hok

/-- An exchange is in flight on the connection: one of its own, or the
`RoundTrip` that made it and has yet to use it. -/
def State.InFlightOn (s : State) (cc : ClientConnId) (conn : ClientConn) : Prop :=
  conn.InFlight ∨ ∃ t a, s.calls t = .insert a cc

/-- A `CloseIdleConnections` that is running will close the connection. -/
def State.BeingClosed (s : State) (cc : ClientConnId) : Prop :=
  ∃ t, cc ∈ (s.calls t).sweptClientConns

/-- No call is running and no connection carries an exchange. -/
structure Quiet (s : State) : Prop where
  calls : ∀ t, s.calls t = .idle ∨ s.calls t = .done
  conns : ∀ conn ∈ s.clientConns, ¬conn.InFlight

/-- Steps of call `t` and of the connections' goroutines. -/
def Alone (t : CallId) : State → State → Prop :=
  Relation.ReflTransGen fun s s' => ∃ ev, Step s t ev s'

section Closing

variable {s s' : State} {t : CallId}

theorem inserting_eq_some {call : Call} {cc : ClientConnId} (h : call.inserting = some cc) :
    ∃ a, call = .insert a cc := by
  cases call <;> cases h
  exact ⟨_, rfl⟩

/-- The call is a `CloseIdleConnections` past the lock. -/
def Call.Closes : Call → Prop
  | .sweep _ _ => True
  | .done => True
  | _ => False

/-- While `CloseIdleConnections` runs alone. -/
structure Closing (t : CallId) (s : State) : Prop where
  reached : Reaches DropsOnlySeenTo s
  table : s.http2Connections = ∅
  call : (s.calls t).Closes
  notInserting : ∀ u, (s.calls u).inserting = none
  notSweeping : ∀ u, u ≠ t → (s.calls u).sweptClientConns = []
  idle : ∀ (cc : ClientConnId) (conn : ClientConn), s.clientConns[cc]? = some conn → ¬conn.InFlight

theorem Step.closes {ev : Event} (hstep : Step s t ev s') (h : (s.calls t).Closes) :
    (s'.calls t).Closes := by
  cases hstep with
  | openStream | failRequest | forgetStream | peer => exact h
  | sweepConn | sweepClientConn | sweepEnd =>
    rw [State.goto_calls_self]
    trivial
  -- every other step starts where the call is not
  | start _ hcall | lookupHit hcall | lookupDrop hcall | lookupMiss hcall | takeNone _ hcall
  | takeSome _ hcall | answer _ _ hcall | exchangeError hcall | closeFailed hcall | read _ hcall
  | readError hcall | closeBody _ hcall | putIdleClose hcall | putIdleCheck hcall
  | putIdleFull _ hcall | putIdleStore _ hcall | dialError hcall | dialConn hcall
  | dialClientConn hcall | insert hcall | returned hcall | closeIdle _ _ hcall =>
    rw [hcall] at h
    exact h.elim

theorem Closing.step {ev : Event} (h : Closing t s) (hstep : Step s t ev s') : Closing t s' := by
  have hclosing := h.call
  have hok : DropsOnlySeenTo s t ev := by
    cases ev with
    | lookupDrop =>
      intro a hcall
      rw [hcall] at hclosing
      exact hclosing.elim
    | insert =>
      intro a cc hcall
      rw [hcall] at hclosing
      exact hclosing.elim
    | _ => trivial
  have hreached := h.reached.step hstep hok
  have hcloses := hstep.closes hclosing
  cases hstep.http2 with
  | quiet conns table hands =>
    exact ⟨hreached, table.trans h.table, hcloses,
      fun u => (hands u).1.trans (h.notInserting u),
      fun u hu => (hands u).2.trans (h.notSweeping u hu), by rw [conns]; exact h.idle⟩
  | runs get run conns table hands =>
    refine ⟨hreached, table.trans h.table, hcloses,
      fun u => (hands u).1.trans (h.notInserting u),
      fun u hu => (hands u).2.trans (h.notSweeping u hu), fun d conn₁ hget => ?_⟩
    rw [conns] at hget
    obtain ⟨conn₀, hget₀, ⟨rfl, rfl⟩ | ⟨-, rfl⟩⟩ := getElem?_modify_some hget
    · exact run.inFlight (h.idle _ _ get)
    · exact h.idle d _ hget₀
  | hit found conns table hands =>
    rw [h.table] at found
    cases found
  | drop call | dial call | insert call | swap call =>
    rw [call] at hclosing
    exact hclosing.elim
  | sweep call conns table calls =>
    refine ⟨hreached, table.trans h.table, hcloses, fun u => ?_, fun u hu => ?_,
      fun d conn₁ hget => ?_⟩
    · by_cases hu : u = t
      · rw [calls, hu, Function.update_self]
        rfl
      · rw [calls, Function.update_of_ne hu]
        exact h.notInserting u
    · rw [calls, Function.update_of_ne hu]
      exact h.notSweeping u hu
    · rw [conns] at hget
      obtain ⟨conn₀, hget₀, ⟨-, rfl⟩ | ⟨-, rfl⟩⟩ := getElem?_modify_some hget
      · exact h.idle d conn₀ hget₀
      · exact h.idle d _ hget₀

theorem Closing.run (h : Closing t s) (hrun : Alone t s s') : Closing t s' := by
  induction hrun with
  | refl => exact h
  | tail _ hstep ih =>
    obtain ⟨ev, hstep⟩ := hstep
    exact ih.step hstep

/-- A `CloseIdleConnections` of a quiet transport starts. -/
theorem Quiet.closing (h : Quiet s) (hreached : Reaches DropsOnlySeenTo s)
    (hstep : Step s t .closeIdle s') : Closing t s' := by
  have hreached' := hreached.step hstep trivial
  have hfree : ∀ u, (s.calls u).inserting = none ∧ (s.calls u).sweptClientConns = [] := by
    intro u
    rcases h.calls u with hu | hu <;> rw [hu] <;> exact ⟨rfl, rfl⟩
  cases hstep with
  | closeIdle order order' hcall =>
    refine ⟨hreached', rfl, ?_, fun u => ?_, fun u hu => ?_, fun cc conn hget => ?_⟩
    · rw [State.goto_calls_self]
      trivial
    · by_cases hu : u = t
      · rw [hu, State.goto_calls_self]
        rfl
      · rw [State.goto_calls_ne _ _ _ hu]
        exact (hfree u).1
    · rw [State.goto_calls_ne _ _ _ hu]
      exact (hfree u).2
    · exact h.conns conn (mem_of_getElem? hget)

theorem Closing.done (h : Closing t s) (hdone : s.calls t = .done) {cc : ClientConnId}
    {conn : ClientConn} (hget : s.clientConns[cc]? = some conn) : conn.closed = true := by
  rcases h.reached.allAccounted cc conn hget with ⟨a, ha⟩ | ⟨u, hu⟩ | ⟨u, hu⟩ | hseen
  · rw [h.table] at ha
    cases ha
  · rw [h.notInserting u] at hu
    cases hu
  · by_cases hut : u = t
    · rw [hut, hdone] at hu
      cases hu
    · rw [h.notSweeping u hut] at hu
      cases hu
  · rcases hseen with hclosed | ⟨-, hstreams⟩
    · exact hclosed
    · exact absurd (.inr hstreams) (h.idle cc conn hget)

end Closing

/-- **Ownership of HTTP/2 connections**, in every run whose look-ups and
insertions drop from the table only connections that are seen to: an open
connection is in the table, has an exchange in flight or is being closed; and a
`CloseIdleConnections` of a quiet transport leaves none open. -/
theorem http2_connections_owned {s : State} (h : Reaches DropsOnlySeenTo s) :
    (∀ (cc : ClientConnId) (conn : ClientConn), s.clientConns[cc]? = some conn →
      conn.closed = false →
        (∃ a, s.http2Connections.lookup a = some cc) ∨ s.InFlightOn cc conn ∨ s.BeingClosed cc) ∧
    (Quiet s → ∀ t s₁ s₂, Step s t .closeIdle s₁ → Alone t s₁ s₂ → s₂.calls t = .done →
      ∀ (cc : ClientConnId) (conn : ClientConn), s₂.clientConns[cc]? = some conn →
        conn.closed = true) := by
  constructor
  · intro cc conn hget hopen
    rcases h.allAccounted cc conn hget with ha | ⟨t, ht⟩ | hswept | hclosed | ⟨-, hstreams⟩
    · exact .inl ha
    · obtain ⟨a, ha⟩ := inserting_eq_some ht
      exact .inr (.inl (.inr ⟨t, a, ha⟩))
    · exact .inr (.inr hswept)
    · rw [hopen] at hclosed
      cases hclosed
    · exact .inr (.inl (.inl (.inr hstreams)))
  · intro hquiet t s₁ s₂ hstep hrun hdone cc conn hget
    exact ((hquiet.closing h hstep).run hrun).done hdone hget

/-- One call opens a connection, its exchange ends, and nothing was dropped. -/
theorem http2_connections_owned_one_call :
    ∃ s, Reaches DropsOnlySeenTo s ∧ Quiet s ∧ s.clientConns.map (·.closed) = [false] ∧
      ∀ t s₁ s₂, Step s t .closeIdle s₁ → Alone t s₁ s₂ → s₂.calls t = .done →
        ∀ (cc : ClientConnId) (conn : ClientConn), s₂.clientConns[cc]? = some conn →
          conn.closed = true := by
  have h₀ : Reaches DropsOnlySeenTo State.init := .init
  have h₁ := h₀.step (.start (t := 0) (ascii "a:443") rfl) trivial
  have h₂ := h₁.step (.lookupMiss (t := 0) rfl rfl) trivial
  have h₃ := h₂.step (.takeNone (t := 0) 0 rfl rfl) trivial
  have h₄ := h₃.step (.dialClientConn (t := 0) rfl) trivial
  have h₅ := h₄.step (.insert (t := 0) rfl) fun a cc hcall cc' conn hlookup => (nomatch hlookup)
  have h₆ := h₅.step (@Step.openStream _ 0 0 ClientConn.new.startRequest false rfl
    Nat.zero_lt_one rfl rfl) trivial
  have h₇ := h₆.step (@Step.forgetStream _ 0 0 1 (ClientConn.new.startRequest.addStream false) rfl
    mem_cons_self) trivial
  have h₈ := h₇.step (.returned (t := 0) rfl (.inl rfl)) trivial
  refine ⟨_, h₈, ?quiet, rfl, (http2_connections_owned h₈).2 ?quiet⟩
  refine ⟨fun t => ?_, by decide⟩
  by_cases ht : t = 0
  · subst ht
    exact .inr rfl
  · refine .inl ?_
    simp [State.goto, State.onClientConn, State.setTable, State.addClientConn, State.take,
      State.setPool, State.init, ht]

/-- Two calls to one address dial at the same time. The second insertion
replaces the first connection, and once both exchanges have ended nobody knows
the first one: it is open, out of the table and idle, and the next
`CloseIdleConnections` closes only the second. -/
theorem http2_connection_lost_by_two_dials :
    ∃ s s₁ s₂, Reaches (fun _ _ _ => True) s ∧ Step s 2 .closeIdle s₁ ∧
      Step s₁ 2 .sweepClientConn s₂ ∧ Reaches (fun _ _ _ => True) s₂ ∧
      (s.calls 0 = .done ∧ s.calls 1 = .done) ∧ (∀ conn ∈ s.clientConns, ¬conn.InFlight) ∧
      s.clientConns.map (·.closed) = [false, false] ∧
      s.http2Connections.lookup (ascii "a:443") = some 1 ∧ s.http2Connections.keys.length = 1 ∧
      s₂.calls 2 = .sweep [] [] ∧ s₂.clientConns.map (·.closed) = [false, true] := by
  have h₀ : Reaches (fun _ _ _ => True) State.init := .init
  have h₁ := h₀.step (.start (t := 0) (ascii "a:443") rfl) trivial
  have h₂ := h₁.step (.lookupMiss (t := 0) rfl rfl) trivial
  have h₃ := h₂.step (.takeNone (t := 0) 0 rfl rfl) trivial
  have h₄ := h₃.step (.start (t := 1) (ascii "a:443") rfl) trivial
  have h₅ := h₄.step (.lookupMiss (t := 1) rfl rfl) trivial
  have h₆ := h₅.step (.takeNone (t := 1) 0 rfl rfl) trivial
  -- both look-ups have missed: both dial, and both insert
  have h₇ := h₆.step (.dialClientConn (t := 0) rfl) trivial
  have h₈ := h₇.step (.dialClientConn (t := 1) rfl) trivial
  have h₉ := h₈.step (.insert (t := 0) rfl) trivial
  have h₁₀ := h₉.step (.insert (t := 1) rfl) trivial
  have h₁₁ := h₁₀.step (@Step.openStream _ 0 0 ClientConn.new.startRequest false rfl
    Nat.zero_lt_one rfl rfl) trivial
  have h₁₂ := h₁₁.step (@Step.openStream _ 1 1 ClientConn.new.startRequest false rfl
    Nat.zero_lt_one rfl rfl) trivial
  have h₁₃ := h₁₂.step (@Step.forgetStream _ 0 0 1 (ClientConn.new.startRequest.addStream false)
    rfl mem_cons_self) trivial
  have h₁₄ := h₁₃.step (@Step.forgetStream _ 1 1 1 (ClientConn.new.startRequest.addStream false)
    rfl mem_cons_self) trivial
  have h₁₅ := h₁₄.step (.returned (t := 0) rfl (.inl rfl)) trivial
  have h₁₆ := h₁₅.step (.returned (t := 1) rfl (.inl rfl)) trivial
  have h₁₇ := h₁₆.step (.closeIdle (t := 2) .stored .stored rfl) trivial
  have h₁₈ := h₁₇.step (@Step.sweepClientConn _ 2 1 [] rfl) trivial
  exact ⟨_, _, _, h₁₆, .closeIdle (t := 2) .stored .stored rfl, @Step.sweepClientConn _ 2 1 [] rfl,
    h₁₈, ⟨rfl, rfl⟩, by decide, rfl, rfl, rfl, rfl, rfl⟩

/-! ## What `CloseIdleConnections` closes -/

/-- Where an HTTP/2 connection can be found. -/
inductive TablePlace where
  | inserting (t : CallId)
  | table (address : Address)
  | swept (t : CallId)
deriving DecidableEq, Repr

/-- Connection `cc` is at the place. -/
def State.FoundAt (s : State) (cc : ClientConnId) : TablePlace → Prop
  | .inserting t => (s.calls t).inserting = some cc
  | .table a => s.http2Connections.lookup a = some cc
  | .swept t => cc ∈ (s.calls t).sweptClientConns

/-- What `CloseIdleConnections` has taken carries no exchange. -/
def TablePlace.Meets : TablePlace → ClientConn → Prop
  | .swept _, conn => ¬conn.InFlight
  | _, _ => True

/-- The connections of the table carry no exchange when `CloseIdleConnections`
takes them. -/
def TakesOnlyIdle (s : State) (_ : CallId) : Event → Prop
  | .closeIdle => ∀ a cc conn, s.http2Connections.lookup a = some cc →
      s.clientConns[cc]? = some conn → ¬conn.InFlight
  | _ => True

/-- Every HTTP/2 connection is in one place. -/
abbrev TableInv (s : State) : Prop :=
  Placed s.FoundAt (fun cc => s.clientConns[cc]?) TablePlace.Meets

namespace TableInv

variable {s s' : State} {t : CallId}

theorem init : TableInv State.init where
  unique c p q hp := by cases p <;> cases hp
  meets c p hp := by cases p <;> cases hp

theorem foundAt_of_same {cc : ClientConnId} {p : TablePlace}
    (table : s'.http2Connections = s.http2Connections) (hands : SameHands s s')
    (h : s'.FoundAt cc p) : s.FoundAt cc p := by
  cases p with
  | inserting u => rwa [State.FoundAt, (hands u).1] at h
  | table a => rwa [State.FoundAt, table] at h
  | swept u => rwa [State.FoundAt, (hands u).2] at h

theorem modify {cc : ClientConnId} {f : ClientConn → ClientConn} (h : TableInv s)
    (hf : ∀ conn p, s.clientConns[cc]? = some conn → s.FoundAt cc p → p.Meets conn →
      p.Meets (f conn)) (conns : s'.clientConns = s.clientConns.modify cc f)
    (hfound : ∀ d p, s'.FoundAt d p → s.FoundAt d p) : TableInv s' := by
  refine h.relocate (fun _ p => p) fun d p hp => ⟨p, hfound d p hp, rfl, fun conn hget hm => ?_⟩
  show ∃ r', s'.clientConns[d]? = some r' ∧ _
  rw [conns, getElem?_modify_if]
  by_cases hd : cc = d
  · subst hd
    rw [if_pos rfl, hget]
    exact ⟨_, rfl, hf conn p hget (hfound _ p hp) hm⟩
  · rw [if_neg hd]
    exact ⟨conn, hget, hm⟩

/-- After call `t` moved on: in its hands, in the table, or where it was. -/
theorem foundAt_of_update {next : Call} {d : ClientConnId} {p : TablePlace}
    (calls : s'.calls = Function.update s.calls t next) (h : s'.FoundAt d p) :
    (p = .inserting t ∧ next.inserting = some d) ∨ (p = .swept t ∧ d ∈ next.sweptClientConns) ∨
      (∃ a, p = .table a ∧ s'.http2Connections.lookup a = some d) ∨
      (s.FoundAt d p ∧ p ≠ .inserting t ∧ ∀ a, p ≠ .table a) := by
  cases p with
  | table a => exact .inr (.inr (.inl ⟨a, rfl, h⟩))
  | inserting u =>
    rw [State.FoundAt, calls] at h
    by_cases hu : u = t
    · subst hu
      rw [Function.update_self] at h
      exact .inl ⟨rfl, h⟩
    · rw [Function.update_of_ne hu] at h
      exact .inr (.inr (.inr ⟨h, fun heq => hu (by cases heq; rfl), nofun⟩))
  | swept u =>
    rw [State.FoundAt, calls] at h
    by_cases hu : u = t
    · subst hu
      rw [Function.update_self] at h
      exact .inr (.inl ⟨rfl, h⟩)
    · rw [Function.update_of_ne hu] at h
      exact .inr (.inr (.inr ⟨h, nofun, nofun⟩))

/-- `NewClientConn`. -/
theorem dial {a : Address} (h : TableInv s)
    (conns : s'.clientConns = s.clientConns ++ [ClientConn.new])
    (table : s'.http2Connections = s.http2Connections)
    (calls : s'.calls = Function.update s.calls t (.insert a s.clientConns.length)) :
    TableInv s' := by
  have hold : ∀ d p, s.FoundAt d p → s'.clientConns[d]? = s.clientConns[d]? := by
    intro d p hp
    obtain ⟨conn, hget, -⟩ := h.meets d p hp
    rw [conns, List.getElem?_append_left (List.getElem?_eq_some_iff.mp hget).1]
  refine h.create s.clientConns.length (.inserting t) ClientConn.new
    (getElem?_eq_none (Nat.le_refl _)) (by simp [conns]) trivial fun d p hp => ?_
  rcases foundAt_of_update calls hp with ⟨rfl, hd⟩ | ⟨-, hd⟩ | ⟨b, rfl, hb⟩ | ⟨hat, -, -⟩
  · exact .inr ⟨(Option.some.inj hd).symm, rfl⟩
  · cases hd
  · rw [table] at hb
    exact .inl ⟨hb, hold d (.table b) hb⟩
  · exact .inl ⟨hat, hold d p hat⟩

theorem insert {a : Address} {cc : ClientConnId} (h : TableInv s) (call : s.calls t = .insert a cc)
    (conns : s'.clientConns = s.clientConns.modify cc ClientConn.startRequest)
    (table : s'.http2Connections = s.http2Connections.insert a cc)
    (calls : s'.calls = Function.update s.calls t (.clientConn a cc false)) : TableInv s' := by
  have hown : s.FoundAt cc (.inserting t) := by
    rw [State.FoundAt, call]
    rfl
  -- a place that asks for nothing takes the changed connection too
  have hany : ∀ (d : ClientConnId) (conn : ClientConn), s.clientConns[d]? = some conn →
      ∃ conn', s'.clientConns[d]? = some conn' := by
    intro d conn hget
    rw [conns, getElem?_modify_if, hget]
    by_cases hd : cc = d
    · exact ⟨_, if_pos hd⟩
    · exact ⟨_, if_neg hd⟩
  refine h.relocate (fun _ p => if p = .inserting t then .table a else p) fun d p hp => ?_
  rcases foundAt_of_update calls hp with ⟨-, hd⟩ | ⟨-, hd⟩ | ⟨b, rfl, hb⟩ | ⟨hat, hne, -⟩
  · cases hd
  · cases hd
  · rw [table] at hb
    by_cases hba : b = a
    · subst hba
      rw [AList.lookup_insert] at hb
      cases hb
      exact ⟨_, hown, by rw [if_pos rfl], fun conn hget _ =>
        (hany cc conn hget).imp fun _ hget' => ⟨hget', trivial⟩⟩
    · rw [AList.lookup_insert_ne hba] at hb
      exact ⟨.table b, hb, rfl, fun conn hget _ =>
        (hany d conn hget).imp fun _ hget' => ⟨hget', trivial⟩⟩
  · refine ⟨p, hat, by rw [if_neg hne], fun conn hget hm => ⟨conn, ?_, hm⟩⟩
    have hd : cc ≠ d := by
      rintro rfl
      exact hne (h.unique cc p _ hat hown)
    rw [conns, getElem?_modify_if, if_neg hd]
    exact hget

/-- `CloseIdleConnections` takes the table. -/
theorem swap {cs : List ConnId} {order : MapOrder} (h : TableInv s)
    (conns : s'.clientConns = s.clientConns) (table : s'.http2Connections = ∅)
    (calls : s'.calls = Function.update s.calls t (.sweep cs (s.allClientConns order)))
    (hidle : ∀ a cc conn, s.http2Connections.lookup a = some cc → s.clientConns[cc]? = some conn →
      ¬conn.InFlight) : TableInv s' := by
  refine h.relocate (fun _ p => match p with | .table _ => .swept t | p => p) fun d p hp => ?_
  rcases foundAt_of_update calls hp with ⟨-, hd⟩ | ⟨rfl, hd⟩ | ⟨b, rfl, hb⟩ | ⟨hat, -, hnot⟩
  · cases hd
  · obtain ⟨⟨a, cc⟩, hmem, rfl⟩ := mem_map.mp hd
    have ha := GoMap.mem_range.mp hmem
    exact ⟨.table a, ha, rfl,
      fun conn hget _ => ⟨conn, by rw [conns, hget], hidle a cc conn ha hget⟩⟩
  · rw [table] at hb
    cases hb
  · refine ⟨p, hat, ?_, fun conn hget hm => ⟨conn, by rw [conns, hget], hm⟩⟩
    cases p with
    | table a => exact absurd rfl (hnot a)
    | inserting u => rfl
    | swept u => rfl

/-- **Every step keeps the places**, if `CloseIdleConnections` finds the table idle. -/
theorem step {ev : Event} (h : TableInv s) (hstep : Step s t ev s') (hok : TakesOnlyIdle s t ev) :
    TableInv s' := by
  cases hstep.http2 with
  | quiet conns table hands =>
    exact h.frame fun d p hp => ⟨foundAt_of_same table hands hp, by rw [conns]⟩
  | runs get run conns table hands =>
    refine h.modify (fun conn p hget _ hm => ?_) conns fun d p => foundAt_of_same table hands
    rw [get] at hget
    cases hget
    cases p with
    | swept u => exact run.inFlight hm
    | table a => trivial
    | inserting u => trivial
  | @hit _ _ a cc found conns table hands =>
    refine h.modify (fun conn p hget hp hm => ?_) conns fun d p => foundAt_of_same table hands
    -- a connection of the table has not been taken
    rw [h.unique cc p (.table a) hp found]
    trivial
  | @drop _ a call conns table hands =>
    refine h.frame fun d p hp => ⟨?_, by rw [conns]⟩
    cases p with
    | inserting u => rwa [State.FoundAt, (hands u).1] at hp
    | swept u => rwa [State.FoundAt, (hands u).2] at hp
    | table b =>
      rw [State.FoundAt, table] at hp
      by_cases hba : b = a
      · rw [hba, AList.lookup_erase] at hp
        cases hp
      · rwa [AList.lookup_erase_ne hba] at hp
  | dial call conns table calls => exact h.dial conns table calls
  | insert call conns table calls => exact h.insert call conns table calls
  | swap call conns table calls => exact h.swap conns table calls hok
  | @sweep _ cc ccs call conns table calls =>
    refine h.modify (fun conn p hget hp hm => ?_) conns fun d p hp => ?_
    · cases p with
      | swept u => exact hm
      | table a => trivial
      | inserting u => trivial
    · rcases foundAt_of_update calls hp with ⟨-, hd⟩ | ⟨rfl, hd⟩ | ⟨b, rfl, hb⟩ | ⟨hat, -, -⟩
      · cases hd
      · rw [State.FoundAt, call]
        exact mem_cons_of_mem _ hd
      · rwa [table] at hb
      · exact hat

end TableInv

theorem Reaches.tableInv {s : State} (h : Reaches TakesOnlyIdle s) : TableInv s := by
  induction h with
  | init => exact TableInv.init
  | step _ hstep hok ih => exact ih.step hstep hok

/-- **`CloseIdleConnections` closes only idle connections**, in every run in
which no connection of the table carries an exchange when it takes them: what
one of its steps closes, of either protocol, carries no unfinished exchange. -/
theorem closeIdleConnections_closes_only_idle {s s' : State} {t : CallId} {ev : Event}
    (h : Reaches TakesOnlyIdle s) (hstep : Step s t ev s')
    (hev : ev = .sweepConn ∨ ev = .sweepClientConn) :
    (∀ c, ¬Closed s.conns c → Closed s'.conns c → ∀ u, ¬s.Serving u c) ∧
    (∀ (cc : ClientConnId) (conn conn' : ClientConn), s.clientConns[cc]? = some conn →
      conn.closed = false → s'.clientConns[cc]? = some conn' → conn'.closed = true →
        ¬s.InFlightOn cc conn) := by
  rcases hev with rfl | rfl
  · cases hstep with
    | @sweepConn c₀ cs ccs hcall =>
      constructor
      · rintro c hopen ⟨conn', hget', hclosed⟩ u ⟨phase, hserving⟩
        have hswept : s.At c₀ (.swept t) := by
          rw [State.At, hcall]
          exact mem_cons_self
        by_cases hc : c₀ = c
        · subst hc
          cases h.poolInv.placed.unique c₀ (.call u phase) _ hserving hswept
        · rw [State.goto_conns, State.onConn, getElem?_modify_if, if_neg hc] at hget'
          exact hopen ⟨conn', hget', hclosed⟩
      · intro cc conn conn' hget hopen hget' hclosed
        rw [State.goto_clientConns, State.onConn, hget] at hget'
        cases hget'
        rw [hopen] at hclosed
        cases hclosed
  · cases hstep with
    | @sweepClientConn cc₀ ccs hcall =>
      constructor
      · exact fun c hopen hclosed => absurd hclosed hopen
      · intro cc conn conn' hget hopen hget' hclosed
        have hswept : s.FoundAt cc₀ (.swept t) := by
          rw [State.FoundAt, hcall]
          exact mem_cons_self
        by_cases hc : cc₀ = cc
        · subst hc
          rintro (hflight | ⟨u, a, hu⟩)
          · obtain ⟨conn₀, hget₀, hidle⟩ := h.tableInv.meets cc₀ _ hswept
            rw [hget] at hget₀
            cases hget₀
            exact hidle hflight
          · have hins : s.FoundAt cc₀ (.inserting u) := by
              rw [State.FoundAt, hu]
              rfl
            cases h.tableInv.unique cc₀ _ _ hswept hins
        · rw [State.goto_clientConns, State.onClientConn, getElem?_modify_if, if_neg hc, hget]
            at hget'
          cases hget'
          rw [hopen] at hclosed
          cases hclosed

/-- An HTTP/2 exchange ends before `CloseIdleConnections` runs. -/
theorem closeIdleConnections_closes_only_idle_after_exchange :
    ∃ s s', Reaches TakesOnlyIdle s ∧ Step s 1 .sweepClientConn s' ∧
      s.clientConns.map (·.closed) = [false] ∧ s'.clientConns.map (·.closed) = [true] ∧
      ∀ (cc : ClientConnId) (conn conn' : ClientConn), s.clientConns[cc]? = some conn →
        conn.closed = false → s'.clientConns[cc]? = some conn' → conn'.closed = true →
          ¬s.InFlightOn cc conn := by
  have h₀ : Reaches TakesOnlyIdle State.init := .init
  have h₁ := h₀.step (.start (t := 0) (ascii "a:443") rfl) trivial
  have h₂ := h₁.step (.lookupMiss (t := 0) rfl rfl) trivial
  have h₃ := h₂.step (.takeNone (t := 0) 0 rfl rfl) trivial
  have h₄ := h₃.step (.dialClientConn (t := 0) rfl) trivial
  have h₅ := h₄.step (.insert (t := 0) rfl) trivial
  have h₆ := h₅.step (@Step.openStream _ 0 0 ClientConn.new.startRequest false rfl
    Nat.zero_lt_one rfl rfl) trivial
  have h₇ := h₆.step (@Step.forgetStream _ 0 0 1 (ClientConn.new.startRequest.addStream false) rfl
    mem_cons_self) trivial
  have h₈ := h₇.step (.closeIdle (t := 1) .stored .stored rfl) ?idle
  · refine ⟨_, _, h₈, @Step.sweepClientConn _ 1 0 [] rfl, rfl, rfl, ?_⟩
    exact (closeIdleConnections_closes_only_idle h₈ (@Step.sweepClientConn _ 1 0 [] rfl)
      (.inr rfl)).2
  · intro a cc conn _ hget
    have hall : ∀ conn ∈ [(ClientConn.new.startRequest.addStream false).forgetStream 1],
        ¬conn.InFlight := by decide
    exact hall conn (mem_of_getElem? hget)

/-- `CloseIdleConnections` while an HTTP/2 stream is open: the connection is
closed under it. -/
theorem closeIdleConnections_closes_open_stream :
    ∃ s s', Reaches (fun _ _ _ => True) s ∧ Step s 1 .sweepClientConn s' ∧
      s.clientConns.map (fun conn => (conn.closed, conn.streams)) = [(false, [1])] ∧
      s.calls 0 = .clientConn (ascii "a:443") 0 false ∧
      s'.clientConns.map (fun conn => (conn.closed, conn.streams)) = [(true, [1])] := by
  have h₀ : Reaches (fun _ _ _ => True) State.init := .init
  have h₁ := h₀.step (.start (t := 0) (ascii "a:443") rfl) trivial
  have h₂ := h₁.step (.lookupMiss (t := 0) rfl rfl) trivial
  have h₃ := h₂.step (.takeNone (t := 0) 0 rfl rfl) trivial
  have h₄ := h₃.step (.dialClientConn (t := 0) rfl) trivial
  have h₅ := h₄.step (.insert (t := 0) rfl) trivial
  have h₆ := h₅.step (@Step.openStream _ 0 0 ClientConn.new.startRequest false rfl
    Nat.zero_lt_one rfl rfl) trivial
  have h₇ := h₆.step (.closeIdle (t := 1) .stored .stored rfl) trivial
  exact ⟨_, _, h₇, @Step.sweepClientConn _ 1 0 [] rfl, rfl, rfl, rfl⟩

end HeadlessClient.Transport
