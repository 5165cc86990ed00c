import HeadlessClient.Transport.RoundTripFrame

/-!
# Transport — which bodies `RoundTrip` closes

`http.RoundTripper` asks that the request's body be closed, also on errors. A
body is closed by whoever takes it over: an HTTP/2 connection, or `WriteRequest`
once the header block is written. `send_bodies_of_object` follows the caller's
body and the copy of a replay through every path; a body that no attempt takes
over stays OPEN.
-/

namespace HeadlessClient.Transport

open Base Http1

/-- Every body the call has got hold of is closed. -/
def Heap.AllClosed (h : Heap) : Prop := ∀ cell ∈ h.bodies, cell.closed = true

instance (h : Heap) : Decidable h.AllClosed :=
  inferInstanceAs (Decidable (∀ cell ∈ h.bodies, cell.closed = true))

/-- A new connection takes the request's body over: HTTP/2 does, and HTTP/1.1
once the header block is written. -/
def Dialed.takes (dialed : Dialed) (request : Http1.Request) : Bool :=
  match dialed with
  | .dialError | .handshakeError | .newClientConnError => false
  | .clientConn _ => true
  | .conn link => link.takes request

/-- An idle connection takes the body over. -/
def Idle.takes (idle : Idle) (request : Http1.Request) : Bool :=
  match idle with
  | .none => false
  | .clientConn _ => true
  | .conn link => link.takes request

/-- What the attempt on an idle connection returns; the outer `none` is that
there is no such connection, the inner one an error. -/
def Idle.attempt (idle : Idle) (request : Http1.Request) : Option (Option Response) :=
  match idle with
  | .none => Option.none
  | .clientConn result => some result
  | .conn link => some (link.response request)

def Heap.bodiesAfter (h : Heap) (p : RequestRef) (taken : Bool) : List BodyCell :=
  if taken then (h.closeBody p).bodies else h.bodies

section Bodies

variable {h : Heap} {p : RequestRef}

theorem bodies_closeBody {h' : Heap} (hrequest : h'.request p = h.request p)
    (hbodies : h'.bodies = h.bodies) : (h'.closeBody p).bodies = (h.closeBody p).bodies := by
  unfold Heap.closeBody
  rw [hrequest]
  cases (h.request p).body <;> simp [hbodies]

theorem bodies_afterExchange (taken : Bool) :
    (h.afterExchange p taken).bodies = h.bodiesAfter p taken := by
  unfold Heap.afterExchange Heap.bodiesAfter
  cases taken with
  | false => rfl
  | true => exact bodies_closeBody rfl rfl

theorem roundTripOnNew_bodies (dialed : Dialed) {res : Heap × Option Response}
    (hres : roundTripOnNew dialed p h = .ok res) :
    res.1.bodies = h.bodiesAfter p (dialed.takes (h.view p)) := by
  cases dialed with
  | dialError | handshakeError | newClientConnError | clientConn result => cases hres; rfl
  | conn link =>
    rw [roundTripOnNew, link.roundTrip_eq] at hres
    cases hres
    exact bodies_afterExchange _

theorem requests_closeBody : (h.closeBody p).requests = h.requests := by
  unfold Heap.closeBody
  split <;> rfl

theorem requests_afterExchange (taken : Bool) :
    (h.afterExchange p taken).requests = h.requests := by
  cases taken with
  | false => rfl
  | true => exact requests_closeBody

theorem roundTripOnIdle_spec (idle : Idle) (p : RequestRef) (h : Heap) :
    ∃ h', roundTripOnIdle idle p h = .ok (h', idle.attempt (h.view p)) ∧
      h'.bodies = h.bodiesAfter p (idle.takes (h.view p)) ∧ h'.requests = h.requests ∧
      Extends h h' := by
  cases idle with
  | none => exact ⟨h, rfl, rfl, rfl, .refl h⟩
  | clientConn result => exact ⟨_, rfl, rfl, requests_closeBody, .closeBody h p⟩
  | conn link =>
    exact ⟨_, roundTripOnIdle_conn link p h, bodies_afterExchange _, requests_afterExchange _,
      .afterExchange h p _⟩

end Bodies

def CallerRequest.hasBody (r : CallerRequest) : Bool :=
  match r.body with
  | .object _ => true
  | _ => false

/-- A replay of the request has a body of its own to close. -/
def CallerRequest.hasCopy (r : CallerRequest) : Bool :=
  r.hasBody && match r.getBody with
    | .returns (.object _) => true
    | _ => false

/-- **When every body is taken over**: the caller's by the idle connection or, if
there is none, by the new one, and the copy of a replay by the new one. -/
def Env.TakesBodies (env : Env) (address : Address) (r : CallerRequest) : Prop :=
  let request := r.heap.view 0
  let idle := env.idle address
  (r.hasBody → if (idle.attempt request).isSome then idle.takes request
    else (env.dial address).takes request) ∧
  (r.hasCopy → idle.attempt request = some none → (env.dial address).takes request)

theorem Dialed.takes_congr (dialed : Dialed) {request request' : Http1.Request}
    (h : { request with body := none } = { request' with body := none }) :
    dialed.takes request = dialed.takes request' := by
  cases dialed with
  | conn link =>
    have hhead := congrArg link.takes h
    exact hhead
  | _ => rfl

theorem view_clone (h : Heap) (p : RequestRef) (body : BodyRef) :
    ({ ((h.clone p).1.setBody (h.clone p).2 body).view (h.clone p).2 with body := none }
      : Http1.Request) = { h.view p with body := none } := by
  have hclone := h.setBody_clone p body
  rw [Prod.mk.injEq] at hclone
  rw [hclone.1, hclone.2]
  unfold Heap.view Heap.headerOf Heap.header Heap.newHeader
  cases (h.request p).header.bind fun m => h.headers[m]? with
  | none => simp [Heap.request]
  | some header => simp [Heap.request]

theorem Extends.view {h : Heap} {r : CallerRequest} (hext : Extends r.heap h) :
    ({ h.view 0 with body := none } : Http1.Request) = { r.heap.view 0 with body := none } := by
  obtain ⟨hcell, hheader⟩ := hext.caller
  unfold Heap.view Heap.headerOf
  rw [hheader, heap_header, hcell]

theorem replay_body (h : Heap) (p : RequestRef) (body : BodyRef) :
    (((h.clone p).1.setBody (h.clone p).2 body).request (h.clone p).2).body = body ∧
      ((h.clone p).1.setBody (h.clone p).2 body).bodies = h.bodies := by
  have hclone := h.setBody_clone p body
  rw [Prod.mk.injEq] at hclone
  rw [hclone.1, hclone.2]
  simp [Heap.request]

section Send

variable {env : Env} {r : CallerRequest} {url : URL} {res : Heap × Option Response}

theorem bodiesAfter_object {h : Heap} {p : RequestRef} (before : List BodyCell)
    {after : List BodyCell} {body : Body} {closed : Bool}
    (hbody : (h.request p).body = .object before.length)
    (hbodies : h.bodies = before ++ ⟨body, closed⟩ :: after) (taken : Bool) :
    h.bodiesAfter p taken = before ++ ⟨body, closed || taken⟩ :: after := by
  unfold Heap.bodiesAfter Heap.closeBody
  rw [hbody]
  cases taken with
  | false => simp [hbodies]
  | true =>
    have hmodify : ∀ before : List BodyCell,
        (before ++ ⟨body, closed⟩ :: after).modify before.length ({ · with closed := true })
          = before ++ ⟨body, true⟩ :: after := by
      intro before
      induction before with
      | nil => rfl
      | cons cell before ih => simp [ih]
    simp [hbodies, hmodify]

theorem bodiesAfter_none {h : Heap} {p : RequestRef}
    (hbody : ∀ id, (h.request p).body ≠ .object id) (taken : Bool) :
    h.bodiesAfter p taken = h.bodies := by
  unfold Heap.bodiesAfter Heap.closeBody
  cases href : (h.request p).body with
  | object id => exact absurd href (hbody id)
  | _ => simp

/-- A call whose request has no body object never holds one. -/
theorem send_bodies_of_none (hnone : r.hasBody = false) (hurl : r.url = some url)
    (hsend : send env 0 r.heap = .ok res) : res.1.bodies = [] := by
  have hcell : (r.heap.request 0).url = some url := hurl
  obtain ⟨h₁, hidle, hbodies, hrequests, -⟩ :=
    roundTripOnIdle_spec (env.idle (URL.address url)) 0 r.heap
  have hstart : r.heap.bodies = [] ∧
      ((r.heap.request 0).body = .nil ∨ (r.heap.request 0).body = .noBody) := by
    unfold CallerRequest.hasBody at hnone
    unfold CallerRequest.heap
    cases hbody : r.body with
    | nil => exact ⟨rfl, .inl rfl⟩
    | noBody => exact ⟨rfl, .inr rfl⟩
    | object body => rw [hbody] at hnone; cases hnone
  have hrequest : h₁.request 0 = r.heap.request 0 := by rw [Heap.request, hrequests]; rfl
  have hbody : ∀ id, (r.heap.request 0).body ≠ .object id := by
    intro id
    rcases hstart.2 with h | h <;> rw [h] <;> simp
  rw [bodiesAfter_none hbody, hstart.1] at hbodies
  have hnew : ∀ res, roundTripOnNew (env.dial (URL.address url)) 0 h₁ = .ok res →
      res.1.bodies = [] := by
    intro res hres
    rw [roundTripOnNew_bodies _ hres, bodiesAfter_none (by rwa [hrequest]), hbodies]
  have hreplay : replayableRequest 0 h₁ = (h₁, some 0) := by
    unfold replayableRequest
    rcases hstart.2 with h | h <;> rw [hrequest, h]
  obtain ⟨attempt, hattempt⟩ :
    ∃ attempt, (env.idle (URL.address url)).attempt (r.heap.view 0) = attempt := ⟨_, rfl⟩
  simp only [send, hcell, hidle, ok_bind, hattempt] at hsend
  rcases attempt with _ | _ | response
  · exact hnew _ hsend
  · simp only [hreplay] at hsend
    exact hnew _ hsend
  · cases hsend
    exact hbodies

/-- The caller's body and its copy, given the attempt on the idle connection and
which of the connections takes a body over. -/
def finalBodies (attempt : Option (Option Response)) (getBody : GetBody) (body : Body)
    (byIdle byNew : Bool) : List BodyCell :=
  match attempt, getBody with
  | none, _ => [⟨body, byNew⟩]
  | some none, .returns (.object copy) => [⟨body, byIdle⟩, ⟨copy, byNew⟩]
  | some _, _ => [⟨body, byIdle⟩]

/-- A call whose request has a body: what becomes of it and of its copy. -/
theorem send_bodies_of_object {body : Body} (hobject : r.body = .object body)
    (hurl : r.url = some url) (hsend : send env 0 r.heap = .ok res) :
    let request := r.heap.view 0
    let idle := env.idle (URL.address url)
    let new := (env.dial (URL.address url)).takes request
    res.1.bodies =
      finalBodies (idle.attempt request) r.getBody body (idle.takes request) new := by
  have hcell : (r.heap.request 0).url = some url := hurl
  obtain ⟨h₁, hidle, hbodies, hrequests, hext⟩ :=
    roundTripOnIdle_spec (env.idle (URL.address url)) 0 r.heap
  have hstart : r.heap.bodies = [⟨body, false⟩] ∧ (r.heap.request 0).body = .object 0 ∧
      (r.heap.request 0).getBody = r.getBody := by
    unfold CallerRequest.heap
    rw [hobject]
    exact ⟨rfl, rfl, rfl⟩
  have hrequest : h₁.request 0 = r.heap.request 0 := by rw [Heap.request, hrequests]; rfl
  obtain ⟨taken, htaken⟩ :
    ∃ taken, (env.idle (URL.address url)).takes (r.heap.view 0) = taken := ⟨_, rfl⟩
  have hfirst : h₁.bodies = [⟨body, taken⟩] := by
    rw [hbodies, htaken, bodiesAfter_object [] hstart.2.1 hstart.1 taken]
    rfl
  have hview := (env.dial (URL.address url)).takes_congr hext.view
  obtain ⟨attempt, hattempt⟩ :
    ∃ attempt, (env.idle (URL.address url)).attempt (r.heap.view 0) = attempt := ⟨_, rfl⟩
  simp only [send, hcell, hidle, ok_bind, hattempt, htaken] at hsend ⊢
  rcases attempt with _ | _ | response
  · have huntaken : taken = false := by
      cases hnone : env.idle (URL.address url) with
      | none => rw [← htaken, hnone]; rfl
      | _ => rw [hnone] at hattempt; cases hattempt
    have hbody : (h₁.request 0).body = .object 0 := by rw [hrequest]; exact hstart.2.1
    rw [roundTripOnNew_bodies _ hsend, hview, bodiesAfter_object [] hbody hfirst, huntaken]
    rfl
  · have hreplay : ∀ new, r.getBody = .returns new → replayableRequest 0 h₁ =
        (((h₁.newBody new).1.clone 0).1.setBody ((h₁.newBody new).1.clone 0).2
          (h₁.newBody new).2, some ((h₁.newBody new).1.clone 0).2) := by
      intro new hnew
      simp only [replayableRequest, hrequest, hstart.2.1, hstart.2.2, hnew]
    cases hget : r.getBody with
    | nil | fails =>
      simp only [replayableRequest, hrequest, hstart.2.1, hstart.2.2, hget] at hsend
      cases hsend
      exact hfirst
    | returns new =>
      simp only [hreplay new hget] at hsend
      have htakes := (env.dial (URL.address url)).takes_congr
        ((view_clone (h₁.newBody new).1 0 (h₁.newBody new).2).trans
          (hext.trans (.newBody h₁ new)).view)
      rw [roundTripOnNew_bodies _ hsend, htakes]
      obtain ⟨hbody, hsame⟩ := replay_body (h₁.newBody new).1 0 (h₁.newBody new).2
      cases new with
      | nil | noBody =>
        rw [bodiesAfter_none (by rw [hbody]; simp [Heap.newBody]), hsame]
        exact hfirst
      | object copy =>
        have hcopies : (h₁.newBody (.object copy)).1.bodies
            = [⟨body, taken⟩] ++ ⟨copy, false⟩ :: [] := by
          rw [Heap.newBody, hfirst]
        have href : (h₁.newBody (.object copy)).2 = .object 1 := by
          rw [Heap.newBody, hfirst]
          rfl
        rw [bodiesAfter_object [⟨body, taken⟩] (by rw [hbody]; exact href) (hsame.trans hcopies)]
        rfl
  · cases hsend
    exact hfirst

/-- **All bodies are closed** iff each was taken over. -/
theorem send_allClosed (hurl : r.url = some url) (hsend : send env 0 r.heap = .ok res) :
    res.1.AllClosed ↔ env.TakesBodies (URL.address url) r := by
  unfold Heap.AllClosed Env.TakesBodies CallerRequest.hasCopy
  cases hbody : r.body with
  | object body =>
    have hhas : r.hasBody = true := by rw [CallerRequest.hasBody, hbody]
    rw [send_bodies_of_object hbody hurl hsend]
    cases hattempt : (env.idle (URL.address url)).attempt (r.heap.view 0) with
    | none => simp [hhas, hattempt, finalBodies]
    | some result =>
      cases result with
      | some response => simp [hhas, hattempt, finalBodies]
      | none => cases r.getBody with
          | returns new => cases new <;> simp [hhas, hattempt, finalBodies]
          | _ => simp [hhas, hattempt, finalBodies]
  | _ =>
    have hhas : r.hasBody = false := by rw [CallerRequest.hasBody, hbody]
    rw [send_bodies_of_none hhas hurl hsend]
    simp [hhas]

end Send

/-- **A `RoundTrip` that returns has closed every body it got hold of** iff each
was taken over: no dial, handshake or `NewClientConn` error, and no error in
writing a header block, stands between an attempt and its body. -/
theorem roundTrip_closes_iff {t : RoundTripper} {env : Env} {r r' : CallerRequest} {url : URL}
    {res : Heap × Option Response} (hurl : r.url = some url)
    (hprepared : t.prepared r = .ok r') (hreturns : t.roundTrip env r = .ok res) :
    res.1.AllClosed ↔ env.TakesBodies (URL.address url) r' := by
  rw [RoundTripper.roundTrip, t.setHeaders_eq, hprepared] at hreturns
  exact send_allClosed ((prepared_same hprepared).url.trans hurl) hreturns

/-- An HTTP/2 server that answers. -/
def answering : Env :=
  ⟨fun _ => .none, fun _ => .clientConn (some ⟨200, [], false, []⟩)⟩

theorem roundTrip_closes_http2 :
    ∃ res, sampleTripper.roundTrip answering (sampleRequest (some ∅) (.object ⟨[65], false⟩))
        = .ok res ∧ res.1.AllClosed := by
  have hprepared : sampleTripper.prepared (sampleRequest (some ∅) (.object ⟨[65], false⟩))
      = .ok _ := rfl
  have hreturns : sampleTripper.roundTrip answering
      (sampleRequest (some ∅) (.object ⟨[65], false⟩)) = .ok _ := rfl
  exact ⟨_, hreturns, (roundTrip_closes_iff rfl hprepared hreturns).mpr ⟨fun _ => rfl, nofun⟩⟩

/-- A connection that breaks before the header block is written. -/
def brokenLink : Link :=
  ⟨⟨.stored, .stored⟩, ⟨some 0⟩, fun _ _ => none, Http1.Conn.new [] []⟩

/-- What becomes of a one-byte body that cannot be replayed: the bodies after the
call, and whether it failed. -/
def sampleOutcome (env : Env) : Except RuntimeError (List BodyCell × Bool) :=
  (sampleTripper.roundTrip env (sampleRequest (some ∅) (.object ⟨[65], false⟩))).map
    fun res => (res.1.bodies, res.2.isNone)

/-- The body stays open when nobody answers, when a new connection breaks before
the header block is written, and when an idle one does and the request cannot be
replayed. -/
theorem roundTrip_leaves_body_open :
    sampleOutcome unreachable = .ok ([⟨⟨[65], false⟩, false⟩], true) ∧
      sampleOutcome ⟨fun _ => .none, fun _ => .conn brokenLink⟩ =
        .ok ([⟨⟨[65], false⟩, false⟩], true) ∧
      sampleOutcome ⟨fun _ => .conn brokenLink, fun _ => .dialError⟩ =
        .ok ([⟨⟨[65], false⟩, false⟩], true) := by
  decide +kernel

end HeadlessClient.Transport
