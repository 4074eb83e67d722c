import HoldTheDonut.Carrier.Placement

/-!
# `donut-carrier/src/server/stream_up.rs`: two requests, one session

The stream-up mode splits a session into a POST for the uplink and a GET for the downlink
that name the same session id.  Whichever comes first is parked in a table; the second one
takes the parked half out, connects the two and announces the session.  A request that finds
a half of its own kind is answered 409.

A POST makes a pipe and pumps its body into it.  The user's end of the pipe is the stream of
the session, and what the user writes comes out of its other half, `bridge_rd`.  A GET makes
a pipe whose far end is the body of its answer, and keeps the half to write to, `bridge_wr`.
Halves are named by the number of the request that made them, so a half that is used twice
would show as a number that occurs twice.  `bodyPumps` has an entry `(i, p)` for each task that
writes the body of POST `i` into pipe `p`, and `pumps` an entry `(p, j)` for each
`spawn_downlink_pump`: what the user of pipe `p` writes goes to the answer of GET `j`.

A handler does one thing under the lock, and if it has found its counterpart it then waits to
announce the session; other handlers may run in between.  `Paired` is kept by every step,
and the accounting of `stream_up_pairing` is read off it.
-/

namespace HoldTheDonut
namespace Carrier
namespace StreamUp

open Machine

structure UpConfig extends FrontConfig where
  /-- Bounds of the keepalive timeout. -/
  streamUpSecs : ℕ × ℕ

/-- A session; its stream is the user's end of the pipe of a POST. -/
structure UserSession where
  stream : ℕ
  sessionId : SessionId
  remote : SocketAddr

inductive Half where
  | uplinkPosted (bridgeRd : ℕ) (acceptPending : UserSession)
  | downlinkRequested (bridgeWr : ℕ)

inductive Reply where
  /-- The answer to a POST, empty or as a keepalive channel. -/
  | ok (keepalive : Bool)
  /-- The answer to a GET, with the downlink as its body. -/
  | streaming
  | conflict
  | rejected (why : Rejection)

inductive Stage where
  | arrived
  /-- Paired, and waiting to announce the session. -/
  | sending (session : UserSession) (reply : Reply)
  | answered (reply : Reply)

structure State where
  table : AList fun _ : SessionId => Half
  /-- The uplink pumps, from the body of a POST into a pipe. -/
  bodyPumps : List (ℕ × ℕ)
  /-- The downlink pumps, from a pipe into the answer of a GET. -/
  pumps : List (ℕ × ℕ)
  stage : ℕ → Stage
  /-- The sessions announced so far. -/
  emitted : List UserSession

def State.start : State := ⟨∅, [], [], fun _ => .arrived, []⟩

def refererName : Text := ['r', 'e', 'f', 'e', 'r', 'e', 'r']

/-- `ok_response`. -/
def okResponse (cfg : UpConfig) (req : HttpRequest) : Reply :=
  .ok ((req.headers.any fun h => h.1 = refererName) && decide (0 < cfg.streamUpSecs.2))

/-- `handle_uplink` up to the announcement. -/
def handleUplink (cfg : UpConfig) (s : State) (i : ℕ) (req : HttpRequest) (sid : SessionId)
    (remote : SocketAddr) : State :=
  -- the body is pumped into the pipe whatever the table says
  let s := { s with bodyPumps := s.bodyPumps ++ [(i, i)] }
  let session : UserSession := ⟨i, sid, remote⟩
  match s.table.lookup sid with
  | some (.downlinkRequested wr) =>
    { s with
      table := s.table.erase sid
      pumps := s.pumps ++ [(i, wr)]
      stage := Function.update s.stage i (.sending session (okResponse cfg req)) }
  | some (.uplinkPosted rd accept) =>
    -- taken out and put back
    { s with
      table := (s.table.erase sid).insert sid (.uplinkPosted rd accept)
      stage := Function.update s.stage i (.answered .conflict) }
  | none =>
    { s with
      table := s.table.insert sid (.uplinkPosted i session)
      stage := Function.update s.stage i (.answered (okResponse cfg req)) }

/-- `handle_downlink` up to the announcement. -/
def handleDownlink (s : State) (i : ℕ) (sid : SessionId) : State :=
  match s.table.lookup sid with
  | some (.uplinkPosted rd accept) =>
    { s with
      table := s.table.erase sid
      pumps := s.pumps ++ [(rd, i)]
      stage := Function.update s.stage i (.sending accept .streaming) }
  | some (.downlinkRequested wr) =>
    { s with
      table := (s.table.erase sid).insert sid (.downlinkRequested wr)
      stage := Function.update s.stage i (.answered .conflict) }
  | none =>
    { s with
      table := s.table.insert sid (.downlinkRequested i)
      stage := Function.update s.stage i (.answered .streaming) }

def handle (cfg : UpConfig) (s : State) (i : ℕ) (req : HttpRequest) (remote : SocketAddr) :
    State :=
  match front cfg.toFrontConfig .streamUp req with
  | .error why => { s with stage := Function.update s.stage i (.answered (.rejected why)) }
  | .ok sid =>
    match req.method with
    | .get => handleDownlink s i sid
    | .post => handleUplink cfg s i req sid remote

inductive Event where
  | lock (i : ℕ)
  /-- `accept.send` succeeds. -/
  | send (i : ℕ)

def step (cfg : UpConfig) (reqs : List (HttpRequest × SocketAddr)) (s : State) :
    Event → Option State
  | .lock i =>
    match reqs[i]?, s.stage i with
    | some (req, remote), .arrived => some (handle cfg s i req remote)
    | _, _ => none
  | .send i =>
    match s.stage i with
    | .sending session reply =>
      some { s with
        emitted := s.emitted ++ [session]
        stage := Function.update s.stage i (.answered reply) }
    | _ => none

/-! ## What a step can do -/

/-- What a request asks for, if it is a valid request of this mode. -/
def requestOf (cfg : UpConfig) (reqs : List (HttpRequest × SocketAddr)) (i : ℕ) :
    Option (Method × SessionId × SocketAddr) :=
  match reqs[i]? with
  | some (req, remote) =>
    (front cfg.toFrontConfig .streamUp req).toOption.map fun sid => (req.method, sid, remote)
  | none => none

/-- A request asks for one thing. -/
theorem requestOf_unique {cfg : UpConfig} {reqs : List (HttpRequest × SocketAddr)} {i : ℕ}
    {m m' : Method} {sid sid' : SessionId} {remote remote' : SocketAddr}
    (h : requestOf cfg reqs i = some (m, sid, remote))
    (h' : requestOf cfg reqs i = some (m', sid', remote')) :
    m = m' ∧ sid = sid' ∧ remote = remote' := by
  have heq := Option.some.inj (h.symm.trans h')
  rw [Prod.mk.injEq, Prod.mk.injEq] at heq
  exact heq

/-- The half a request parks. -/
def halfOf (m : Method) (i : ℕ) (sid : SessionId) (remote : SocketAddr) : Half :=
  match m with
  | .post => .uplinkPosted i ⟨i, sid, remote⟩
  | .get => .downlinkRequested i

/-- The uplink pumps once request `i` has been handled. -/
def State.pumpBody (s : State) (m : Method) (i : ℕ) : List (ℕ × ℕ) :=
  match m with
  | .post => s.bodyPumps ++ [(i, i)]
  | .get => s.bodyPumps

/-- The request a half comes from. -/
def Half.owner : Half → ℕ
  | .uplinkPosted rd _ => rd
  | .downlinkRequested wr => wr

def Half.method : Half → Method
  | .uplinkPosted _ _ => .post
  | .downlinkRequested _ => .get

@[simp] theorem owner_halfOf (m : Method) (i : ℕ) (sid : SessionId) (remote : SocketAddr) :
    (halfOf m i sid remote).owner = i := by
  cases m <;> rfl

@[simp] theorem method_halfOf (m : Method) (i : ℕ) (sid : SessionId) (remote : SocketAddr) :
    (halfOf m i sid remote).method = m := by
  cases m <;> rfl

/-- An answer that is no refusal. -/
def Reply.accepted : Reply → Bool
  | .ok _ => true
  | .streaming => true
  | .conflict => false
  | .rejected _ => false

/-- A handler whose request has been parked or paired. -/
def Stage.served : Stage → Bool
  | .arrived => false
  | .sending _ reply => reply.accepted
  | .answered reply => reply.accepted

/-- A handler that moves on stays served. -/
theorem served_update {stage : ℕ → Stage} {i k : ℕ} {y : Stage}
    (hy : (stage i).served = true → y.served = true) (hk : (stage k).served = true) :
    (Function.update stage i y k).served = true := by
  by_cases hki : k = i
  · subst hki
    rw [Function.update_self]
    exact hy hk
  · rw [Function.update_of_ne hki]
    exact hk

/-- The counterpart a request finds: the two sides of the pump, and the session. -/
def Meets (m : Method) (i : ℕ) (sid : SessionId) (remote : SocketAddr) (h : Half) (rd wr : ℕ)
    (x : UserSession) : Prop :=
  (m = .post ∧ h = .downlinkRequested wr ∧ rd = i ∧ x = ⟨i, sid, remote⟩) ∨
    (m = .get ∧ h = .uplinkPosted rd x ∧ wr = i)

theorem step_cases {cfg : UpConfig} {reqs : List (HttpRequest × SocketAddr)} {s t : State}
    {e : Event} (h : step cfg reqs s e = some t) :
    (∃ i why, e = .lock i ∧ s.stage i = .arrived ∧ requestOf cfg reqs i = none ∧
      t = { s with stage := Function.update s.stage i (.answered (.rejected why)) }) ∨
    (∃ i m sid remote reply, e = .lock i ∧ s.stage i = .arrived ∧
      requestOf cfg reqs i = some (m, sid, remote) ∧ s.table.lookup sid = none ∧
      reply.accepted = true ∧
      t = { s with
        table := s.table.insert sid (halfOf m i sid remote)
        bodyPumps := s.pumpBody m i
        stage := Function.update s.stage i (.answered reply) }) ∨
    (∃ i m sid remote half, e = .lock i ∧ s.stage i = .arrived ∧
      requestOf cfg reqs i = some (m, sid, remote) ∧ s.table.lookup sid = some half ∧
      half.method = m ∧
      t = { s with
        table := (s.table.erase sid).insert sid half
        bodyPumps := s.pumpBody m i
        stage := Function.update s.stage i (.answered .conflict) }) ∨
    (∃ i m sid remote half rd wr x reply, e = .lock i ∧ s.stage i = .arrived ∧
      requestOf cfg reqs i = some (m, sid, remote) ∧ s.table.lookup sid = some half ∧
      Meets m i sid remote half rd wr x ∧ reply.accepted = true ∧
      t = { s with
        table := s.table.erase sid
        bodyPumps := s.pumpBody m i
        pumps := s.pumps ++ [(rd, wr)]
        stage := Function.update s.stage i (.sending x reply) }) ∨
    (∃ i x reply, e = .send i ∧ s.stage i = .sending x reply ∧
      t = { s with
        emitted := s.emitted ++ [x]
        stage := Function.update s.stage i (.answered reply) }) := by
  cases e with
  | lock i =>
    rw [step] at h
    split at h
    · next req remote hr hst =>
      obtain rfl := Option.some.inj h
      cases hfront : front cfg.toFrontConfig .streamUp req with
      | error why =>
        refine Or.inl ⟨i, why, rfl, hst, ?_, ?_⟩
        · simp only [requestOf, hr, hfront]
          rfl
        · rw [handle, hfront]
      | ok sid =>
        have hreq : requestOf cfg reqs i = some (req.method, sid, remote) := by
          simp only [requestOf, hr, hfront]
          rfl
        cases hm : req.method with
        | post =>
          rw [hm] at hreq
          have hhandle : handle cfg s i req remote = handleUplink cfg s i req sid remote := by
            simp only [handle, hfront, hm]
          rw [hhandle, handleUplink]
          cases hlookup : s.table.lookup sid with
          | none => exact Or.inr (Or.inl ⟨i, _, sid, remote, _, rfl, hst, hreq, hlookup, rfl, rfl⟩)
          | some half =>
            cases half with
            | uplinkPosted rd accept =>
              exact Or.inr (Or.inr (Or.inl
                ⟨i, _, sid, remote, _, rfl, hst, hreq, hlookup, rfl, rfl⟩))
            | downlinkRequested wr =>
              exact Or.inr (Or.inr (Or.inr (Or.inl ⟨i, _, sid, remote, _, i, wr, _, _, rfl, hst,
                hreq, hlookup, Or.inl ⟨rfl, rfl, rfl, rfl⟩, rfl, rfl⟩)))
        | get =>
          rw [hm] at hreq
          have hhandle : handle cfg s i req remote = handleDownlink s i sid := by
            simp only [handle, hfront, hm]
          rw [hhandle, handleDownlink]
          cases hlookup : s.table.lookup sid with
          | none => exact Or.inr (Or.inl ⟨i, _, sid, remote, _, rfl, hst, hreq, hlookup, rfl, rfl⟩)
          | some half =>
            cases half with
            | uplinkPosted rd accept =>
              exact Or.inr (Or.inr (Or.inr (Or.inl ⟨i, _, sid, remote, _, rd, i, _, _, rfl, hst,
                hreq, hlookup, Or.inr ⟨rfl, rfl, rfl⟩, rfl, rfl⟩)))
            | downlinkRequested wr =>
              exact Or.inr (Or.inr (Or.inl
                ⟨i, _, sid, remote, _, rfl, hst, hreq, hlookup, rfl, rfl⟩))
    · cases h
  | send i =>
    rw [step] at h
    split at h
    · next x reply hst =>
      exact Or.inr (Or.inr (Or.inr (Or.inr ⟨i, x, reply, rfl, hst, (Option.some.inj h).symm⟩)))
    · cases h

/-! ## The table and the pumps -/

section Invariants

variable {cfg : UpConfig} {reqs : List (HttpRequest × SocketAddr)} {s t : State} {i : ℕ}

/-- Where the halves of the requests are. -/
structure Tables (cfg : UpConfig) (reqs : List (HttpRequest × SocketAddr)) (s : State) :
    Prop where
  /-- A parked half is the half of a request for this id. -/
  request : ∀ sid half, s.table.lookup sid = some half → ∃ remote,
    requestOf cfg reqs half.owner = some (half.method, sid, remote) ∧
      half = halfOf half.method half.owner sid remote
  waiting : ∀ sid half, s.table.lookup sid = some half →
    ∃ reply, s.stage half.owner = .answered reply ∧ reply.accepted = true
  /-- A parked half is in no pump. -/
  free : ∀ sid half, s.table.lookup sid = some half →
    ∀ p ∈ s.pumps, p.1 ≠ half.owner ∧ p.2 ≠ half.owner
  /-- A pump goes from a POST to a GET with the same id. -/
  linked : ∀ p ∈ s.pumps, ∃ sid remote remote',
    requestOf cfg reqs p.1 = some (.post, sid, remote) ∧
      requestOf cfg reqs p.2 = some (.get, sid, remote')
  served : ∀ p ∈ s.pumps, (s.stage p.1).served = true ∧ (s.stage p.2).served = true
  posts_nodup : (s.pumps.map Prod.fst).Nodup
  gets_nodup : (s.pumps.map Prod.snd).Nodup
  /-- A request past its lock section is refused, parked or in a pump. -/
  placed : ∀ i m sid remote, requestOf cfg reqs i = some (m, sid, remote) →
    s.stage i ≠ .arrived → s.stage i = .answered .conflict ∨
      s.table.lookup sid = some (halfOf m i sid remote) ∨ ∃ p ∈ s.pumps, p.1 = i ∨ p.2 = i

theorem tables_start : Tables cfg reqs .start where
  request := fun _ _ h => nomatch h
  waiting := fun _ _ h => nomatch h
  free := fun _ _ h => nomatch h
  linked := fun _ h => nomatch h
  served := fun _ h => nomatch h
  posts_nodup := List.nodup_nil
  gets_nodup := List.nodup_nil
  placed := fun _ _ _ _ _ h => absurd rfl h

namespace Tables

/-- A request that has not taken the lock is nowhere yet. -/
theorem fresh (h : Tables cfg reqs s) (hst : s.stage i = .arrived) :
    (∀ sid half, s.table.lookup sid = some half → half.owner ≠ i) ∧
      ∀ p ∈ s.pumps, p.1 ≠ i ∧ p.2 ≠ i := by
  refine ⟨?_, ?_⟩
  · rintro sid half hlookup rfl
    obtain ⟨reply, hreply, -⟩ := h.waiting sid half hlookup
    cases hst.symm.trans hreply
  · intro p hp
    obtain ⟨hpost, hget⟩ := h.served p hp
    refine ⟨?_, ?_⟩
    · rintro rfl
      rw [hst] at hpost
      cases hpost
    · rintro rfl
      rw [hst] at hget
      cases hget

variable {reply : Reply}

/-- A request is refused, by 409 or before the lock. -/
theorem refuse (h : Tables cfg reqs s) (hst : s.stage i = .arrived)
    (hwhy : reply = .conflict ∨ requestOf cfg reqs i = none)
    (hlookup : ∀ sid, t.table.lookup sid = s.table.lookup sid) (hpumps : t.pumps = s.pumps)
    (hstage : t.stage = Function.update s.stage i (.answered reply)) : Tables cfg reqs t := by
  obtain ⟨howner, hpump⟩ := h.fresh hst
  refine ⟨?_, ?_, ?_, ?_, ?_, ?_, ?_, ?_⟩
  · intro sid half hhalf
    exact h.request sid half ((hlookup sid).symm.trans hhalf)
  · intro sid half hhalf
    have hold := (hlookup sid).symm.trans hhalf
    rw [hstage, Function.update_of_ne (howner sid half hold)]
    exact h.waiting sid half hold
  · intro sid half hhalf
    rw [hpumps]
    exact h.free sid half ((hlookup sid).symm.trans hhalf)
  · rw [hpumps]
    exact h.linked
  · rw [hpumps, hstage]
    intro p hp
    rw [Function.update_of_ne (hpump p hp).1, Function.update_of_ne (hpump p hp).2]
    exact h.served p hp
  · rw [hpumps]
    exact h.posts_nodup
  · rw [hpumps]
    exact h.gets_nodup
  · intro j m sid remote hreq hpast
    rw [hstage] at hpast ⊢
    rw [hlookup, hpumps]
    by_cases hj : j = i
    · rw [hj, Function.update_self]
      rcases hwhy with rfl | hnone
      · exact Or.inl rfl
      · rw [hj, hnone] at hreq
        cases hreq
    · rw [Function.update_of_ne hj] at hpast ⊢
      exact h.placed j m sid remote hreq hpast

variable {remote : SocketAddr} {sid : SessionId} {m : Method}

/-- A request is parked. -/
theorem park (h : Tables cfg reqs s) (hst : s.stage i = .arrived)
    (hreq : requestOf cfg reqs i = some (m, sid, remote)) (hnone : s.table.lookup sid = none)
    (haccepted : reply.accepted = true) :
    Tables cfg reqs { s with
      table := s.table.insert sid (halfOf m i sid remote)
      bodyPumps := s.pumpBody m i
      stage := Function.update s.stage i (.answered reply) } := by
  obtain ⟨howner, hpump⟩ := h.fresh hst
  -- what is in the table now: the new half, or a half of another id
  refine ⟨?_, ?_, ?_, h.linked, ?_, h.posts_nodup, h.gets_nodup, ?_⟩
  · intro sid' half hhalf
    rcases lookup_insert_cases hhalf with ⟨rfl, rfl⟩ | ⟨-, hold⟩
    · rw [owner_halfOf, method_halfOf]
      exact ⟨remote, hreq, rfl⟩
    · exact h.request sid' half hold
  · intro sid' half hhalf
    dsimp only
    rcases lookup_insert_cases hhalf with ⟨rfl, rfl⟩ | ⟨-, hold⟩
    · rw [owner_halfOf, Function.update_self]
      exact ⟨reply, rfl, haccepted⟩
    · rw [Function.update_of_ne (howner sid' half hold)]
      exact h.waiting sid' half hold
  · intro sid' half hhalf
    rcases lookup_insert_cases hhalf with ⟨rfl, rfl⟩ | ⟨-, hold⟩
    · rw [owner_halfOf]
      exact hpump
    · exact h.free sid' half hold
  · intro p hp
    dsimp only
    rw [Function.update_of_ne (hpump p hp).1, Function.update_of_ne (hpump p hp).2]
    exact h.served p hp
  · intro j m' sid' remote' hreq' hpast
    dsimp only at hpast ⊢
    by_cases hj : j = i
    · subst hj
      obtain ⟨rfl, rfl, rfl⟩ := requestOf_unique hreq hreq'
      exact Or.inr (Or.inl (AList.lookup_insert _))
    · rw [Function.update_of_ne hj] at hpast ⊢
      obtain hconflict | hparked | hpaired := h.placed j m' sid' remote' hreq' hpast
      · exact Or.inl hconflict
      · have hsid : sid' ≠ sid := by
          rintro rfl
          cases hnone.symm.trans hparked
        rw [AList.lookup_insert_ne hsid]
        exact Or.inr (Or.inl hparked)
      · exact Or.inr (Or.inr hpaired)

variable {x : UserSession} (h : Tables cfg reqs s)

include h

/-- The two requests of a new pump. -/
theorem meets {half : Half} {rd wr : ℕ} (hreq : requestOf cfg reqs i = some (m, sid, remote))
    (hlookup : s.table.lookup sid = some half) (hmeets : Meets m i sid remote half rd wr x) :
    (∃ r r', requestOf cfg reqs rd = some (.post, sid, r) ∧
      requestOf cfg reqs wr = some (.get, sid, r') ∧ x = ⟨rd, sid, r⟩) ∧
      ((rd = i ∧ wr = half.owner) ∨ (rd = half.owner ∧ wr = i)) := by
  obtain ⟨remote', hother, hhalf⟩ := h.request sid half hlookup
  rcases hmeets with ⟨rfl, rfl, rfl, rfl⟩ | ⟨rfl, rfl, rfl⟩
  · exact ⟨⟨remote, remote', hreq, hother, rfl⟩, Or.inl ⟨rfl, rfl⟩⟩
  · refine ⟨⟨remote', remote, hother, hreq, ?_⟩, Or.inr ⟨rfl, rfl⟩⟩
    exact (Half.uplinkPosted.inj hhalf).2

/-- A request finds its counterpart. -/
theorem pair {half : Half} {rd wr : ℕ} (hst : s.stage i = .arrived)
    (hreq : requestOf cfg reqs i = some (m, sid, remote)) (hlookup : s.table.lookup sid = some half)
    (hmeets : Meets m i sid remote half rd wr x) (haccepted : reply.accepted = true) :
    Tables cfg reqs { s with
      table := s.table.erase sid
      bodyPumps := s.pumpBody m i
      pumps := s.pumps ++ [(rd, wr)]
      stage := Function.update s.stage i (.sending x reply) } := by
  obtain ⟨howner, hpump⟩ := h.fresh hst
  obtain ⟨⟨r, r', hpost, hget, -⟩, hends⟩ := h.meets hreq hlookup hmeets
  have hfree := h.free sid half hlookup
  -- neither end of the new pump has been used
  have hnew : ∀ p ∈ s.pumps, p.1 ≠ rd ∧ p.2 ≠ wr := by
    intro p hp
    rcases hends with ⟨rfl, rfl⟩ | ⟨rfl, rfl⟩
    · exact ⟨(hpump p hp).1, (hfree p hp).2⟩
    · exact ⟨(hfree p hp).1, (hpump p hp).2⟩
  have hserved : ∀ k, (s.stage k).served = true →
      (Function.update s.stage i (.sending x reply) k).served = true :=
    fun k => served_update fun _ => haccepted
  have hself : (Function.update s.stage i (.sending x reply) i).served = true := by
    rw [Function.update_self]
    exact haccepted
  have hother : (Function.update s.stage i (.sending x reply) half.owner).served = true := by
    obtain ⟨reply', hreply', hok⟩ := h.waiting sid half hlookup
    refine hserved _ ?_
    rw [hreply']
    exact hok
  refine ⟨?_, ?_, ?_, ?_, ?_, ?_, ?_, ?_⟩
  · exact fun sid' half' hhalf => h.request sid' half' (lookup_of_erase hhalf).2
  · intro sid' half' hhalf
    have hbefore := (lookup_of_erase hhalf).2
    dsimp only
    rw [Function.update_of_ne (howner sid' half' hbefore)]
    exact h.waiting sid' half' hbefore
  · intro sid' half' hhalf p hp
    obtain ⟨hsid, hbefore⟩ := lookup_of_erase hhalf
    rcases List.mem_append.mp hp with hp | hp
    · exact h.free sid' half' hbefore p hp
    · -- the requests of the new pump are for another id
      obtain rfl := List.mem_singleton.mp hp
      obtain ⟨remote', hparked, -⟩ := h.request sid' half' hbefore
      refine ⟨?_, ?_⟩
      · rintro rfl
        exact hsid (requestOf_unique hparked hpost).2.1
      · rintro rfl
        exact hsid (requestOf_unique hparked hget).2.1
  · intro p hp
    rcases List.mem_append.mp hp with hp | hp
    · exact h.linked p hp
    · obtain rfl := List.mem_singleton.mp hp
      exact ⟨sid, r, r', hpost, hget⟩
  · intro p hp
    rcases List.mem_append.mp hp with hp | hp
    · exact ⟨hserved _ (h.served p hp).1, hserved _ (h.served p hp).2⟩
    · obtain rfl := List.mem_singleton.mp hp
      rcases hends with ⟨rfl, rfl⟩ | ⟨rfl, rfl⟩
      · exact ⟨hself, hother⟩
      · exact ⟨hother, hself⟩
  · refine nodup_map_concat Prod.fst h.posts_nodup fun hmem => ?_
    obtain ⟨p, hp, hprd⟩ := List.mem_map.mp hmem
    exact (hnew p hp).1 hprd
  · refine nodup_map_concat Prod.snd h.gets_nodup fun hmem => ?_
    obtain ⟨p, hp, hpwr⟩ := List.mem_map.mp hmem
    exact (hnew p hp).2 hpwr
  · intro j m' sid' remote' hreq' hpast
    have hlast : (rd, wr) ∈ s.pumps ++ [(rd, wr)] :=
      List.mem_append_right _ (List.mem_singleton_self _)
    dsimp only at hpast ⊢
    by_cases hj : j = i
    · refine Or.inr (Or.inr ⟨_, hlast, ?_⟩)
      rcases hends with ⟨rfl, -⟩ | ⟨-, rfl⟩
      · exact Or.inl hj.symm
      · exact Or.inr hj.symm
    · rw [Function.update_of_ne hj] at hpast ⊢
      obtain hconflict | hparked | ⟨p, hp, hpj⟩ := h.placed j m' sid' remote' hreq' hpast
      · exact Or.inl hconflict
      · by_cases hsid : sid' = sid
        · -- the half that was parked for this id is the one found
          subst hsid
          have hhalf : half = halfOf m' j sid' remote' :=
            Option.some.inj (hlookup.symm.trans hparked)
          have hjowner : half.owner = j := by
            rw [hhalf, owner_halfOf]
          refine Or.inr (Or.inr ⟨_, hlast, ?_⟩)
          rcases hends with ⟨-, rfl⟩ | ⟨rfl, -⟩
          · exact Or.inr hjowner
          · exact Or.inl hjowner
        · rw [AList.lookup_erase_ne hsid]
          exact Or.inr (Or.inl hparked)
      · exact Or.inr (Or.inr ⟨p, List.mem_append_left _ hp, hpj⟩)

/-- A session is announced. -/
theorem send (hst : s.stage i = .sending x reply) :
    Tables cfg reqs { s with
      emitted := s.emitted ++ [x]
      stage := Function.update s.stage i (.answered reply) } := by
  have hserved : ∀ k, (s.stage k).served = true →
      (Function.update s.stage i (.answered reply) k).served = true := by
    refine fun k => served_update fun hi => ?_
    rw [hst] at hi
    exact hi
  refine ⟨h.request, ?_, h.free, h.linked, ?_, h.posts_nodup, h.gets_nodup, ?_⟩
  · intro sid half hhalf
    obtain ⟨reply', hreply', hok⟩ := h.waiting sid half hhalf
    have hne : half.owner ≠ i := by
      rintro rfl
      cases hst.symm.trans hreply'
    dsimp only
    rw [Function.update_of_ne hne]
    exact ⟨reply', hreply', hok⟩
  · exact fun p hp => ⟨hserved _ (h.served p hp).1, hserved _ (h.served p hp).2⟩
  · intro j m sid remote hreq hpast
    dsimp only at hpast ⊢
    by_cases hj : j = i
    · subst hj
      have hbefore : s.stage j ≠ .arrived := fun harr => nomatch hst.symm.trans harr
      obtain hconflict | hplace := h.placed j m sid remote hreq hbefore
      · cases hst.symm.trans hconflict
      · exact Or.inr hplace
    · rw [Function.update_of_ne hj] at hpast ⊢
      exact h.placed j m sid remote hreq hpast

end Tables

/-! ## The sessions -/

/-- Which sessions have been announced and which are about to be. -/
structure Sessions (cfg : UpConfig) (reqs : List (HttpRequest × SocketAddr)) (s : State) :
    Prop where
  /-- Such a session is that of a POST in a pump. -/
  session_eq : ∀ x, (x ∈ s.emitted ∨ ∃ k reply, s.stage k = .sending x reply) →
    x.stream ∈ s.pumps.map Prod.fst ∧
      requestOf cfg reqs x.stream = some (.post, x.sessionId, x.remote)
  emitted_nodup : (s.emitted.map UserSession.stream).Nodup
  held_new : ∀ k x reply, s.stage k = .sending x reply →
    x.stream ∉ s.emitted.map UserSession.stream
  held_once : ∀ k k' x x' reply reply', s.stage k = .sending x reply →
    s.stage k' = .sending x' reply' → x.stream = x'.stream → k = k'
  replies : ∀ k x reply, s.stage k = .sending x reply → reply.accepted = true
  /-- The session of a pump is announced or about to be. -/
  pump_session : ∀ p ∈ s.pumps, p.1 ∈ s.emitted.map UserSession.stream ∨
    ∃ k x reply, s.stage k = .sending x reply ∧ x.stream = p.1

theorem sessions_start : Sessions cfg reqs .start where
  session_eq := by
    rintro x (hx | ⟨k, reply, hst⟩)
    · cases hx
    · cases hst
  emitted_nodup := List.nodup_nil
  held_new := fun _ _ _ h => nomatch h
  held_once := fun _ _ _ _ _ _ h => nomatch h
  replies := fun _ _ _ h => nomatch h
  pump_session := fun _ h => nomatch h

namespace Sessions

/-- A handler that is not and will not be announcing goes on. -/
theorem idle (h : Sessions cfg reqs s) {y : Stage} (hi : ∀ x reply, s.stage i ≠ .sending x reply)
    (hy : ∀ x reply, y ≠ .sending x reply) (hpumps : t.pumps = s.pumps)
    (hemitted : t.emitted = s.emitted) (hstage : t.stage = Function.update s.stage i y) :
    Sessions cfg reqs t := by
  have hsending : ∀ k x reply, t.stage k = .sending x reply ↔ s.stage k = .sending x reply := by
    intro k x reply
    rw [hstage]
    by_cases hk : k = i
    · rw [hk, Function.update_self]
      exact ⟨fun h => absurd h (hy x reply), fun h => absurd h (hi x reply)⟩
    · rw [Function.update_of_ne hk]
  refine ⟨?_, ?_, ?_, ?_, ?_, ?_⟩
  · intro x hx
    simp only [hsending, hemitted] at hx
    rw [hpumps]
    exact h.session_eq x hx
  · rw [hemitted]
    exact h.emitted_nodup
  · intro k x reply hk
    rw [hemitted]
    exact h.held_new k x reply ((hsending k x reply).mp hk)
  · intro k k' x x' reply reply' hk hk'
    exact h.held_once k k' x x' reply reply' ((hsending k x reply).mp hk)
      ((hsending k' x' reply').mp hk')
  · exact fun k x reply hk => h.replies k x reply ((hsending k x reply).mp hk)
  · intro p hp
    simp only [hsending, hemitted]
    exact h.pump_session p (hpumps ▸ hp)

variable {reply : Reply} {x : UserSession}

/-- A pump is started and its session is about to be announced. -/
theorem pair (h : Sessions cfg reqs s) {rd wr : ℕ} (hst : s.stage i = .arrived)
    (haccepted : reply.accepted = true) (hx : x.stream = rd)
    (hreq : requestOf cfg reqs rd = some (.post, x.sessionId, x.remote))
    (hnew : rd ∉ s.pumps.map Prod.fst) (hpumps : t.pumps = s.pumps ++ [(rd, wr)])
    (hemitted : t.emitted = s.emitted)
    (hstage : t.stage = Function.update s.stage i (.sending x reply)) :
    Sessions cfg reqs t := by
  have hsending : ∀ k y r, t.stage k = .sending y r →
      (k = i ∧ y = x ∧ r = reply) ∨ (k ≠ i ∧ s.stage k = .sending y r) := by
    intro k y r hk
    rw [hstage] at hk
    rcases update_cases hk with ⟨hki, hnew⟩ | hother
    · exact Or.inl ⟨hki, Stage.sending.inj hnew⟩
    · exact Or.inr hother
  have hold : ∀ y, (y ∈ s.emitted ∨ ∃ k r, s.stage k = .sending y r) → y.stream ≠ rd := by
    rintro y hy rfl
    exact hnew (h.session_eq y hy).1
  have hlast : rd ∈ t.pumps.map Prod.fst := by
    rw [hpumps, List.map_append]
    exact List.mem_append_right _ (List.mem_singleton_self _)
  have hkeep : ∀ k, k ∈ s.pumps.map Prod.fst → k ∈ t.pumps.map Prod.fst := by
    intro k hk
    rw [hpumps, List.map_append]
    exact List.mem_append_left _ hk
  refine ⟨?_, ?_, ?_, ?_, ?_, ?_⟩
  · intro y hy
    obtain rfl | hbefore : y = x ∨ (y ∈ s.emitted ∨ ∃ k r, s.stage k = .sending y r) := by
      rcases hy with hy | ⟨k, r, hk⟩
      · exact Or.inr (Or.inl (hemitted ▸ hy))
      · rcases hsending k y r hk with ⟨-, hyx, -⟩ | ⟨-, hk'⟩
        · exact Or.inl hyx
        · exact Or.inr (Or.inr ⟨k, r, hk'⟩)
    · rw [hx]
      exact ⟨hlast, hreq⟩
    · exact ⟨hkeep _ (h.session_eq y hbefore).1, (h.session_eq y hbefore).2⟩
  · rw [hemitted]
    exact h.emitted_nodup
  · intro k y r hk
    rw [hemitted]
    rcases hsending k y r hk with ⟨-, rfl, -⟩ | ⟨-, hk'⟩
    · intro hmem
      obtain ⟨z, hz, hzy⟩ := List.mem_map.mp hmem
      exact hold z (Or.inl hz) (hzy.trans hx)
    · exact h.held_new k y r hk'
  · intro k k' y y' r r' hk hk' hyy
    rcases hsending k y r hk with ⟨hki, rfl, -⟩ | ⟨-, hk₁⟩
    · rcases hsending k' y' r' hk' with ⟨hki', -, -⟩ | ⟨-, hk₂⟩
      · exact hki.trans hki'.symm
      · exact absurd (hyy.symm.trans hx) (hold y' (Or.inr ⟨k', r', hk₂⟩))
    · rcases hsending k' y' r' hk' with ⟨-, rfl, -⟩ | ⟨-, hk₂⟩
      · exact absurd (hyy.trans hx) (hold y (Or.inr ⟨k, r, hk₁⟩))
      · exact h.held_once k k' y y' r r' hk₁ hk₂ hyy
  · intro k y r hk
    rcases hsending k y r hk with ⟨-, -, rfl⟩ | ⟨-, hk'⟩
    · exact haccepted
    · exact h.replies k y r hk'
  · intro p hp
    rw [hpumps] at hp
    rw [hemitted]
    rcases List.mem_append.mp hp with hp | hp
    · obtain hemit | ⟨k, y, r, hk, hyp⟩ := h.pump_session p hp
      · exact Or.inl hemit
      · have hki : k ≠ i := by
          rintro rfl
          cases hst.symm.trans hk
        refine Or.inr ⟨k, y, r, ?_, hyp⟩
        rw [hstage, Function.update_of_ne hki]
        exact hk
    · obtain rfl := List.mem_singleton.mp hp
      refine Or.inr ⟨i, x, reply, ?_, hx⟩
      rw [hstage, Function.update_self]

/-- A session is announced. -/
theorem send (h : Sessions cfg reqs s) (hst : s.stage i = .sending x reply) :
    Sessions cfg reqs { s with
      emitted := s.emitted ++ [x]
      stage := Function.update s.stage i (.answered reply) } := by
  have hsending : ∀ k y r, Function.update s.stage i (.answered reply) k = .sending y r →
      k ≠ i ∧ s.stage k = .sending y r := by
    intro k y r hk
    rcases update_cases hk with ⟨-, hnew⟩ | hother
    · cases hnew
    · exact hother
  have hmap : (s.emitted ++ [x]).map UserSession.stream =
      s.emitted.map UserSession.stream ++ [x.stream] := by
    rw [List.map_append, List.map_singleton]
  refine ⟨?_, ?_, ?_, ?_, ?_, ?_⟩
  · rintro y (hy | ⟨k, r, hk⟩)
    · rcases List.mem_append.mp hy with hy | hy
      · exact h.session_eq y (Or.inl hy)
      · obtain rfl := List.mem_singleton.mp hy
        exact h.session_eq y (Or.inr ⟨i, reply, hst⟩)
    · exact h.session_eq y (Or.inr ⟨k, r, (hsending k y r hk).2⟩)
  · exact nodup_map_concat _ h.emitted_nodup (h.held_new i x reply hst)
  · intro k y r hk
    obtain ⟨hki, hk'⟩ := hsending k y r hk
    dsimp only
    rw [hmap, List.mem_append, List.mem_singleton, not_or]
    refine ⟨h.held_new k y r hk', fun hyx => ?_⟩
    exact hki (h.held_once k i y x r reply hk' hst hyx)
  · intro k k' y y' r r' hk hk' hyy
    exact h.held_once k k' y y' r r' (hsending k y r hk).2 (hsending k' y' r' hk').2 hyy
  · exact fun k y r hk => h.replies k y r (hsending k y r hk).2
  · intro p hp
    dsimp only
    rw [hmap, List.mem_append, List.mem_singleton]
    obtain hemit | ⟨k, y, r, hk, hyp⟩ := h.pump_session p hp
    · exact Or.inl (Or.inl hemit)
    · by_cases hki : k = i
      · subst hki
        obtain rfl := (Stage.sending.inj (hst.symm.trans hk)).1
        exact Or.inl (Or.inr hyp.symm)
      · refine Or.inr ⟨k, y, r, ?_, hyp⟩
        rw [Function.update_of_ne hki]
        exact hk

end Sessions

/-! ## The bodies -/

/-- Whose body goes into which pipe. -/
structure Bodies (cfg : UpConfig) (reqs : List (HttpRequest × SocketAddr)) (s : State) :
    Prop where
  /-- A body goes into the pipe of its own request, which has been handled. -/
  own : ∀ p ∈ s.bodyPumps, p.1 = p.2 ∧ s.stage p.1 ≠ .arrived
  pipes_nodup : (s.bodyPumps.map Prod.snd).Nodup
  pumped : ∀ i sid remote, requestOf cfg reqs i = some (.post, sid, remote) →
    s.stage i ≠ .arrived → (i, i) ∈ s.bodyPumps

theorem bodies_start : Bodies cfg reqs .start where
  own := fun _ h => nomatch h
  pipes_nodup := List.nodup_nil
  pumped := fun _ _ _ _ h => absurd rfl h

namespace Bodies

/-- A handler moves on without a new pump. -/
theorem keep (h : Bodies cfg reqs s) {y : Stage} (hy : y ≠ .arrived)
    (hi : ∀ sid remote, requestOf cfg reqs i = some (.post, sid, remote) → s.stage i ≠ .arrived)
    (hbody : t.bodyPumps = s.bodyPumps) (hstage : t.stage = Function.update s.stage i y) :
    Bodies cfg reqs t := by
  refine ⟨?_, ?_, ?_⟩
  · rw [hbody, hstage]
    intro p hp
    refine ⟨(h.own p hp).1, ?_⟩
    by_cases hpi : p.1 = i
    · rw [hpi, Function.update_self]
      exact hy
    · rw [Function.update_of_ne hpi]
      exact (h.own p hp).2
  · rw [hbody]
    exact h.pipes_nodup
  · intro j sid remote hreq hpast
    rw [hbody]
    by_cases hj : j = i
    · subst hj
      exact h.pumped j sid remote hreq (hi sid remote hreq)
    · rw [hstage, Function.update_of_ne hj] at hpast
      exact h.pumped j sid remote hreq hpast

variable {m : Method} {sid : SessionId} {remote : SocketAddr}

/-- A handler goes through its lock section. -/
theorem lock (h : Bodies cfg reqs s) {y : Stage} (hy : y ≠ .arrived) (hst : s.stage i = .arrived)
    (hreq : requestOf cfg reqs i = some (m, sid, remote)) (hbody : t.bodyPumps = s.pumpBody m i)
    (hstage : t.stage = Function.update s.stage i y) : Bodies cfg reqs t := by
  cases m with
  | get =>
    refine h.keep hy (fun sid' remote' hpost => ?_) hbody hstage
    cases hreq.symm.trans hpost
  | post =>
    have hbody' : t.bodyPumps = s.bodyPumps ++ [(i, i)] := hbody
    have hother : ∀ p ∈ s.bodyPumps, p.1 ≠ i := by
      rintro p hp rfl
      exact (h.own p hp).2 hst
    refine ⟨?_, ?_, ?_⟩
    · rw [hbody', hstage]
      intro p hp
      rcases List.mem_append.mp hp with hp | hp
      · rw [Function.update_of_ne (hother p hp)]
        exact h.own p hp
      · obtain rfl := List.mem_singleton.mp hp
        refine ⟨rfl, ?_⟩
        rw [Function.update_self]
        exact hy
    · rw [hbody']
      refine nodup_map_concat Prod.snd h.pipes_nodup fun hmem => ?_
      obtain ⟨p, hp, hpi⟩ := List.mem_map.mp hmem
      exact hother p hp ((h.own p hp).1.trans hpi)
    · intro j sid' remote' hreq' hpast
      rw [hbody']
      by_cases hj : j = i
      · rw [hj]
        exact List.mem_append_right _ (List.mem_singleton_self _)
      · rw [hstage, Function.update_of_ne hj] at hpast
        exact List.mem_append_left _ (h.pumped j sid' remote' hreq' hpast)

end Bodies

/-! ## Every step and every run -/

/-- The invariant of the dispatcher. -/
structure Paired (cfg : UpConfig) (reqs : List (HttpRequest × SocketAddr)) (s : State) :
    Prop where
  tables : Tables cfg reqs s
  sessions : Sessions cfg reqs s
  bodies : Bodies cfg reqs s

theorem answered_ne_sending (reply : Reply) (x : UserSession) (reply' : Reply) :
    Stage.answered reply ≠ .sending x reply' :=
  fun h => nomatch h

/-- **Every step keeps the accounting.** -/
theorem Paired.step {e : Event} (h : Paired cfg reqs s)
    (hstep : StreamUp.step cfg reqs s e = some t) : Paired cfg reqs t := by
  have hidle : ∀ {j : ℕ}, s.stage j = .arrived → ∀ x reply, s.stage j ≠ .sending x reply :=
    fun harr x reply hsend => nomatch harr.symm.trans hsend
  obtain ⟨i, why, rfl, hst, hnone, rfl⟩ |
    ⟨i, m, sid, remote, reply, rfl, hst, hreq, hlookup, haccepted, rfl⟩ |
    ⟨i, m, sid, remote, half, rfl, hst, hreq, hlookup, hmethod, rfl⟩ |
    ⟨i, m, sid, remote, half, rd, wr, x, reply, rfl, hst, hreq, hlookup, hmeets, haccepted, rfl⟩ |
    ⟨i, x, reply, rfl, hst, rfl⟩ := step_cases hstep
  · refine ⟨h.tables.refuse hst (Or.inr hnone) (fun _ => rfl) rfl rfl,
      h.sessions.idle (hidle hst) (answered_ne_sending _) rfl rfl rfl,
      h.bodies.keep Stage.noConfusion (fun sid remote hpost => ?_) rfl rfl⟩
    cases hnone.symm.trans hpost
  · exact ⟨h.tables.park hst hreq hlookup haccepted,
      h.sessions.idle (hidle hst) (answered_ne_sending _) rfl rfl rfl,
      h.bodies.lock Stage.noConfusion hst hreq rfl rfl⟩
  · exact ⟨h.tables.refuse hst (Or.inl rfl) (lookup_put_back hlookup) rfl rfl,
      h.sessions.idle (hidle hst) (answered_ne_sending _) rfl rfl rfl,
      h.bodies.lock Stage.noConfusion hst hreq rfl rfl⟩
  · obtain ⟨⟨r, r', hpost, hget, rfl⟩, hends⟩ := h.tables.meets hreq hlookup hmeets
    have hnew : rd ∉ s.pumps.map Prod.fst := by
      intro hmem
      obtain ⟨p, hp, hprd⟩ := List.mem_map.mp hmem
      rcases hends with ⟨rfl, -⟩ | ⟨rfl, -⟩
      · exact ((h.tables.fresh hst).2 p hp).1 hprd
      · exact (h.tables.free sid half hlookup p hp).1 hprd
    exact ⟨h.tables.pair hst hreq hlookup hmeets haccepted,
      h.sessions.pair hst haccepted rfl hpost hnew rfl rfl rfl,
      h.bodies.lock Stage.noConfusion hst hreq rfl rfl⟩
  · refine ⟨h.tables.send hst, h.sessions.send hst,
      h.bodies.keep Stage.noConfusion (fun _ _ _ harr => ?_) rfl rfl⟩
    cases hst.symm.trans harr

theorem paired_run {events : List Event}
    (hrun : run (StreamUp.step cfg reqs) .start events = some s) : Paired cfg reqs s :=
  run_inv (fun _ _ _ h hstep => h.step hstep) events
    ⟨tables_start, sessions_start, bodies_start⟩ hrun

/-! ## The pairing law -/

/-- Session `x` joins request `i`: its user reads the body of `i`, or writes to the answer
of `i`. -/
def State.Joins (s : State) (x : UserSession) (i : ℕ) : Prop :=
  (i, x.stream) ∈ s.bodyPumps ∨ (x.stream, i) ∈ s.pumps

/-- Request `i` is in exactly one announced session. -/
def State.InOneSession (s : State) (i : ℕ) : Prop :=
  ∃! x, x ∈ s.emitted ∧ s.Joins x i

def State.Parked (s : State) (i : ℕ) : Prop :=
  ∃ sid half, s.table.lookup sid = some half ∧ half.owner = i

/-- Request `i` has been answered 409. -/
def State.Refused (s : State) (i : ℕ) : Prop :=
  s.stage i = .answered .conflict

/-- No handler is still waiting to announce a session. -/
def State.Completed (s : State) : Prop :=
  ∀ i x reply, s.stage i ≠ .sending x reply

/-- What holds of the requests and the sessions after any run. -/
structure PairingLaw (cfg : UpConfig) (reqs : List (HttpRequest × SocketAddr)) (s : State) :
    Prop where
  /-- A session reads the body of one POST and writes to the answer of one GET, both for
  its id. -/
  joined : ∀ x ∈ s.emitted, ∃ i j remote,
    s.bodyPumps.filter (fun p => p.2 = x.stream) = [(i, x.stream)] ∧
      s.pumps.filter (fun p => p.1 = x.stream) = [(x.stream, j)] ∧
      requestOf cfg reqs i = some (.post, x.sessionId, x.remote) ∧
      requestOf cfg reqs j = some (.get, x.sessionId, remote)
  /-- No session is announced twice. -/
  announced_once : s.emitted.Nodup
  /-- No request is in two sessions. -/
  used_once : ∀ x ∈ s.emitted, ∀ y ∈ s.emitted, ∀ i, s.Joins x i → s.Joins y i → x = y
  /-- A handled request is in one session, or parked, or refused. -/
  accounted : s.Completed → ∀ i m sid remote, requestOf cfg reqs i = some (m, sid, remote) →
    s.stage i ≠ .arrived →
      (s.InOneSession i ∧ ¬s.Parked i ∧ ¬s.Refused i) ∨
      ((∀ x ∈ s.emitted, ¬s.Joins x i) ∧ s.Parked i ∧ ¬s.Refused i) ∨
      ((∀ x ∈ s.emitted, ¬s.Joins x i) ∧ ¬s.Parked i ∧ s.Refused i)
  one_half : ∀ i j m m' sid remote remote', requestOf cfg reqs i = some (m, sid, remote) →
    requestOf cfg reqs j = some (m', sid, remote') → s.Parked i → s.Parked j → i = j
  /-- A request is refused only by a half of its own kind, and then the table stays as it is. -/
  refused : ∀ e t i, step cfg reqs s e = some t → ¬s.Refused i → t.Refused i →
    e = .lock i ∧ (∃ m sid remote half, requestOf cfg reqs i = some (m, sid, remote) ∧
      s.table.lookup sid = some half ∧ half.method = m) ∧
    ∀ sid, t.table.lookup sid = s.table.lookup sid

namespace Paired

variable {x : UserSession}

section Paired

variable (h : Paired cfg reqs s)

include h

/-- The requests of an announced session. -/
theorem ends_of_emitted (hx : x ∈ s.emitted) :
    requestOf cfg reqs x.stream = some (.post, x.sessionId, x.remote) ∧
      (x.stream, x.stream) ∈ s.bodyPumps ∧ ∃ j remote, (x.stream, j) ∈ s.pumps ∧
        requestOf cfg reqs j = some (.get, x.sessionId, remote) := by
  obtain ⟨hpump, hreq⟩ := h.sessions.session_eq x (Or.inl hx)
  obtain ⟨⟨rd, j⟩, hp, rfl : rd = x.stream⟩ := List.mem_map.mp hpump
  obtain ⟨sid, remote, remote', hpost, hget⟩ := h.tables.linked _ hp
  have hsid : x.sessionId = sid := (requestOf_unique hreq hpost).2.1
  have hpast : s.stage x.stream ≠ .arrived :=
    fun harr => ((h.tables.fresh harr).2 _ hp).1 rfl
  exact ⟨hreq, h.bodies.pumped _ _ _ hreq hpast, j, remote', hp, hsid ▸ hget⟩

theorem joins_iff (hx : x ∈ s.emitted) (i : ℕ) :
    s.Joins x i ↔ i = x.stream ∨ (x.stream, i) ∈ s.pumps := by
  refine or_congr_left ⟨fun hbody => (h.bodies.own _ hbody).1, ?_⟩
  rintro rfl
  exact (h.ends_of_emitted hx).2.1

/-- Sessions with one stream are one session. -/
theorem emitted_ext {y : UserSession} (hx : x ∈ s.emitted) (hy : y ∈ s.emitted)
    (hxy : x.stream = y.stream) : x = y :=
  List.inj_on_of_nodup_map h.sessions.emitted_nodup hx hy hxy

/-- The stream of a session is that of a POST, so no pump ends there. -/
theorem not_pump_to_stream (hx : x ∈ s.emitted) (rd : ℕ) : (rd, x.stream) ∉ s.pumps := by
  intro hp
  obtain ⟨sid, remote, remote', -, hget⟩ := h.tables.linked _ hp
  cases (h.ends_of_emitted hx).1.symm.trans hget

theorem joins_unique {y : UserSession} (hx : x ∈ s.emitted) (hy : y ∈ s.emitted) (hxi : s.Joins x i)
    (hyi : s.Joins y i) : x = y := by
  rcases (h.joins_iff hx i).mp hxi with rfl | hpx
  · rcases (h.joins_iff hy _).mp hyi with hstream | hpy
    · exact h.emitted_ext hx hy hstream
    · exact absurd hpy (h.not_pump_to_stream hx _)
  · rcases (h.joins_iff hy _).mp hyi with rfl | hpy
    · exact absurd hpx (h.not_pump_to_stream hy _)
    · have hpair := List.inj_on_of_nodup_map h.tables.gets_nodup hpx hpy rfl
      exact h.emitted_ext hx hy (congrArg Prod.fst hpair)

/-- A joined request is an end of a pump. -/
theorem pump_of_joins (hx : x ∈ s.emitted) (hxi : s.Joins x i) :
    ∃ p ∈ s.pumps, p.1 = i ∨ p.2 = i := by
  rcases (h.joins_iff hx i).mp hxi with rfl | hp
  · obtain ⟨-, -, j, -, hp, -⟩ := h.ends_of_emitted hx
    exact ⟨_, hp, Or.inl rfl⟩
  · exact ⟨_, hp, Or.inr rfl⟩

variable {p : ℕ × ℕ}

/-- Once the handlers are done, an end of a pump is joined. -/
theorem joins_of_pump (hdone : s.Completed) (hp : p ∈ s.pumps) (hpi : p.1 = i ∨ p.2 = i) :
    ∃ x ∈ s.emitted, s.Joins x i := by
  obtain hmem | ⟨k, x, reply, hk, -⟩ := h.sessions.pump_session p hp
  · obtain ⟨x, hx, hstream⟩ := List.mem_map.mp hmem
    refine ⟨x, hx, (h.joins_iff hx i).mpr ?_⟩
    rw [hstream]
    rcases hpi with rfl | rfl
    · exact Or.inl rfl
    · exact Or.inr hp
  · exact absurd hk (hdone k x reply)

theorem not_parked_of_pump (hp : p ∈ s.pumps) (hpi : p.1 = i ∨ p.2 = i) : ¬s.Parked i := by
  rintro ⟨sid, half, hlookup, rfl⟩
  obtain ⟨hne₁, hne₂⟩ := h.tables.free sid half hlookup p hp
  exact hpi.elim hne₁ hne₂

theorem not_refused_of_pump (hp : p ∈ s.pumps) (hpi : p.1 = i ∨ p.2 = i) : ¬s.Refused i := by
  intro hrefused
  obtain ⟨hpost, hget⟩ := h.tables.served p hp
  rw [State.Refused] at hrefused
  rcases hpi with rfl | rfl
  · rw [hrefused] at hpost
    cases hpost
  · rw [hrefused] at hget
    cases hget

theorem not_refused_of_parked (hparked : s.Parked i) : ¬s.Refused i := by
  obtain ⟨sid, half, hlookup, rfl⟩ := hparked
  intro hrefused
  obtain ⟨reply, hreply, haccepted⟩ := h.tables.waiting sid half hlookup
  obtain rfl := Stage.answered.inj (hreply.symm.trans hrefused)
  cases haccepted

theorem joined (hx : x ∈ s.emitted) : ∃ i j remote,
    s.bodyPumps.filter (fun p => p.2 = x.stream) = [(i, x.stream)] ∧
      s.pumps.filter (fun p => p.1 = x.stream) = [(x.stream, j)] ∧
      requestOf cfg reqs i = some (.post, x.sessionId, x.remote) ∧
      requestOf cfg reqs j = some (.get, x.sessionId, remote) := by
  obtain ⟨hreq, hbody, j, remote, hp, hget⟩ := h.ends_of_emitted hx
  exact ⟨x.stream, j, remote, filter_key_eq_singleton Prod.snd h.bodies.pipes_nodup hbody,
    filter_key_eq_singleton Prod.fst h.tables.posts_nodup hp, hreq, hget⟩

end Paired

variable {m : Method} {sid : SessionId} {remote : SocketAddr} (h : Paired cfg reqs s)

include h

theorem accounted (hdone : s.Completed) (hreq : requestOf cfg reqs i = some (m, sid, remote))
    (hpast : s.stage i ≠ .arrived) :
    (s.InOneSession i ∧ ¬s.Parked i ∧ ¬s.Refused i) ∨
      ((∀ x ∈ s.emitted, ¬s.Joins x i) ∧ s.Parked i ∧ ¬s.Refused i) ∨
      ((∀ x ∈ s.emitted, ¬s.Joins x i) ∧ ¬s.Parked i ∧ s.Refused i) := by
  obtain hrefused | hlookup | ⟨p, hp, hpi⟩ := h.tables.placed i m sid remote hreq hpast
  · refine Or.inr (Or.inr ⟨fun x hx hxi => ?_, fun hparked => ?_, hrefused⟩)
    · obtain ⟨p, hp, hpi⟩ := h.pump_of_joins hx hxi
      exact h.not_refused_of_pump hp hpi hrefused
    · exact h.not_refused_of_parked hparked hrefused
  · have hparked : s.Parked i := ⟨sid, _, hlookup, owner_halfOf m i sid remote⟩
    refine Or.inr (Or.inl ⟨fun x hx hxi => ?_, hparked, h.not_refused_of_parked hparked⟩)
    obtain ⟨p, hp, hpi⟩ := h.pump_of_joins hx hxi
    exact h.not_parked_of_pump hp hpi hparked
  · obtain ⟨x, hx, hxi⟩ := h.joins_of_pump hdone hp hpi
    refine Or.inl ⟨⟨x, ⟨hx, hxi⟩, ?_⟩, h.not_parked_of_pump hp hpi, h.not_refused_of_pump hp hpi⟩
    rintro y ⟨hy, hyi⟩
    exact h.joins_unique hy hx hyi hxi

/-- A parked request is parked under its own id. -/
theorem lookup_of_parked (hreq : requestOf cfg reqs i = some (m, sid, remote))
    (hparked : s.Parked i) : ∃ half, s.table.lookup sid = some half ∧ half.owner = i := by
  obtain ⟨sid', half, hlookup, rfl⟩ := hparked
  obtain ⟨remote', hother, -⟩ := h.tables.request sid' half hlookup
  have hsid : sid = sid' := (requestOf_unique hreq hother).2.1
  exact ⟨half, hsid ▸ hlookup, rfl⟩

theorem refused {e : Event} (hstep : StreamUp.step cfg reqs s e = some t) (hbefore : ¬s.Refused i)
    (hafter : t.Refused i) :
    e = .lock i ∧ (∃ m sid remote half, requestOf cfg reqs i = some (m, sid, remote) ∧
      s.table.lookup sid = some half ∧ half.method = m) ∧
    ∀ sid, t.table.lookup sid = s.table.lookup sid := by
  -- the handler that moved is the one that is refused, and it is refused by its new stage
  have hmoved : ∀ {k : ℕ} {y : Stage}, t.stage = Function.update s.stage k y →
      i = k ∧ y = .answered .conflict := by
    intro k y hstage
    rw [State.Refused, hstage] at hafter
    rcases update_cases hafter with ⟨hik, hnew⟩ | ⟨-, hold⟩
    · exact ⟨hik, hnew.symm⟩
    · exact absurd hold hbefore
  obtain ⟨k, why, rfl, -, -, rfl⟩ | ⟨k, m, sid, remote, reply, rfl, -, -, -, haccepted, rfl⟩ |
    ⟨k, m, sid, remote, half, rfl, -, hreq, hlookup, hmethod, rfl⟩ |
    ⟨k, m, sid, remote, half, rd, wr, x, reply, rfl, -, -, -, -, -, rfl⟩ |
    ⟨k, x, reply, rfl, hst, rfl⟩ := step_cases hstep
  · cases (hmoved rfl).2
  · obtain rfl := Stage.answered.inj (hmoved rfl).2
    cases haccepted
  · obtain rfl := (hmoved rfl).1
    exact ⟨rfl, ⟨m, sid, remote, half, hreq, hlookup, hmethod⟩, lookup_put_back hlookup⟩
  · cases (hmoved rfl).2
  · obtain rfl := Stage.answered.inj (hmoved rfl).2
    cases h.sessions.replies k x _ hst

end Paired

end Invariants

/-- **Stream-up pairing.**  For any requests and any order in which the handlers take the lock
and announce their sessions, the requests and the sessions are accounted for. -/
theorem stream_up_pairing (cfg : UpConfig) (reqs : List (HttpRequest × SocketAddr))
    (events : List Event) (s : State) (hrun : run (step cfg reqs) .start events = some s) :
    PairingLaw cfg reqs s := by
  have h := paired_run hrun
  refine ⟨fun x hx => h.joined hx, h.sessions.emitted_nodup.of_map, ?_, ?_, ?_, ?_⟩
  · exact fun x hx y hy i hxi hyi => h.joins_unique hx hy hxi hyi
  · exact fun hdone i m sid remote hreq hpast => h.accounted hdone hreq hpast
  · intro i j m m' sid remote remote' hi hj hparked hparked'
    obtain ⟨half, hlookup, rfl⟩ := h.lookup_of_parked hi hparked
    obtain ⟨half', hlookup', rfl⟩ := h.lookup_of_parked hj hparked'
    rw [Option.some.inj (hlookup.symm.trans hlookup')]
  · exact fun e t i hstep hbefore hafter => h.refused hstep hbefore hafter

/-- A server in this mode with the default settings. -/
def someUp : UpConfig := ⟨⟨serverWith .header, .streamUp, none⟩, (20, 80)⟩

/-- A request of the default client for one session. -/
def someRequest (m : Method) : HttpRequest × SocketAddr :=
  (buildRequest m (composePath (clientWith .header) someSession) (clientWith .header) someSession
    none, somePeer)

/-- Two POSTs for one id, the second refused, and then a GET that finds the first. -/
theorem stream_up_pairing_reused :
    ∃ s, run (step someUp [someRequest .post, someRequest .post, someRequest .get]) .start
        [.lock 0, .lock 1, .lock 2, .send 2] = some s ∧
      s.emitted = [⟨0, someSession, somePeer⟩] ∧ s.Refused 1 ∧
      PairingLaw someUp [someRequest .post, someRequest .post, someRequest .get] s :=
  ⟨_, rfl, rfl, rfl, stream_up_pairing someUp _ [.lock 0, .lock 1, .lock 2, .send 2] _ rfl⟩

end StreamUp
end Carrier
end HoldTheDonut
