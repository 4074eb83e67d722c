import HoldTheDonut.Carrier.Placement
import HoldTheDonut.Machine.Channel

/-!
# `donut-carrier/src/server/stream_one.rs`: one request, one session

A request of the stream-one mode is a session of its own: its body is the uplink and the
body of its answer the downlink.  `spawn_session` makes the pipe between them, puts the
user's end on the accept channel and answers 200.

The accept channel has 64 places (`server/mod.rs`).  The other two modes wait for a free
place; `spawn_session` does not.  With `try_send` a session that finds the channel full is
dropped, and the request is answered 200 all the same.  So a request that is answered 200
has its session delivered if and only if there was a free place when it came
(`sessions_delivered_iff`).

A run is any order of arriving requests and of receptions by the consumer.  On the channel a
session goes with the number of its request, which tells apart the sessions of two requests
that name the same id.
-/

namespace HoldTheDonut
namespace Carrier

open Machine

/-- The number of places of the accept channel. -/
def acceptCapacity : ℕ := 64

namespace StreamOne

inductive Reply where
  /-- `downlink_response`: 200 with a streaming body. -/
  | streaming
  | rejected (why : Rejection)
  deriving DecidableEq

structure State where
  accept : Channel (ℕ × Session) acceptCapacity
  /-- What the consumer has received, in order. -/
  delivered : List (ℕ × Session)
  reply : ℕ → Option Reply

def State.start : State := ⟨.empty, [], fun _ => none⟩

/-- `spawn_session`: a session that finds the channel full is dropped. -/
def spawnSession (s : State) (i : ℕ) (session : Session) : State :=
  { s with
    accept := (s.accept.trySend (i, session)).getD s.accept
    reply := Function.update s.reply i (some .streaming) }

def handle (cfg : FrontConfig) (s : State) (i : ℕ) (req : HttpRequest) (remote : SocketAddr) :
    State :=
  match front cfg .streamOne req with
  | .error why => { s with reply := Function.update s.reply i (some (.rejected why)) }
  | .ok sid => spawnSession s i ⟨sid, remote⟩

inductive Event where
  /-- A request comes; its handler does not wait for anything. -/
  | request (i : ℕ)
  /-- The consumer takes a session. -/
  | recv

def step (cfg : FrontConfig) (reqs : List (HttpRequest × SocketAddr)) (s : State) :
    Event → Option State
  | .request i =>
    match reqs[i]?, s.reply i with
    | some (req, remote), none => some (handle cfg s i req remote)
    | _, _ => none
  | .recv =>
    s.accept.recv.map fun p => { s with accept := p.2, delivered := s.delivered ++ [p.1] }

/-- The session a request asks for, if it is a valid request of this mode. -/
def sessionOf (cfg : FrontConfig) (reqs : List (HttpRequest × SocketAddr)) (i : ℕ) :
    Option Session :=
  match reqs[i]? with
  | some (req, remote) => (front cfg .streamOne req).toOption.map fun sid => ⟨sid, remote⟩
  | none => none

/-- The consumer has received the session of this request, and once. -/
def State.DeliveredOnce (s : State) (i : ℕ) (session : Session) : Prop :=
  s.delivered.filter (fun d => d.1 = i) = [(i, session)]

/-- At every valid request there is a free place. -/
def Roomy (cfg : FrontConfig) (reqs : List (HttpRequest × SocketAddr)) (events : List Event) :
    Prop :=
  ∀ before i after t, events = before ++ .request i :: after →
    run (step cfg reqs) .start before = some t → (sessionOf cfg reqs i).isSome →
      t.accept.queue.length < acceptCapacity

section Steps

variable {cfg : FrontConfig} {reqs : List (HttpRequest × SocketAddr)} {s t : State}

/-- All sessions that have been put on the channel, in order. -/
def State.sent (s : State) : List (ℕ × Session) := s.delivered ++ s.accept.queue

/-- What a step can do: a request that is not valid, one that finds a free place, one that
finds none, and a reception. -/
theorem step_cases {e : Event} (h : step cfg reqs s e = some t) :
    (∃ i, e = .request i ∧ s.reply i = none ∧ sessionOf cfg reqs i = none ∧ t.sent = s.sent ∧
      ∃ reply, reply ≠ .streaming ∧ t.reply = Function.update s.reply i (some reply)) ∨
    (∃ i session, e = .request i ∧ s.reply i = none ∧ sessionOf cfg reqs i = some session ∧
      s.accept.queue.length < acceptCapacity ∧ t.sent = s.sent ++ [(i, session)] ∧
      t.reply = Function.update s.reply i (some .streaming)) ∨
    (∃ i session, e = .request i ∧ s.reply i = none ∧ sessionOf cfg reqs i = some session ∧
      ¬s.accept.queue.length < acceptCapacity ∧ t.sent = s.sent ∧
      t.reply = Function.update s.reply i (some .streaming)) ∨
    (e = .recv ∧ t.sent = s.sent ∧ t.reply = s.reply) := by
  cases e with
  | request i =>
    rw [step] at h
    split at h
    · next req remote hr hreply =>
      cases h
      cases hfront : front cfg .streamOne req with
      | error why =>
        have hnone : sessionOf cfg reqs i = none := by
          simp only [sessionOf, hr, hfront]
          rfl
        have hhandle : handle cfg s i req remote =
            { s with reply := Function.update s.reply i (some (.rejected why)) } := by
          rw [handle, hfront]
        rw [hhandle]
        exact Or.inl ⟨i, rfl, hreply, hnone, rfl, .rejected why, nofun, rfl⟩
      | ok sid =>
        have hsome : sessionOf cfg reqs i = some ⟨sid, remote⟩ := by
          simp only [sessionOf, hr, hfront]
          rfl
        have hhandle : handle cfg s i req remote = spawnSession s i ⟨sid, remote⟩ := by
          rw [handle, hfront]
        rw [hhandle]
        obtain ⟨hroom, d, hsend, hqueue⟩ | ⟨hfull, hsend⟩ :=
          s.accept.trySend_cases (i, (⟨sid, remote⟩ : Session))
        · refine Or.inr (Or.inl ⟨i, _, rfl, hreply, hsome, hroom, ?_, rfl⟩)
          simp only [State.sent, spawnSession, hsend, Option.getD_some, hqueue,
            List.append_assoc]
        · refine Or.inr (Or.inr (Or.inl ⟨i, _, rfl, hreply, hsome, hfull, ?_, rfl⟩))
          simp only [State.sent, spawnSession, hsend, Option.getD_none]
    · cases h
  | recv =>
    rw [step] at h
    obtain ⟨p, hp, rfl⟩ := Option.map_eq_some_iff.mp h
    refine Or.inr (Or.inr (Or.inr ⟨rfl, ?_, rfl⟩))
    show (s.delivered ++ [p.1]) ++ p.2.queue = s.delivered ++ s.accept.queue
    rw [Channel.queue_of_recv hp, List.append_assoc, List.singleton_append]

/-- What the channel, the answers and the history say about each other. -/
structure Ledger (cfg : FrontConfig) (reqs : List (HttpRequest × SocketAddr))
    (es : List Event) (s : State) : Prop where
  reached : run (step cfg reqs) .start es = some s
  answered : ∀ i, s.reply i ≠ none ↔ .request i ∈ es
  streaming : ∀ i, s.reply i = some .streaming ↔
    .request i ∈ es ∧ (sessionOf cfg reqs i).isSome
  right : ∀ p ∈ s.sent, sessionOf cfg reqs p.1 = some p.2
  came : ∀ p ∈ s.sent, .request p.1 ∈ es
  nodup : (s.sent.map Prod.fst).Nodup
  /-- A session is on the channel if its request was valid and found a free place. -/
  placed : ∀ i before after t, es = before ++ .request i :: after →
    run (step cfg reqs) .start before = some t →
      (i ∈ s.sent.map Prod.fst ↔
        (sessionOf cfg reqs i).isSome ∧ t.accept.queue.length < acceptCapacity)

theorem ledger_start : Ledger cfg reqs [] .start where
  reached := rfl
  answered := fun _ => ⟨fun h => absurd rfl h, nofun⟩
  streaming := fun _ => ⟨nofun, fun h => nomatch h.1⟩
  right := fun _ h => nomatch h
  came := fun _ h => nomatch h
  nodup := List.nodup_nil
  placed := fun _ before _ _ h => by cases before <;> cases h

namespace Ledger

variable {es : List Event} (h : Ledger cfg reqs es s)

include h

/-- A request that is answered for the first time has not come before. -/
theorem not_mem {i : ℕ} (hreply : s.reply i = none) : .request i ∉ es :=
  fun hmem => (h.answered i).mpr hmem hreply

/-- The consumer takes a session. -/
theorem recv (hstep : step cfg reqs s .recv = some t) (hsent : t.sent = s.sent)
    (hreply : t.reply = s.reply) : Ledger cfg reqs (es ++ [.recv]) t := by
  have hmem : ∀ i, .request i ∈ es ++ [.recv] ↔ .request i ∈ es := by
    intro i
    rw [List.mem_append, List.mem_singleton]
    exact ⟨fun hor => hor.resolve_right nofun, Or.inl⟩
  refine ⟨run_concat_eq_some.mpr ⟨s, h.reached, hstep⟩, ?_, ?_, ?_, ?_, ?_, ?_⟩
  · intro i
    rw [hmem, hreply]
    exact h.answered i
  · intro i
    rw [hmem, hreply]
    exact h.streaming i
  · rw [hsent]
    exact h.right
  · intro p hp
    rw [hmem]
    exact h.came p (hsent ▸ hp)
  · rw [hsent]
    exact h.nodup
  · intro i before after u hsplit hu
    obtain ⟨-, he⟩ | ⟨after', -, hes⟩ := concat_eq_split hsplit
    · cases he
    · rw [hsent]
      exact h.placed i before after' u hes hu

/-- A request comes, and its session `fresh` is put on the channel or nothing is. -/
theorem request {i : ℕ} {reply : Reply}
    {fresh : List (ℕ × Session)} (hstep : step cfg reqs s (.request i) = some t)
    (hreply : s.reply i = none) (hsent : t.sent = s.sent ++ fresh)
    (hanswer : t.reply = Function.update s.reply i (some reply))
    (hstreaming : reply = .streaming ↔ (sessionOf cfg reqs i).isSome)
    (hfresh : (∃ x, sessionOf cfg reqs i = some x ∧ fresh = [(i, x)] ∧
        s.accept.queue.length < acceptCapacity) ∨
      (fresh = [] ∧ ¬((sessionOf cfg reqs i).isSome ∧
        s.accept.queue.length < acceptCapacity))) :
    Ledger cfg reqs (es ++ [.request i]) t := by
  have hnew := h.not_mem hreply
  have hmem : ∀ j, .request j ∈ es ++ [.request i] ↔ .request j ∈ es ∨ j = i := by
    intro j
    rw [List.mem_append, List.mem_singleton, Event.request.injEq]
  -- the channel holds no session of this request yet
  have hfirst : i ∉ s.sent.map Prod.fst := by
    intro hi
    obtain ⟨p, hp, rfl⟩ := List.mem_map.mp hi
    exact hnew (h.came p hp)
  have hids : ∀ p ∈ fresh, p.1 = i ∧ sessionOf cfg reqs p.1 = some p.2 := by
    intro p hp
    rcases hfresh with ⟨x, hx, rfl, -⟩ | ⟨rfl, -⟩
    · obtain rfl := List.mem_singleton.mp hp
      exact ⟨rfl, hx⟩
    · cases hp
  refine ⟨run_concat_eq_some.mpr ⟨s, h.reached, hstep⟩, ?_, ?_, ?_, ?_, ?_, ?_⟩
  · intro j
    rw [hmem, hanswer]
    by_cases hj : j = i
    · rw [hj, Function.update_self]
      exact ⟨fun _ => Or.inr rfl, fun _ => Option.some_ne_none _⟩
    · rw [Function.update_of_ne hj, h.answered j, or_iff_left hj]
  · intro j
    rw [hmem, hanswer]
    by_cases hj : j = i
    · rw [hj, Function.update_self, Option.some.injEq, hstreaming]
      exact ⟨fun hsome => ⟨Or.inr rfl, hsome⟩, fun hboth => hboth.2⟩
    · rw [Function.update_of_ne hj, h.streaming j, or_iff_left hj]
  · rw [hsent]
    intro p hp
    rcases List.mem_append.mp hp with hold | hlast
    · exact h.right p hold
    · exact (hids p hlast).2
  · rw [hsent]
    intro p hp
    rw [hmem]
    rcases List.mem_append.mp hp with hold | hlast
    · exact Or.inl (h.came p hold)
    · exact Or.inr (hids p hlast).1
  · rw [hsent]
    rcases hfresh with ⟨x, -, rfl, -⟩ | ⟨rfl, -⟩
    · exact nodup_map_concat Prod.fst h.nodup hfirst
    · rw [List.append_nil]
      exact h.nodup
  · intro j before after u hsplit hu
    rw [hsent, List.map_append, List.mem_append]
    obtain ⟨rfl, he⟩ | ⟨after', -, hes⟩ := concat_eq_split hsplit
    · -- this request: the state it found is `s`
      obtain rfl : i = j := Event.request.inj he
      obtain rfl : s = u := Option.some.inj (h.reached.symm.trans hu)
      rw [or_iff_right hfirst]
      rcases hfresh with ⟨x, hx, rfl, hroom⟩ | ⟨rfl, hnot⟩
      · rw [hx]
        exact ⟨fun _ => ⟨rfl, hroom⟩, fun _ => List.mem_singleton_self i⟩
      · exact ⟨nofun, fun hboth => absurd hboth hnot⟩
    · have hj : j ≠ i := by
        rintro rfl
        refine hnew ?_
        rw [hes]
        exact List.mem_append_right _ List.mem_cons_self
      have hother : j ∉ fresh.map Prod.fst := by
        intro hin
        obtain ⟨p, hp, hpj⟩ := List.mem_map.mp hin
        exact hj (hpj.symm.trans (hids p hp).1)
      rw [or_iff_left hother]
      exact h.placed j before after' u hes hu

end Ledger

/-- **Every step keeps the ledger.** -/
theorem ledger_step {es : List Event} {e : Event} (h : Ledger cfg reqs es s)
    (hstep : step cfg reqs s e = some t) : Ledger cfg reqs (es ++ [e]) t := by
  obtain ⟨i, rfl, hreply, hnone, hsent, reply, hne, hanswer⟩ |
    ⟨i, x, rfl, hreply, hx, hroom, hsent, hanswer⟩ |
    ⟨i, x, rfl, hreply, hx, hfull, hsent, hanswer⟩ | ⟨rfl, hsent, hreply⟩ := step_cases hstep
  · have hinvalid : ¬(sessionOf cfg reqs i).isSome = true := by
      rw [hnone]
      exact Bool.noConfusion
    refine h.request hstep hreply (hsent.trans (List.append_nil _).symm) hanswer ?_
      (Or.inr ⟨rfl, fun hboth => hinvalid hboth.1⟩)
    exact ⟨fun heq => absurd heq hne, fun hsome => absurd hsome hinvalid⟩
  · refine h.request hstep hreply hsent hanswer ?_ (Or.inl ⟨x, hx, rfl, hroom⟩)
    rw [hx]
    exact ⟨fun _ => rfl, fun _ => rfl⟩
  · refine h.request hstep hreply (hsent.trans (List.append_nil _).symm) hanswer ?_
      (Or.inr ⟨rfl, fun hboth => hfull hboth.2⟩)
    rw [hx]
    exact ⟨fun _ => rfl, fun _ => rfl⟩
  · exact h.recv hstep hsent hreply

theorem ledger_run {events : List Event} (hrun : run (step cfg reqs) .start events = some s) :
    Ledger cfg reqs events s :=
  run_history (Ledger cfg reqs) ledger_start (fun _ _ _ _ h hstep => ledger_step h hstep) events
    hrun

end Steps

/-! ## What the consumer receives -/

/-- **No session is lost if and only if there is always a free place.**  For any requests,
any order of arrivals and receptions, and once the consumer has emptied the channel: every
request that was answered 200 has had its session delivered once, exactly when each valid
request found fewer than 64 sessions waiting. -/
theorem sessions_delivered_iff (cfg : FrontConfig) (reqs : List (HttpRequest × SocketAddr))
    (events : List Event) (s : State) (hrun : run (step cfg reqs) .start events = some s)
    (hdrained : s.accept.queue = []) :
    (∀ i, s.reply i = some .streaming →
      ∃ x, sessionOf cfg reqs i = some x ∧ s.DeliveredOnce i x) ↔ Roomy cfg reqs events := by
  have hledger := ledger_run hrun
  have hsent : s.sent = s.delivered := by
    rw [State.sent, hdrained, List.append_nil]
  constructor
  · intro hall before i after t hsplit ht hvalid
    have hcame : .request i ∈ events := by
      rw [hsplit]
      exact List.mem_append_right _ List.mem_cons_self
    obtain ⟨x, -, honce⟩ := hall i ((hledger.streaming i).mpr ⟨hcame, hvalid⟩)
    have hmem : (i, x) ∈ s.delivered.filter (fun d => d.1 = i) := by
      rw [honce]
      exact List.mem_singleton_self _
    have hplaced : i ∈ s.sent.map Prod.fst := by
      rw [hsent]
      exact List.mem_map.mpr ⟨(i, x), (List.mem_filter.mp hmem).1, rfl⟩
    exact ((hledger.placed i before after t hsplit ht).mp hplaced).2
  · intro hroomy i hstreaming
    obtain ⟨hcame, hvalid⟩ := (hledger.streaming i).mp hstreaming
    obtain ⟨before, after, hsplit⟩ := List.append_of_mem hcame
    obtain ⟨t, ht⟩ := run_of_prefix hrun ⟨.request i :: after, hsplit.symm⟩
    have hplaced : i ∈ s.sent.map Prod.fst :=
      (hledger.placed i before after t hsplit ht).mpr
        ⟨hvalid, hroomy before i after t hsplit ht hvalid⟩
    obtain ⟨⟨j, x⟩, hp, rfl⟩ := List.mem_map.mp hplaced
    refine ⟨x, hledger.right _ hp, filter_key_eq_singleton Prod.fst ?_ (hsent ▸ hp)⟩
    rw [← hsent]
    exact hledger.nodup

/-- A server in this mode with the default settings. -/
def someFront : FrontConfig := ⟨serverWith .header, .streamOne, none⟩

/-- Requests of the default client for one session. -/
def sameRequests (n : ℕ) : List (HttpRequest × SocketAddr) :=
  List.replicate n (downloadRequest (clientWith .header) someSession, somePeer)

theorem sessions_delivered_iff_one :
    ∃ s, run (step someFront (sameRequests 1)) .start [.request 0, .recv] = some s ∧
      ((∀ i, s.reply i = some .streaming →
        ∃ x, sessionOf someFront (sameRequests 1) i = some x ∧ s.DeliveredOnce i x) ↔
          Roomy someFront (sameRequests 1) [.request 0, .recv]) :=
  ⟨_, rfl, sessions_delivered_iff someFront (sameRequests 1) [.request 0, .recv] _ rfl rfl⟩

set_option maxRecDepth 20000 in
/-- Sixty-five requests come before the consumer takes a session.  All are answered 200, the
consumer empties the channel, and the session of the last request is not among the sessions
it receives. -/
theorem session_lost_full :
    ∃ s, run (step someFront (sameRequests 65)) .start
        ((List.range 65).map .request ++ List.replicate 64 .recv) = some s ∧
      s.accept.queue = [] ∧ s.reply 64 = some .streaming ∧
      s.delivered.filter (fun d => d.1 = 64) = [] :=
  ⟨_, rfl, rfl, rfl, rfl⟩

end StreamOne
end Carrier
end HoldTheDonut
