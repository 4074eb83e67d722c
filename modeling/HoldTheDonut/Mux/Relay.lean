import HoldTheDonut.Machine.Run
import HoldTheDonut.Mux.Frame
import HoldTheDonut.Routing.Router
import HoldTheDonut.Vision.Padding

/-!
# `donut-server/src/mux.rs`: the relay

`muxRelay` multiplexes UDP sub-sessions over one connection.  Every datagram is a
frame that may state its target; the routing table is asked for each stated target,
and a tag that selects a chain outbound sends the datagram up the cascade.  Anything
else leaves from a local socket of the sub-session.

The network answers through `MuxEnv`: what a name resolves to, whether a dial, a bind
or a send succeeds.  The answers are indexed by the number of frames handled before,
so two lookups of one name may differ.  The relay itself is a machine whose events are
what its `select!` can wake up for, and it keeps a log with one entry for each frame it
has handled, the sub-session as it was before and what was done for it.

The session handlers drop a request whose tag is `block` or `blackhole`.  Here nobody
looks at those two tags, and they select no chain, so such a frame takes the local
socket.  The file ends with what stops it: nothing but the network.
-/

namespace HoldTheDonut
namespace Mux

open Machine Routing Server
open Vision (Unpadder Uuid xtlsPadding commandPaddingContinue commandPaddingEnd defaultSeed bufSize)

/-! ## What the relay does to the network -/

/-- The way a datagram takes: the local socket, to a stated peer or to none, or the
cascade session dialled for an endpoint. -/
inductive Via where
  | socket (peer : Option SocketAddr)
  | cascade (ep : Endpoint)
  deriving DecidableEq

/-- One thing done to the network on behalf of a frame. -/
inductive Action where
  /-- The local resolver is asked. -/
  | lookup (host : String) (port : UInt16)
  /-- A chain outbound is dialled for an endpoint. -/
  | dial (chain : ChainOutbound) (ep : Endpoint)
  /-- A local socket is bound. -/
  | bind (ipv6 : Bool)
  /-- A datagram has been handed over. -/
  | send (via : Via) (data : List UInt8)
  deriving DecidableEq

/-- The datagram an action sends, if it is a send. -/
def Action.datagram : Action → Option (Via × List UInt8)
  | .send via data => some (via, data)
  | _ => none

/-- The answers of the network, by the number of frames handled before. -/
structure MuxEnv where
  /-- The first address `lookup_host` gives for a name and a port. -/
  lookupHost : ℕ → String → UInt16 → Option SocketAddr
  dialUdp : ℕ → ChainOutbound → Endpoint → Bool
  bindUdp : ℕ → Bool → Bool
  delivers : ℕ → Via → Bool

/-! ## Sub-sessions -/

/-- The local socket of a sub-session. -/
structure DirectLink where
  ipv6 : Bool
  deriving DecidableEq

/-- A cascade session and the endpoint it was dialled for. -/
structure ChainLink where
  chain : ChainOutbound
  endpoint : Endpoint
  deriving DecidableEq

/-- The egress of one sub-session: one local socket, and one cascade session for each
address a chained target has been labelled with. -/
structure UdpSession where
  direct : Option DirectLink
  chain : AList fun _ : SocketAddr => ChainLink

/-- A sub-session before its first datagram. -/
def UdpSession.default : UdpSession := ⟨none, ∅⟩

/-- Resolve a stated target. -/
def resolve (env : MuxEnv) (n : ℕ) : Addr → Option SocketAddr × List Action
  | .ip s => (some s, [])
  | .domain h p => (env.lookupHost n h p, [.lookup h p])

/-- Hand a datagram over; an error is ignored and nothing has been sent. -/
def hand (env : MuxEnv) (n : ℕ) (via : Via) (data : List UInt8) : List Action :=
  if env.delivers n via then [.send via data] else []

/-- A datagram that states no target: the only cascade session, or the local socket's
connected peer. -/
def sendUntargeted (env : MuxEnv) (n : ℕ) (sess : UdpSession) (data : List UInt8) : List Action :=
  if sess.chain.keys.length = 1 then
    match sess.chain.entries.head? with
    | some link => hand env n (.cascade link.2.endpoint) data
    | none => []
  else
    match sess.direct with
    | some _ => hand env n (.socket none) data
    | none => []

/-- A datagram for a chained target, whose address is only a label here. -/
def sendChained (env : MuxEnv) (n : ℕ) (sess : UdpSession) (chain : ChainOutbound) (t : Addr)
    (data : List UInt8) : UdpSession × List Action :=
  match resolve env n t with
  | (none, looked) => (sess, looked)
  | (some addr, looked) =>
    match sess.chain.lookup addr with
    | some link => (sess, looked ++ hand env n (.cascade link.endpoint) data)
    | none =>
      if env.dialUdp n chain (endpointOf t) then
        ({ sess with chain := sess.chain.insert addr ⟨chain, endpointOf t⟩ },
          looked ++ [.dial chain (endpointOf t)] ++ hand env n (.cascade (endpointOf t)) data)
      else (sess, looked ++ [.dial chain (endpointOf t)])

/-- A socket of the family of the first local target. -/
def openDirect (env : MuxEnv) (n : ℕ) (ipv6 : Bool) : Option DirectLink :=
  if env.bindUdp n ipv6 then some ⟨ipv6⟩ else none

/-- A datagram from the local socket, which is opened by the first one. -/
def sendLocal (env : MuxEnv) (n : ℕ) (sess : UdpSession) (t : Addr) (data : List UInt8) :
    UdpSession × List Action :=
  match resolve env n t with
  | (none, looked) => (sess, looked)
  | (some addr, looked) =>
    match sess.direct with
    | some _ => (sess, looked ++ hand env n (.socket (some addr)) data)
    | none =>
      match openDirect env n addr.isIpv6 with
      | some d =>
        ({ sess with direct := some d },
          looked ++ [.bind addr.isIpv6] ++ hand env n (.socket (some addr)) data)
      | none => (sess, looked ++ [.bind addr.isIpv6])

/-- `send_datagram`: the egress the routing table picks for a stated target. -/
def sendDatagram (env : MuxEnv) (router : Router) (outbounds : Outbounds) (n : ℕ)
    (sess : UdpSession) (target : Option Addr) (data : List UInt8) : UdpSession × List Action :=
  match target with
  | none => (sess, sendUntargeted env n sess data)
  | some t =>
    match outbounds.get (router.route (endpointOf t)) with
    | some chain => sendChained env n sess chain t data
    | none => sendLocal env n sess t data

/-! ## The relay -/

/-- Un-pad an inbound chunk when the stream rides inside Vision. -/
def devision (unp : Option Unpadder) (data : List UInt8) : Option Unpadder × List UInt8 :=
  match unp with
  | some u => (some (u.push data).1, (u.push data).2)
  | none => (none, data)

/-- `chunks(max)`, by recursion on fuel. -/
def chunksOf (max : ℕ) : ℕ → List UInt8 → List (List UInt8)
  | 0, _ => []
  | fuel + 1, l => if l = [] then [] else l.take max :: chunksOf max fuel (l.drop max)

/-- The loop of `revision`: the last chunk closes the padding. -/
def revisionLoop (draw : ℕ → ℕ) : ℕ → Option Uuid → List (List UInt8) → List UInt8
  | _, _, [] => []
  | i, uuidOnce, chunk :: chunks =>
    let command := if chunks = [] then commandPaddingEnd else commandPaddingContinue
    let r := xtlsPadding chunk command uuidOnce false defaultSeed (draw i)
    r.1 ++ revisionLoop draw (i + 1) r.2 chunks

/-- Vision-pad the first downlink frame.  `draw` are the random padding lengths. -/
def revision (uuid : Uuid) (frame : List UInt8) (draw : ℕ → ℕ) : List UInt8 :=
  if frame = [] then
    (xtlsPadding [] commandPaddingEnd (some uuid) false defaultSeed (draw 0)).1
  else revisionLoop draw 0 (some uuid) (chunksOf (bufSize - 21) frame.length frame)

/-- A frame that has been handled: how many were before it, the sub-session it found
and what was done for it. -/
structure Handled where
  index : ℕ
  frame : Frame
  before : UdpSession
  actions : List Action

/-- Why the relay returned an error. -/
inductive RelayError where
  | frame (e : MuxError)
  | io
  deriving DecidableEq

structure Relay where
  unp : Option Unpadder
  downlinkPad : Option Uuid
  inbuf : List UInt8
  sessions : AList fun _ : UInt16 => UdpSession
  log : List Handled
  written : List (List UInt8)
  /-- The result, once the loop has been left. -/
  ended : Option (Except RelayError Unit)

/-- What the loop wakes up for. -/
inductive Event where
  | chunk (pt : List UInt8)
  | eof
  | readFailed
  | idle
  /-- A datagram for the client, the padding draws and whether it could be written. -/
  | response (sid : UInt16) (src : SocketAddr) (data : List UInt8) (draw : ℕ → ℕ) (ok : Bool)

/-- The sub-session of a frame, created on first sight. -/
def Relay.session (s : Relay) (sid : UInt16) : UdpSession :=
  (s.sessions.lookup sid).getD .default

/-- What a `New` or `Keep` frame does with its sub-session. -/
def serve (env : MuxEnv) (router : Router) (outbounds : Outbounds) (n : ℕ) (sess : UdpSession)
    (f : Frame) : UdpSession × List Action :=
  match f.data with
  | some data => sendDatagram env router outbounds n sess f.target data
  | none => (sess, [])

/-- One turn of the drain loop: act on a frame. -/
def dispatch (env : MuxEnv) (router : Router) (outbounds : Outbounds) (s : Relay) (f : Frame) :
    Relay :=
  if f.status = statusNew ∨ f.status = statusKeep then
    let r := serve env router outbounds s.log.length (s.session f.sid) f
    { s with
      sessions := s.sessions.insert f.sid r.1
      log := s.log ++ [⟨s.log.length, f, s.session f.sid, r.2⟩] }
  else if f.status = statusEnd then
    { s with
      sessions := s.sessions.erase f.sid
      log := s.log ++ [⟨s.log.length, f, s.session f.sid, []⟩] }
  else if f.status = statusKeepalive then
    { s with log := s.log ++ [⟨s.log.length, f, s.session f.sid, []⟩] }
  else { s with ended := some (.error (.frame .unknownStatus)) }

/-- Drain the complete frames of the buffer.  Every frame takes bytes, so the length of
the buffer is enough fuel. -/
def drainLoop (env : MuxEnv) (router : Router) (outbounds : Outbounds) : ℕ → Relay → Relay
  | 0, s => s
  | fuel + 1, s =>
    match parseFrame s.inbuf with
    | .error e => { s with ended := some (.error (.frame e)) }
    | .ok none => s
    | .ok (some (f, rest)) =>
      let t := dispatch env router outbounds { s with inbuf := rest } f
      if t.ended.isSome then t else drainLoop env router outbounds fuel t

def drain (env : MuxEnv) (router : Router) (outbounds : Outbounds) (s : Relay) : Relay :=
  drainLoop env router outbounds s.inbuf.length s

/-- Plaintext arrives. -/
def Relay.feed (s : Relay) (pt : List UInt8) : Relay :=
  { s with unp := (devision s.unp pt).1, inbuf := s.inbuf ++ (devision s.unp pt).2 }

/-- A response leaves, the first one padded. -/
def Relay.respond (s : Relay) (frame : List UInt8) (draw : ℕ → ℕ) : Relay :=
  match s.downlinkPad with
  | some uuid => { s with downlinkPad := none, written := s.written ++ [revision uuid frame draw] }
  | none => { s with written := s.written ++ [frame] }

/-- The relay before it reads: what was read past the request is drained. -/
def start (env : MuxEnv) (router : Router) (outbounds : Outbounds) (visionUuid : Option Uuid)
    (leftover : List UInt8) : Relay :=
  let idle : Relay := ⟨visionUuid.map Unpadder.new, visionUuid, [], ∅, [], [], none⟩
  drain env router outbounds (idle.feed leftover)

/-- One event of the loop of `mux_relay`; none happens after the loop has been left. -/
def step (env : MuxEnv) (router : Router) (outbounds : Outbounds) (s : Relay) (e : Event) :
    Option Relay :=
  if s.ended.isSome then none
  else
    match e with
    | .chunk pt => some (drain env router outbounds (s.feed pt))
    | .eof => some { s with ended := some (.ok ()) }
    | .idle => some { s with ended := some (.ok ()) }
    | .readFailed => some { s with ended := some (.error .io) }
    | .response sid src data draw ok =>
      if ok then some (drain env router outbounds (s.respond (keepFrame sid src data) draw))
      else some { s with downlinkPad := none, ended := some (.error .io) }

@[simp] theorem dispatch_inbuf (env : MuxEnv) (router : Router) (outbounds : Outbounds) (s : Relay)
    (f : Frame) : (dispatch env router outbounds s f).inbuf = s.inbuf := by
  unfold dispatch
  split_ifs <;> rfl

/-! ## Induction over the frames of a run -/

/-- The frames that are served. -/
def Frame.Served (f : Frame) : Prop := f.status = statusNew ∨ f.status = statusKeep

instance : DecidablePred Frame.Served := fun f =>
  inferInstanceAs (Decidable (f.status = statusNew ∨ f.status = statusKeep))

section Induct

variable {env : MuxEnv} {router : Router} {outbounds : Outbounds}

/-- A statement about sub-sessions and log that every frame preserves is preserved by the
drain loop. -/
theorem drainLoop_induct {Inv : (AList fun _ : UInt16 => UdpSession) → List Handled → Prop}
    (hdispatch : ∀ s f, (f.target ≠ none → f.Served) → Inv s.sessions s.log →
      Inv (dispatch env router outbounds s f).sessions (dispatch env router outbounds s f).log)
    (fuel : ℕ) (s : Relay) (hs : Inv s.sessions s.log) :
    Inv (drainLoop env router outbounds fuel s).sessions
      (drainLoop env router outbounds fuel s).log := by
  induction fuel generalizing s with
  | zero => exact hs
  | succ fuel ih =>
    rw [drainLoop]
    split
    · exact hs
    · exact hs
    · next f rest hparse =>
      have hf := hdispatch { s with inbuf := rest } f (parseFrame_status hparse) hs
      simp only
      split
      · exact hf
      · exact ih _ hf

theorem respond_log (s : Relay) (frame : List UInt8) (draw : ℕ → ℕ) :
    (s.respond frame draw).log = s.log := by
  unfold Relay.respond
  split <;> rfl

theorem respond_sessions (s : Relay) (frame : List UInt8) (draw : ℕ → ℕ) :
    (s.respond frame draw).sessions = s.sessions := by
  unfold Relay.respond
  split <;> rfl

/-- **What every frame preserves, every run preserves.** -/
theorem run_induct (Inv : (AList fun _ : UInt16 => UdpSession) → List Handled → Prop)
    (hinit : Inv ∅ [])
    (hdispatch : ∀ s f, (f.target ≠ none → f.Served) → Inv s.sessions s.log →
      Inv (dispatch env router outbounds s f).sessions (dispatch env router outbounds s f).log)
    {visionUuid : Option Uuid} {leftover : List UInt8} {events : List Event} {s : Relay}
    (hrun : run (step env router outbounds)
      (start env router outbounds visionUuid leftover) events = some s) :
    Inv s.sessions s.log := by
  have hstep : ∀ s e t, Inv s.sessions s.log → step env router outbounds s e = some t →
      Inv t.sessions t.log := by
    intro s e t hs h
    unfold step at h
    split at h
    · cases h
    · cases e with
      | chunk pt =>
        cases h
        exact drainLoop_induct hdispatch _ _ hs
      | eof =>
        cases h
        exact hs
      | readFailed =>
        cases h
        exact hs
      | idle =>
        cases h
        exact hs
      | response sid src data draw ok =>
        simp only at h
        split at h
        · cases h
          refine drainLoop_induct hdispatch _ _ ?_
          rw [respond_log, respond_sessions]
          exact hs
        · cases h
          exact hs
  exact run_inv hstep events (drainLoop_induct hdispatch _ _ hinit) hrun

end Induct

/-! ## The log is faithful -/

/-- An entry of the log records what its frame does with the sub-session it found, and
only frames that are served state a target. -/
structure Handled.Faithful (env : MuxEnv) (router : Router) (outbounds : Outbounds)
    (h : Handled) : Prop where
  actions_eq : h.frame.status = statusNew ∨ h.frame.status = statusKeep →
    h.actions = (serve env router outbounds h.index h.before h.frame).2
  served : h.frame.target ≠ none → h.frame.status = statusNew ∨ h.frame.status = statusKeep

section Log

variable {env : MuxEnv} {router : Router} {outbounds : Outbounds}

/-- Handling a frame adds at most one entry to the log, and a faithful one. -/
theorem dispatch_log {s : Relay} {f : Frame}
    (hf : f.target ≠ none → f.status = statusNew ∨ f.status = statusKeep) :
    ∀ h ∈ (dispatch env router outbounds s f).log,
      h ∈ s.log ∨ h.Faithful env router outbounds := by
  intro h hmem
  -- the two branches that only log: their frames are not served
  have hidle : ∀ h ∈ s.log ++ [(⟨s.log.length, f, s.session f.sid, []⟩ : Handled)],
      ¬(f.status = statusNew ∨ f.status = statusKeep) →
        h ∈ s.log ∨ h.Faithful env router outbounds := by
    intro h hmem hserved
    rcases List.mem_append.mp hmem with hold | hnew
    · exact Or.inl hold
    · rw [List.mem_singleton.mp hnew]
      exact Or.inr ⟨fun hs => absurd hs hserved, hf⟩
  unfold dispatch at hmem
  split at hmem
  · rcases List.mem_append.mp hmem with hold | hnew
    · exact Or.inl hold
    · rw [List.mem_singleton.mp hnew]
      exact Or.inr ⟨fun _ => rfl, hf⟩
  · next hserved =>
    split at hmem
    · exact hidle h hmem hserved
    · split at hmem
      · exact hidle h hmem hserved
      · exact Or.inl hmem

/-- **Every run logs what its frames did.** -/
theorem run_log {visionUuid : Option Uuid} {leftover : List UInt8} {events : List Event}
    {s : Relay}
    (hrun : run (step env router outbounds)
      (start env router outbounds visionUuid leftover) events = some s) :
    ∀ h ∈ s.log, h.Faithful env router outbounds := by
  refine run_induct (fun _ log => ∀ h ∈ log, h.Faithful env router outbounds)
    (fun _ hmem => absurd hmem List.not_mem_nil) ?_ hrun
  intro s f hf hs h hmem
  rcases dispatch_log hf h hmem with hold | hnew
  · exact hs h hold
  · exact hnew

end Log

/-! ## Blocked targets -/

/-- The datagrams sent for a frame. -/
def Handled.datagrams (h : Handled) : List (Via × List UInt8) := h.actions.filterMap Action.datagram

/-- The frame states a target that the table maps to one of the two blocking tags. -/
def Handled.Blocked (router : Router) (h : Handled) : Prop :=
  ∃ t, h.frame.target = some t ∧ isBlocked (router.route (endpointOf t)) = true

/-- The network stops what would leave from the local socket: the frame has no data, its
target does not resolve, there is no socket and none can be bound, or the send fails. -/
def Handled.Stopped (env : MuxEnv) (h : Handled) : Prop :=
  ∀ data t addr, h.frame.data = some data → h.frame.target = some t →
    (resolve env h.index t).1 = some addr →
      (h.before.direct = none ∧ env.bindUdp h.index addr.isIpv6 = false) ∨
        env.delivers h.index (.socket (some addr)) = false

theorem get_eq_none_of_isBlocked {outbounds : Outbounds} (hblock : outbounds.get "block" = none)
    (hblackhole : outbounds.get "blackhole" = none) {tag : String} (h : isBlocked tag = true) :
    outbounds.get tag = none := by
  rcases of_decide_eq_true h with rfl | rfl
  · exact hblock
  · exact hblackhole

@[simp] theorem resolve_datagrams (env : MuxEnv) (n : ℕ) (t : Addr) :
    (resolve env n t).2.filterMap Action.datagram = [] := by
  cases t <;> rfl

theorem hand_datagrams (env : MuxEnv) (n : ℕ) (via : Via) (data : List UInt8) :
    (hand env n via data).filterMap Action.datagram =
      if env.delivers n via then [(via, data)] else [] := by
  unfold hand
  split <;> rfl

theorem hand_datagrams_eq_nil_iff (env : MuxEnv) (n : ℕ) (via : Via) (data : List UInt8) :
    (hand env n via data).filterMap Action.datagram = [] ↔ env.delivers n via = false := by
  rw [hand_datagrams]
  split <;> simp_all

/-- What keeps a datagram from leaving the local socket. -/
theorem sendLocal_datagrams_eq_nil_iff (env : MuxEnv) (n : ℕ) (sess : UdpSession) (t : Addr)
    (data : List UInt8) :
    (sendLocal env n sess t data).2.filterMap Action.datagram = [] ↔
      ∀ addr, (resolve env n t).1 = some addr →
        (sess.direct = none ∧ env.bindUdp n addr.isIpv6 = false) ∨
          env.delivers n (.socket (some addr)) = false := by
  have hlooked := resolve_datagrams env n t
  unfold sendLocal
  rcases hres : resolve env n t with ⟨_ | addr, looked⟩
  · rw [hres] at hlooked
    simpa using hlooked
  · rw [hres] at hlooked
    simp only [Option.some.injEq, forall_eq']
    cases hdirect : sess.direct with
    | some d =>
      simp only [List.filterMap_append, hlooked, List.nil_append, hand_datagrams_eq_nil_iff,
        reduceCtorEq, false_and, false_or]
    | none =>
      cases hbind : env.bindUdp n addr.isIpv6 with
      | false =>
        simp only [openDirect, hbind, Bool.false_eq_true, if_false, List.filterMap_append, hlooked,
          List.nil_append, and_self, true_or, iff_true]
        rfl
      | true =>
        have hbound : [Action.bind addr.isIpv6].filterMap Action.datagram = [] := rfl
        simp only [openDirect, hbind, if_true, List.filterMap_append, hlooked, hbound,
          List.nil_append, hand_datagrams_eq_nil_iff, Bool.true_eq_false, and_false, false_or]

/-- A served frame whose target selects no chain leaves no datagram exactly when the
network stops it. -/
theorem Handled.datagrams_eq_nil_iff {env : MuxEnv} {router : Router} {outbounds : Outbounds}
    {h : Handled} (hf : h.Faithful env router outbounds) {t : Addr}
    (ht : h.frame.target = some t)
    (hlocal : outbounds.get (router.route (endpointOf t)) = none) :
    h.datagrams = [] ↔ h.Stopped env := by
  have hserved := hf.served (by rw [ht]; exact Option.some_ne_none t)
  unfold Handled.datagrams Handled.Stopped
  rw [hf.actions_eq hserved, serve]
  cases hdata : h.frame.data with
  | none => simp
  | some data =>
    simp only [sendDatagram, ht, hlocal, sendLocal_datagrams_eq_nil_iff]
    constructor
    · intro hall data' t' addr hd hteq hres
      cases hteq
      exact hall addr hres
    · intro hall addr hres
      exact hall data t addr rfl rfl hres

/-- **What becomes of blocked frames.**  In every run in which no chain bears a blocking
tag, the frames stated for blocked targets send nothing if and only if the network stops
each of them. -/
theorem blocked_frames_silent_iff (env : MuxEnv) (router : Router) (outbounds : Outbounds)
    (hblock : outbounds.get "block" = none) (hblackhole : outbounds.get "blackhole" = none)
    (visionUuid : Option Uuid) (leftover : List UInt8) (events : List Event) (s : Relay)
    (hrun : run (step env router outbounds)
      (start env router outbounds visionUuid leftover) events = some s) :
    (∀ h ∈ s.log, h.Blocked router → h.datagrams = []) ↔
      ∀ h ∈ s.log, h.Blocked router → h.Stopped env := by
  have hlog := run_log hrun
  refine forall_congr' fun h => forall_congr' fun hmem => forall_congr' fun hb => ?_
  obtain ⟨t, ht, htag⟩ := hb
  exact Handled.datagrams_eq_nil_iff (hlog h hmem) ht
    (get_eq_none_of_isBlocked hblock hblackhole htag)

/-- A network on which everything works and names resolve to one address. -/
def openNet : MuxEnv where
  lookupHost := fun _ _ port => some ⟨.v4 (10 ::ᵥ 0 ::ᵥ 0 ::ᵥ 1 ::ᵥ .nil), port⟩
  dialUdp := fun _ _ _ => true
  bindUdp := fun _ _ => true
  delivers := fun _ _ => true

/-- The table that blocks everything. -/
def blockAll : Router := ⟨[], "block"⟩

/-- `New`, with data, for UDP to 10.0.0.1:53: one byte. -/
def blockedFrame : List UInt8 :=
  [0, 12, 0, 7, 1, 1, 2, 0, 53, 1, 10, 0, 0, 1, 0, 1, 42]

theorem blocked_frames_silent_iff_blockAll :
    (∀ h ∈ (start openNet blockAll .empty none blockedFrame).log,
        h.Blocked blockAll → h.datagrams = []) ↔
      ∀ h ∈ (start openNet blockAll .empty none blockedFrame).log,
        h.Blocked blockAll → h.Stopped openNet :=
  blocked_frames_silent_iff openNet blockAll .empty rfl rfl none blockedFrame [] _ rfl

/-- A blocked target is served from the local socket. -/
theorem blocked_frame_sent :
    ∃ h ∈ (start openNet blockAll .empty none blockedFrame).log, h.Blocked blockAll ∧
      h.datagrams = [(.socket (some ⟨.v4 ⟨[10, 0, 0, 1], rfl⟩, 53⟩), [42])] := by
  refine ⟨_, List.mem_singleton.mpr rfl, ⟨.ip ⟨.v4 ⟨[10, 0, 0, 1], rfl⟩, 53⟩, ?_, ?_⟩, ?_⟩
  · rfl
  · decide
  · rfl

end Mux
end HoldTheDonut
