import HoldTheDonut.Interaction.Guard
import HoldTheDonut.Machine.Run
import HoldTheDonut.Server.Proxy
import HoldTheDonut.Server.Triage
import Mathlib.Algebra.BigOperators.Group.List.Basic
import Mathlib.Algebra.Order.BigOperators.Group.List

/-!
# `donut-server/src/metrics.rs`: the gauge of active sessions

`tunnel_started_kind` counts a session up, in total and under its kind, and returns a guard that
counts it down when it is dropped.  The guards are taken in two places: by the loop that accepts a
connection, around the session handler, and by the handler itself, around the relay.

A session is not defined by its guards.  It is in progress from the response to its request until
the task of its connection has ended, and it is of the kind of the request's command (`tunnel`,
`Connection.session`).  That is read off what happened on the connection: the bytes that were
received, and whether the response was written.

Whether it is counted once depends on both places.  `run_raw_proxy` takes no guard around
`handle_xray_vision_session`, which takes one behind the response for every kind.
`run_reality_proxy` takes one around the same handler, from the handshake on, so each of its
sessions is counted twice, and a caller that the handler relays to the decoy is counted without a
session.  `run_carrier_backend`, and `run_raw_proxy` with donut's own dialect, take one around
`handle_session`, which takes another for `Mux` and `Udp`, but none for `Tcp`: only a `Tcp` session
is counted once, and before the response there is a guard without a session.

The handlers are those of `Server.Proxy` with the guards put in: `forget_handleSession` and
`forget_handleXrayVisionSession`.  Connections are accepted, go on and are dropped in any order, and
the gauges are looked at while every task waits or has ended: between the response and the guard
behind it a task does not wait.  `stacked_task` says which guards a task holds whenever it waits,
the gauges are the numbers of guards that are held (`Tracked`), and `active_gauge_iff` says when
these are the numbers of sessions.
-/

namespace HoldTheDonut
namespace Server

open Interaction Routing
open Wire (Request)

/-! ## The metrics -/

inductive SessionKind where
  | tcp
  | udp
  | mux
  deriving DecidableEq

/-- The counters that connections and guards move.  A guard's two gauges move in one step. -/
structure Metrics where
  connectionsTotal : ℕ
  handshakesTunnel : ℕ
  activeConnections : ℤ
  kindGauge : SessionKind → ℤ

namespace Metrics

def new : Metrics := ⟨0, 0, 0, fun _ => 0⟩

def connectionAccepted (m : Metrics) : Metrics :=
  { m with connectionsTotal := m.connectionsTotal + 1 }

def tunnelStartedKind (m : Metrics) (kind : SessionKind) : Metrics :=
  { m with
    handshakesTunnel := m.handshakesTunnel + 1
    activeConnections := m.activeConnections + 1
    kindGauge := fun k => m.kindGauge k + if k = kind then 1 else 0 }

/-- `ActiveGuard::drop`. -/
def dropGuard (m : Metrics) (kind : SessionKind) : Metrics :=
  { m with
    activeConnections := m.activeConnections - 1
    kindGauge := fun k => m.kindGauge k - if k = kind then 1 else 0 }

end Metrics

/-! ## What a connection awaits -/

/-- The operations of a session, and those in front of it. -/
inductive TaskOp where
  | session (op : Op)
  /-- `selfsteal::triage`. -/
  | triage
  /-- `RecordTlsServer::new_with_prefix`. -/
  | tlsInit (replay : List UInt8)
  /-- `RecordTlsServer::handshake`, with its time limit. -/
  | handshake
  /-- `TlsAcceptor::accept`. -/
  | tlsAccept
  /-- The read of the first decrypted byte. -/
  | peek
  | relayToDecoy (decoy : SocketAddr)

/-- The answers.  A Boolean says whether it succeeded; no triage is an error, and no byte is the
end or an error. -/
def TaskAns : TaskOp → Type
  | .session op => Ans op
  | .triage => Option Triage
  | .tlsInit _ => Bool
  | .handshake => Bool
  | .tlsAccept => Bool
  | .peek => Option UInt8
  | .relayToDecoy _ => Unit

/-- A session handler among the other operations of its connection. -/
def inSession {α : Type} : Handler α → Prog TaskOp TaskAns ProxyError α
  | .pure a => .pure a
  | .fail e => .fail e
  | .ask op next => .ask (.session op) fun x => inSession (next x)
  | .halt => .halt

variable {α : Type}

theorem inSession_bind {β : Type} (p : Handler α) (f : α → Handler β) :
    inSession (p >>= f) = inSession p >>= fun a => inSession (f a) := by
  induction p with
  | pure a => rfl
  | fail e => rfl
  | ask op next ih => exact congrArg (Prog.ask (TaskOp.session op)) (funext ih)
  | halt => rfl

/-- A connection's program, with the guards it holds. -/
abbrev Serving (α : Type) : Type :=
  Prog (GuardOp TaskOp SessionKind) (GuardAns TaskAns) ProxyError α

/-- A part of a handler without a guard. -/
def plain {α : Type} (p : Handler α) : Serving α := (inSession p).lift

/-- One operation in front of the session. -/
def await (o : TaskOp) : Serving (TaskAns o) := (Prog.perform o).lift

theorem plain_bind {β : Type} (p : Handler α) (f : α → Handler β) :
    plain (p >>= f) = plain p >>= fun a => plain (f a) := by
  rw [plain, inSession_bind]
  exact Prog.lift_bind _ _

@[simp] theorem forget_plain (p : Handler α) : (plain p).forget = inSession p :=
  Prog.forget_lift _

/-! ## The handlers with their guards -/

namespace Guarded

/-- `Command::Udp`: the guard is there before the dial. -/
def serveUdp (fuel : ℕ) (router : Router) (outbounds : Outbounds) (ep : Endpoint)
    (leftover : List UInt8) : Serving Unit :=
  let tag := router.route ep
  if isBlocked tag then pure ()
  else .hold .udp (plain
    (match outbounds.get tag with
    | some chain => do
      let u ← connect (.chain chain ep .udp)
      respond
      copyBidirectional u leftover
    | none => do
      let addr ← resolve ep
      respond
      visionUdpRelay fuel addr leftover))

/-- Everything behind the credential check; there is no guard for `Command::Tcp`. -/
def serveSession (fuel : ℕ) (dialect : VisionDialect) (router : Router) (outbounds : Outbounds)
    (request : Request) (leftover : List UInt8) : Serving Unit :=
  match request.command with
  | .mux => do
    plain respond
    .hold .mux (plain (muxRelay fuel router outbounds none leftover))
  | .udp => do
    let ep ← plain (Prog.orFail .unsupportedCommand request.target)
    serveUdp fuel router outbounds ep leftover
  | .tcp => do
    let ep ← plain (Prog.orFail .unsupportedCommand request.target)
    plain (serveTcp fuel dialect router outbounds request.flow ep leftover)

def ifAuthorized (request : Request) (serve : Serving Unit) : Serving Unit := do
  let users ← plain (perform .loadUsers)
  if UserAuth.isAuthorized users request.user then serve else pure ()

def handleSession (fuel : ℕ) (dialect : VisionDialect) (router : Router) (outbounds : Outbounds) :
    Serving Unit := do
  let r ← plain (readHeader fuel [])
  ifAuthorized r.1 (serveSession fuel dialect router outbounds r.1 r.2)

/-- `Command::Udp` inside the outer TLS: the guard comes behind the response. -/
def serveXrayUdp (fuel : ℕ) (outbounds : Outbounds) (tag : String) (ep : Endpoint)
    (leftover : List UInt8) : Serving Unit :=
  match outbounds.get tag with
  | some chain => do
    let u ← plain (connect (.chain chain ep .udp))
    plain respond
    .hold .udp (plain (tlsPlainRelay fuel u leftover))
  | none => do
    let addr ← plain (resolve ep)
    plain respond
    .hold .udp (plain (visionUdpRelay fuel addr leftover))

def serveXrayTcp (fuel : ℕ) (outbounds : Outbounds) (tag : String) (request : Request)
    (ep : Endpoint) (leftover : List UInt8) : Serving Unit := do
  let u ← plain (dialTcp outbounds tag ep outbounds.fragment)
  plain respond
  .hold .tcp (plain
    (match request.flow with
    | .extended => perform (.visionServerSplice u request.user leftover) >>= orIo
    | .none => tlsPlainRelay fuel u leftover))

def serveXraySession (fuel : ℕ) (router : Router) (outbounds : Outbounds) (request : Request)
    (leftover : List UInt8) : Serving Unit :=
  match request.command, request.target with
  | .mux, _ => do
    plain respond
    .hold .mux (plain (muxRelay fuel router outbounds
      (if request.flow = .extended then some request.user else none) leftover))
  | .tcp, some ep =>
    let tag := router.route ep
    if isBlocked tag then pure () else serveXrayTcp fuel outbounds tag request ep leftover
  | .udp, some ep =>
    let tag := router.route ep
    if isBlocked tag then pure () else serveXrayUdp fuel outbounds tag ep leftover
  | _, none => .fail .unsupportedCommand

def handleXrayVisionSession (fuel : ℕ) (decoy : Option SocketAddr) (router : Router)
    (outbounds : Outbounds) : Serving Unit := do
  match ← plain (readRecordHeader decoy fuel []) with
  | none => pure ()
  | some r => ifAuthorized r.1 (serveXraySession fuel router outbounds r.1 r.2)

end Guarded

/-- **The handlers are those of `Server.Proxy`**, apart from their guards. -/
theorem forget_serveSession (fuel : ℕ) (dialect : VisionDialect) (router : Router)
    (outbounds : Outbounds) (request : Request) (leftover : List UInt8) :
    (Guarded.serveSession fuel dialect router outbounds request leftover).forget =
      inSession (serveSession fuel dialect router outbounds request leftover) := by
  unfold Guarded.serveSession serveSession
  cases request.command with
  | mux => simp [inSession_bind]
  | tcp => simp [inSession_bind]
  | udp =>
    simp only [Prog.forget_bind, forget_plain, inSession_bind]
    refine congrArg _ (funext fun ep => ?_)
    unfold Guarded.serveUdp serveUdp
    simp only
    split
    · rfl
    · cases outbounds.get (router.route ep) <;> simp

theorem forget_ifAuthorized {request : Request} {guarded : Serving Unit} {serve : Handler Unit}
    (h : guarded.forget = inSession serve) :
    (Guarded.ifAuthorized request guarded).forget = inSession (ifAuthorized request serve) := by
  unfold Guarded.ifAuthorized ifAuthorized
  rw [Prog.forget_bind, forget_plain, inSession_bind]
  refine congrArg _ (funext fun users => ?_)
  split
  · exact h
  · rfl

theorem forget_handleSession (fuel : ℕ) (dialect : VisionDialect) (router : Router)
    (outbounds : Outbounds) :
    (Guarded.handleSession fuel dialect router outbounds).forget =
      inSession (handleSession fuel dialect router outbounds) := by
  unfold Guarded.handleSession handleSession
  rw [Prog.forget_bind, forget_plain, inSession_bind]
  exact congrArg _ (funext fun r => forget_ifAuthorized
    (forget_serveSession fuel dialect router outbounds r.1 r.2))

theorem forget_serveXraySession (fuel : ℕ) (router : Router) (outbounds : Outbounds)
    (request : Request) (leftover : List UInt8) :
    (Guarded.serveXraySession fuel router outbounds request leftover).forget =
      inSession (serveXraySession fuel router outbounds request leftover) := by
  unfold Guarded.serveXraySession serveXraySession
  cases request.command with
  | mux => simp [inSession_bind]
  | tcp =>
    cases request.target with
    | none => rfl
    | some ep =>
      simp only
      split
      · rfl
      · unfold Guarded.serveXrayTcp serveXrayTcp
        cases request.flow <;> simp [inSession_bind]
  | udp =>
    cases request.target with
    | none => rfl
    | some ep =>
      simp only
      split
      · rfl
      · unfold Guarded.serveXrayUdp serveXrayUdp
        cases outbounds.get (router.route ep) <;> simp [inSession_bind]

theorem forget_handleXrayVisionSession (fuel : ℕ) (decoy : Option SocketAddr) (router : Router)
    (outbounds : Outbounds) :
    (Guarded.handleXrayVisionSession fuel decoy router outbounds).forget =
      inSession (handleXrayVisionSession fuel decoy router outbounds) := by
  unfold Guarded.handleXrayVisionSession handleXrayVisionSession
  rw [Prog.forget_bind, forget_plain, inSession_bind]
  refine congrArg _ (funext fun header => ?_)
  cases header with
  | none => rfl
  | some r =>
    exact forget_ifAuthorized (forget_serveXraySession fuel router outbounds r.1 r.2)

/-! ## The three listeners -/

/-- The task `run_reality_proxy` starts for a connection. -/
def runRealityProxy (fuel : ℕ) (dest : SocketAddr) (router : Router) (outbounds : Outbounds) :
    Serving Unit := do
  let triaged : Option Triage ← await .triage
  match triaged with
  | none => pure ()
  | some .forwarded => pure ()
  | some (.tunnel replay _) => do
    let ready : Bool ← await (.tlsInit replay)
    if ready then do
      let done : Bool ← await .handshake
      if done then
        .hold .tcp (Guarded.handleXrayVisionSession fuel (some dest) router outbounds).ignoring
      else pure ()
    else pure ()

/-- The task `run_carrier_backend` starts for a carrier session. -/
def runCarrierBackend (fuel : ℕ) (router : Router) : Serving Unit :=
  .hold .tcp (Guarded.handleSession fuel .donut router .empty).ignoring

/-- The task `run_raw_proxy` starts for a connection. -/
def runRawProxy (fuel : ℕ) (dialect : VisionDialect) (decoy : Option SocketAddr)
    (router : Router) : Serving Unit :=
  match dialect with
  | .xray => do
    let ready : Bool ← await (.tlsInit [])
    if ready then do
      let done : Bool ← await .handshake
      if done then (Guarded.handleXrayVisionSession fuel decoy router .empty).ignoring
      else pure ()
    else pure ()
  | .donut => do
    let accepted : Bool ← await .tlsAccept
    if accepted then do
      let first : Option UInt8 ← await .peek
      match first with
      | none => pure ()
      | some b =>
        if b = Wire.version then
          .hold .tcp (Guarded.handleSession fuel .donut router .empty).ignoring
        else
          match decoy with
          | some d => await (.relayToDecoy d)
          | none => pure ()
    else pure ()

inductive Listener where
  | reality (dest : SocketAddr) (router : Router) (outbounds : Outbounds)
  | carrierBackend (router : Router)
  | raw (dialect : VisionDialect) (decoy : Option SocketAddr) (router : Router)

/-- The task of a connection. -/
def Listener.task (fuel : ℕ) : Listener → Serving Unit
  | .reality dest router outbounds => runRealityProxy fuel dest router outbounds
  | .carrierBackend router => runCarrierBackend fuel router
  | .raw dialect decoy router => runRawProxy fuel dialect decoy router

/-! ## What has happened on a connection -/

/-- The operations of a connection so far, with their answers. -/
abbrev History : Type := List (Entry TaskOp TaskAns)

/-- Has an answer of this kind come? -/
def Seen (mark : (o : TaskOp) → TaskAns o → Bool) (h : History) : Bool :=
  h.any fun e => mark e.1 e.2

/-- The response to the request has been written. -/
def answers : (o : TaskOp) → TaskAns o → Bool
  | .session (.respond _), ok => ok
  | _, _ => false

/-- The handshake with the peer is done. -/
def handshook : (o : TaskOp) → TaskAns o → Bool
  | .handshake, done => done
  | _, _ => false

/-- The first byte is the version. -/
def versionRead : (o : TaskOp) → TaskAns o → Bool
  | .peek, some b => decide (b = Wire.version)
  | _, _ => false

/-- The operations of the session handler. -/
def handled (h : History) : List (Entry Op Ans) :=
  h.filterMap fun e =>
    match e with
    | ⟨.session op, x⟩ => some ⟨op, x⟩
    | _ => none

def SessionKind.ofCommand : Command → SessionKind
  | .tcp => .tcp
  | .udp => .udp
  | .mux => .mux

/-- **The tunnel session of a connection**: a request was decoded and has been answered.  It is of
the kind of the command. -/
def tunnel (h : History) : Option SessionKind :=
  if Seen answers h then
    match Request.decode (received (handled h)) with
    | .ok r => some (.ofCommand r.1.command)
    | .error _ => none
  else none

/-- A request of this kind was decoded. -/
def Asked (h : History) (k : SessionKind) : Prop :=
  ∃ r, Request.decode (received (handled h)) = .ok r ∧ SessionKind.ofCommand r.1.command = k

section Histories

variable {mark : (o : TaskOp) → TaskAns o → Bool} {h h' : History} {k : SessionKind}

theorem seen_of_isPrefix (hh : h <+: h') (hseen : Seen mark h = true) : Seen mark h' = true := by
  obtain ⟨rest, rfl⟩ := hh
  rw [Seen, List.any_append, Bool.or_eq_true]
  exact Or.inl hseen

theorem Asked.of_isPrefix (hh : h <+: h') (hask : Asked h k) : Asked h' k := by
  obtain ⟨rest, rfl⟩ := hh
  obtain ⟨r, hdecode, hkind⟩ := hask
  refine ⟨(r.1, r.2 ++ received (handled rest)), ?_, hkind⟩
  rw [handled, List.filterMap_append, received_append]
  exact Wire.incremental_decode.ok_append hdecode _

theorem tunnel_of_unanswered (hquiet : Seen answers h = false) : tunnel h = none := by
  rw [tunnel, hquiet]
  rfl

theorem tunnel_of_asked (hseen : Seen answers h = true) (hask : Asked h k) :
    tunnel h = some k := by
  obtain ⟨r, hdecode, hkind⟩ := hask
  rw [tunnel, hseen, hdecode, ← hkind]
  rfl

/-- A session stays the one it is. -/
theorem tunnel_of_isPrefix (hh : h <+: h') (htunnel : tunnel h = some k) : tunnel h' = some k := by
  unfold tunnel at htunnel
  split at htunnel
  · next hseen =>
    split at htunnel
    · next r hdecode =>
      exact tunnel_of_asked (seen_of_isPrefix hh hseen)
        (Asked.of_isPrefix hh ⟨r, hdecode, Option.some.inj htunnel⟩)
    · cases htunnel
  · cases htunnel

end Histories

/-! ## What is done before the response -/

/-- Anything but the response. -/
def Op.NotResponse (op : Op) : Prop := ∀ bytes, op ≠ .respond bytes

def Calm (o : TaskOp) : Prop := ∀ bytes, o ≠ .session (.respond bytes)

theorem answers_eq_false {o : TaskOp} (ho : Calm o) (x : TaskAns o) : answers o x = false := by
  cases o with
  | session op =>
    cases op with
    | respond bytes => exact absurd rfl (ho bytes)
    | _ => rfl
  | _ => rfl

theorem unanswered_of_along {h h' : History} (hh : Along Calm h h')
    (hquiet : Seen answers h = false) : Seen answers h' = false := by
  obtain ⟨rest, rfl, hrest⟩ := hh
  have hnone : Seen answers rest = false := by
    rw [Seen, List.any_eq_false]
    intro e he
    rw [answers_eq_false (hrest e he)]
    exact Bool.false_ne_true
  rw [Seen, List.any_append]
  exact Bool.or_eq_false_iff.mpr ⟨hquiet, hnone⟩

theorem only_inSession {R : α → Prop} {p : Handler α} (hp : Only Op.NotResponse R p) :
    Only Calm R (inSession p) := by
  induction p with
  | pure a => exact hp
  | fail e => trivial
  | ask op next ih =>
    refine ⟨fun bytes heq => hp.1 bytes ?_, fun x => ih x (hp.2 x)⟩
    cases heq
    rfl
  | halt => trivial

/-- The rules of a handler hold of its part of a connection. -/
theorem ensures_inSession {ok : List (Entry Op Ans) → Op → Prop}
    {Q : List (Entry Op Ans) → α → Prop} {p : Handler α} (h : History)
    (hp : Ensures ok Q (handled h) p) :
    Ensures (fun _ _ => True) (fun h' a => Q (handled h') a) h (inSession p) := by
  induction p generalizing h with
  | pure a => exact hp
  | fail e => trivial
  | ask op next ih =>
    refine ⟨trivial, fun x => ih x _ ?_⟩
    rw [handled, List.filterMap_append]
    exact hp.2 x
  | halt => trivial

/-- A handler that does not answer. -/
abbrev Silent {α : Type} (p : Handler α) : Prop := Only Op.NotResponse (fun _ => True) p

theorem silent_perform {op : Op} (h : op.NotResponse) : Silent (perform op) :=
  Only.perform (P := Op.NotResponse) h

theorem notResponse_of_onUpstream {d : SocketAddr} {op : Op} (h : OnUpstream (.decoy d) op) :
    op.NotResponse := by
  rintro bytes rfl
  rcases h with hfree | hdecoy
  · cases hfree
  · cases hdecoy

theorem dials_notResponse : Dials Op.NotResponse :=
  ⟨fun _ _ h => (by cases h), fun _ _ _ h => (by cases h)⟩

theorem silent_decodeHeader {buf : List UInt8} {found : Request × List UInt8 → α} {more : Handler α}
    (h : Silent more) : Silent (decodeHeader buf found more) := by
  unfold decodeHeader
  split
  · trivial
  · split
    · exact h
    · trivial

theorem silent_readHeader (fuel : ℕ) (buf : List UInt8) : Silent (readHeader fuel buf) := by
  induction fuel generalizing buf with
  | zero => trivial
  | succ fuel ih =>
    refine (silent_perform fun _ h => by cases h).bind fun x _ => ?_
    match x with
    | none => trivial
    | some [] => trivial
    | some (b :: bytes) => exact silent_decodeHeader (ih _)

theorem silent_selfSteal (fuel : ℕ) (decoy : Option SocketAddr) (probe : List UInt8) :
    Silent (selfSteal fuel decoy probe) := by
  cases decoy with
  | none => trivial
  | some d =>
    refine (silent_perform fun _ h => by cases h).bind fun ok _ => ?_
    split
    · exact ((only_tlsPlainRelay fuel (.decoy d) probe).mono fun _ =>
        notResponse_of_onUpstream).ignoring
    · trivial

theorem silent_readRecordHeader (fuel : ℕ) (decoy : Option SocketAddr) (buf : List UInt8) :
    Silent (readRecordHeader decoy fuel buf) := by
  induction fuel generalizing buf with
  | zero => trivial
  | succ fuel ih =>
    refine (silent_perform fun _ h => by cases h).bind fun x _ => ?_
    match x with
    | none => trivial
    | some none => trivial
    | some (some []) => trivial
    | some (some (b :: bytes)) =>
      change Only _ _ (if _ then _ else _)
      split
      · exact (silent_selfSteal fuel decoy _).bind fun _ _ => trivial
      · exact silent_decodeHeader (ih _)

/-! ## The guards of the handlers -/

/-- Since `start` nothing has been answered. -/
structure Pending (start h : History) : Prop where
  after : start <+: h
  quiet : Seen answers h = false

/-- **From `h` on, with the guards `g` around it**: whenever the program waits, `Inv` holds of what
has happened and of the guards, and it drops what it takes. -/
abbrev Keeps {α : Type} (Inv : History → List SessionKind → Prop) (g : List SessionKind)
    (h : History) (p : Serving α) : Prop :=
  Stacked Inv (fun _ _ => True) g h g p

/-- These guards may be held until the response. -/
abbrev AdmitsBefore (Inv : History → List SessionKind → Prop) (start : History)
    (g : List SessionKind) : Prop :=
  ∀ h, Pending start h → Inv h g

/-- And these in a session of this kind. -/
abbrev AdmitsDuring (Inv : History → List SessionKind → Prop) (start : History) (k : SessionKind)
    (g : List SessionKind) : Prop :=
  ∀ h, start <+: h → tunnel h = some k → Inv h g

section Handlers

variable {Inv : History → List SessionKind → Prop} {g : List SessionKind} {start h : History}
  {k : SessionKind} {R : α → Prop}

/-- The response begins the session. -/
theorem stacked_respond (hask : Asked h k) (hinv : Inv h g) :
    Stacked Inv (fun h' _ => h <+: h' ∧ tunnel h' = some k) g h g (plain respond) := by
  refine ⟨hinv, fun ok => ?_⟩
  have hh : h <+: h ++ [⟨.session (.respond _), ok⟩] := List.prefix_append _ _
  cases ok with
  | false => exact (rfl : g = g)
  | true =>
    refine ⟨rfl, hh, tunnel_of_asked ?_ (Asked.of_isPrefix hh hask)⟩
    rw [Seen, List.any_append, Bool.or_eq_true]
    exact Or.inr rfl

/-- The relay behind it. -/
theorem stacked_relay (p : Handler α) (hafter : AdmitsDuring Inv start k g) (hstart : start <+: h)
    (htunnel : tunnel h = some k) : Keeps Inv g h (plain p) := by
  have hruns : Ensures (fun h' _ => h <+: h') (fun _ _ => True) h (inSession p) :=
    Ensures.of_only (Only.any _) fun rest _ _ => List.prefix_append h rest
  exact Stacked.lift hruns
    (fun h' _ hh => hafter h' (hstart.trans hh) (tunnel_of_isPrefix hh htunnel)) fun _ _ => id

section Answered

variable {dial : Handler α} {relay : α → Handler Unit} (hbefore : AdmitsBefore Inv start g)
  (hpending : Pending start h) (hdial : Only Op.NotResponse R dial) (hask : Asked h k)

include hbefore hpending hdial

/-- A part of a handler that does not answer yet. -/
theorem stacked_calm :
    Stacked Inv (fun h' _ => h <+: h' ∧ Pending start h') g h g (plain dial) := by
  have halong : ∀ h', Along Calm h h' → h <+: h' ∧ Pending start h' := fun h' hh =>
    ⟨hh.isPrefix, hpending.after.trans hh.isPrefix, unanswered_of_along hh hpending.quiet⟩
  exact Stacked.lift (Ensures.along (only_inSession hdial) (Along.refl Calm h))
    (fun h' _ hh => hbefore h' (halong h' hh).2) fun h' _ hh => halong h' hh.2

include hask

/-- **Dial, respond, and go on with the session.** -/
theorem stacked_answered {serve : α → Serving Unit}
    (hserve : ∀ u h', start <+: h' → tunnel h' = some k → Keeps Inv g h' (serve u)) :
    Keeps Inv g h (do
      let u ← plain dial
      plain respond
      serve u) := by
  refine (stacked_calm hbefore hpending hdial).bind fun h₁ u hu => ?_
  refine (stacked_respond (hask.of_isPrefix hu.1) (hbefore h₁ hu.2)).bind fun h₂ _ hr => ?_
  exact hserve u h₂ (hu.2.after.trans hr.1) hr.2

/-- Under one stack of guards. -/
theorem stacked_served (hafter : AdmitsDuring Inv start k g) :
    Keeps Inv g h (plain (do
      let u ← dial
      respond
      relay u)) := by
  simp only [plain_bind]
  exact stacked_answered hbefore hpending hdial hask fun u _ => stacked_relay (relay u) hafter

/-- With a guard around the relay. -/
theorem stacked_guarded (hafter : AdmitsDuring Inv start k (k :: g)) :
    Keeps Inv g h (do
      let u ← plain dial
      plain respond
      .hold k (plain (relay u))) :=
  stacked_answered hbefore hpending hdial hask fun u _ hstart htunnel =>
    Stacked.hold (stacked_relay (relay u) hafter hstart htunnel)

end Answered

theorem stacked_ifAuthorized {r : Request × List UInt8} {serve : Serving Unit}
    (hr : Decoded (handled h) (some r)) (hbefore : AdmitsBefore Inv start g)
    (hpending : Pending start h)
    (hserve : ∀ h', Pending start h' → Asked h' (.ofCommand r.1.command) → Keeps Inv g h' serve) :
    Keeps Inv g h (Guarded.ifAuthorized r.1 serve) := by
  have hask : Asked h (.ofCommand r.1.command) := ⟨r, hr r rfl, rfl⟩
  refine (stacked_calm hbefore hpending (silent_perform fun _ heq => by cases heq)).bind
    fun h' users hu => ?_
  split
  · exact hserve h' hu.2 (hask.of_isPrefix hu.1)
  · exact ⟨rfl, trivial⟩

variable (hquiet : Seen answers start = false) (hempty : handled start = [])
  (hbefore : AdmitsBefore Inv start g)

include hquiet hempty hbefore

/-- Behind the header loop and the credential check nothing has been answered, and a request was
decoded. -/
theorem stacked_request {ok : List (Entry Op Ans) → Op → Prop} {p : Handler α}
    (found : α → Option (Request × List UInt8)) {serve : α → Serving Unit} (hcalm : Silent p)
    (hdecoded : Ensures ok (fun h' a => Decoded h' (found a)) [] p)
    (hserve : ∀ h' a, Pending start h' → Decoded (handled h') (found a) →
      Keeps Inv g h' (serve a)) :
    Keeps Inv g start (plain p >>= serve) := by
  rw [← hempty] at hdecoded
  have hboth := (ensures_inSession start hdecoded).and
    (Ensures.along (only_inSession hcalm) (Along.refl Calm start))
  have hpending : ∀ h', Along Calm start h' → Pending start h' := fun h' hh =>
    ⟨hh.isPrefix, unanswered_of_along hh hquiet⟩
  have hruns : Stacked Inv _ g start g (plain p) :=
    Stacked.lift hboth (fun h' _ hh => hbefore h' (hpending h' hh.2)) fun _ _ => id
  exact hruns.bind fun h' a ha => hserve h' a (hpending h' ha.2.2) ha.1

/-- **`handle_session`** takes its guard for `Udp` before the response, that for `Mux` behind it,
and none for `Tcp`. -/
theorem stacked_handleSession (hudp : AdmitsBefore Inv start (.udp :: g))
    (htcp : AdmitsDuring Inv start .tcp g)
    (hother : ∀ k, k ≠ .tcp → AdmitsDuring Inv start k (k :: g))
    (fuel : ℕ) (dialect : VisionDialect) (router : Router) (outbounds : Outbounds) :
    Keeps Inv g start (Guarded.handleSession fuel dialect router outbounds) := by
  have hdecoded : Ensures (Cleared none) (fun h r => Decoded h (some r)) [] (readHeader fuel []) :=
    ensures_readHeader fuel []
  refine stacked_request hquiet hempty hbefore some (silent_readHeader fuel []) hdecoded
    fun h₁ r hpending hr => stacked_ifAuthorized hr hbefore hpending fun h₂ hpending hask => ?_
  have hdials := dials_notResponse
  have htarget : Silent (Prog.orFail .unsupportedCommand r.1.target) := Only.orFail _ _
  unfold Guarded.serveSession
  cases hcommand : r.1.command with
  | mux =>
    rw [hcommand] at hask
    exact (stacked_respond hask (hbefore h₂ hpending)).bind fun _ _ hh => Stacked.hold
      (stacked_relay _ (hother .mux (by decide)) (hpending.after.trans hh.1) hh.2)
  | udp =>
    rw [hcommand] at hask
    refine (stacked_calm hbefore hpending htarget).bind fun h₃ ep hh => ?_
    unfold Guarded.serveUdp
    simp only
    split
    · exact ⟨rfl, trivial⟩
    · refine Stacked.hold ?_
      have hask := hask.of_isPrefix hh.1
      have hduring := hother .udp (by decide)
      split
      · exact stacked_served hudp hh.2 (only_connect hdials (notDecoy_chain _ _ _)) hask hduring
      · exact stacked_served hudp hh.2 (only_resolve hdials ep) hask hduring
  | tcp =>
    rw [hcommand] at hask
    refine (stacked_calm hbefore hpending htarget).bind fun h₃ ep hh => ?_
    unfold serveTcp
    simp only
    split
    · exact ⟨rfl, trivial⟩
    · exact stacked_served hbefore hh.2 (only_dialTcp _ hdials _ ep none) (hask.of_isPrefix hh.1)
        htcp

/-- **`handle_xray_vision_session`** takes a guard behind every response. -/
theorem stacked_handleXrayVisionSession
    (hafter : ∀ k, AdmitsDuring Inv start k (k :: g))
    (fuel : ℕ) (decoy : Option SocketAddr) (router : Router) (outbounds : Outbounds) :
    Keeps Inv g start (Guarded.handleXrayVisionSession fuel decoy router outbounds) := by
  have hdials := dials_notResponse
  refine stacked_request hquiet hempty hbefore id (silent_readRecordHeader fuel decoy [])
    (ensures_readRecordHeader fuel []) fun h₁ header hpending hr => ?_
  cases header with
  | none => exact ⟨rfl, trivial⟩
  | some r =>
    refine stacked_ifAuthorized hr hbefore hpending fun h₂ hpending hask => ?_
    unfold Guarded.serveXraySession
    split
    · next hcommand =>
      rw [hcommand] at hask
      exact (stacked_respond hask (hbefore h₂ hpending)).bind fun _ _ hh => Stacked.hold
        (stacked_relay _ (hafter .mux) (hpending.after.trans hh.1) hh.2)
    · next hcommand _ =>
      rw [hcommand] at hask
      simp only
      split
      · exact ⟨rfl, trivial⟩
      · exact stacked_guarded hbefore hpending (only_dialTcp _ hdials _ _ _) hask (hafter .tcp)
    · next hcommand _ =>
      rw [hcommand] at hask
      simp only
      split
      · exact ⟨rfl, trivial⟩
      · unfold Guarded.serveXrayUdp
        split
        · exact stacked_guarded hbefore hpending (only_connect hdials (notDecoy_chain _ _ _)) hask
            (hafter .udp)
        · exact stacked_guarded hbefore hpending (only_resolve hdials _) hask (hafter .udp)
    · exact (rfl : g = g)

end Handlers

/-! ## The guards of the listeners -/

/-- The guards around and in `handle_session`, given the session. -/
def Wrapped : Option SessionKind → List SessionKind → Prop
  | none, held => held = [.tcp] ∨ held = [.udp, .tcp]
  | some .tcp, held => held = [.tcp]
  | some k, held => held = [k, .tcp]

/-- **The guards of a connection that waits**, the last one first, given what has happened on it. -/
def Listener.Guards : Listener → History → List SessionKind → Prop
  | .reality _ _ _, h, held =>
    if Seen handshook h then held = (tunnel h).toList ++ [.tcp] else tunnel h = none ∧ held = []
  | .carrierBackend _, h, held => Wrapped (tunnel h) held
  | .raw .xray _ _, h, held => held = (tunnel h).toList
  | .raw .donut _ _, h, held =>
    if Seen versionRead h then Wrapped (tunnel h) held else tunnel h = none ∧ held = []

variable {Inv : History → List SessionKind → Prop} {h : History}

theorem stacked_await {g : List SessionKind} {o : TaskOp} {f : TaskAns o → Serving Unit}
    (hinv : Inv h g) (hf : ∀ x, Keeps Inv g (h ++ [⟨o, x⟩]) (f x)) :
    Keeps Inv g h (await o >>= f) :=
  ⟨hinv, hf⟩

/-- A listener's guard around `handle_session`. -/
theorem stacked_hold_handleSession {start : History} (hquiet : Seen answers start = false)
    (hempty : handled start = [])
    (hwrapped : ∀ h held, start <+: h → Wrapped (tunnel h) held → Inv h held) (fuel : ℕ)
    (router : Router) :
    Keeps Inv [] start
      (.hold .tcp (Guarded.handleSession fuel .donut router .empty).ignoring) := by
  have hbefore : ∀ held, Wrapped none held → AdmitsBefore Inv start held := by
    intro held hheld h hpending
    rw [← tunnel_of_unanswered hpending.quiet] at hheld
    exact hwrapped h held hpending.after hheld
  refine Stacked.hold (Stacked.ignoring (stacked_handleSession hquiet hempty
    (hbefore _ (Or.inl rfl)) (hbefore _ (Or.inr rfl)) ?_ ?_ fuel .donut router .empty))
  · intro h hh htunnel
    refine hwrapped h _ hh ?_
    rw [htunnel]
    exact (rfl : [SessionKind.tcp] = [.tcp])
  · intro k hk h hh htunnel
    refine hwrapped h _ hh ?_
    rw [htunnel]
    cases k with
    | tcp => exact absurd rfl hk
    | udp => exact (rfl : [SessionKind.udp, .tcp] = [.udp, .tcp])
    | mux => exact (rfl : [SessionKind.mux, .tcp] = [.mux, .tcp])

/-- The handshake in front of the xray handler, with what comes behind it. -/
theorem stacked_handshake {replay : List UInt8} {serve : Serving Unit}
    (hinv : ∀ h', Seen handshook h' = false → Seen answers h' = false → Inv h' [])
    (hidle : Seen handshook h = false) (hquiet : Seen answers h = false)
    (hserve : Keeps Inv [] (h ++ [⟨.tlsInit replay, true⟩] ++ [⟨.handshake, true⟩]) serve) :
    Keeps Inv [] h (do
      let ready : Bool ← await (.tlsInit replay)
      if ready then do
        let done : Bool ← await .handshake
        if done then serve else pure ()
      else pure ()) := by
  refine stacked_await (hinv h hidle hquiet) fun ready => ?_
  cases ready with
  | false => exact ⟨rfl, trivial⟩
  | true =>
    refine stacked_await (hinv _ ?_ ?_) fun done => ?_
    · rw [Seen, List.any_append]
      exact Bool.or_eq_false_iff.mpr ⟨hidle, rfl⟩
    · rw [Seen, List.any_append]
      exact Bool.or_eq_false_iff.mpr ⟨hquiet, rfl⟩
    · cases done with
      | false => exact ⟨rfl, trivial⟩
      | true => exact hserve

theorem stacked_reality (fuel : ℕ) (dest : SocketAddr) (router : Router) (outbounds : Outbounds) :
    Keeps (Listener.reality dest router outbounds).Guards [] []
      (runRealityProxy fuel dest router outbounds) := by
  have hinv : ∀ h', Seen handshook h' = false → Seen answers h' = false →
      (Listener.reality dest router outbounds).Guards h' [] := by
    intro h' hidle hquiet
    rw [Listener.Guards, hidle, if_neg Bool.false_ne_true]
    exact ⟨tunnel_of_unanswered hquiet, rfl⟩
  refine stacked_await (hinv [] rfl rfl) fun triaged => ?_
  split
  · exact ⟨rfl, trivial⟩
  · exact ⟨rfl, trivial⟩
  · refine stacked_handshake hinv rfl rfl (Stacked.hold (Stacked.ignoring
      (stacked_handleXrayVisionSession rfl rfl (fun h hpending => ?_) (fun k h hh ht => ?_)
        fuel _ router outbounds)))
    · rw [Listener.Guards, if_pos (seen_of_isPrefix hpending.after rfl),
        tunnel_of_unanswered hpending.quiet]
      rfl
    · rw [Listener.Guards, if_pos (seen_of_isPrefix hh rfl), ht]
      rfl

theorem stacked_rawXray (fuel : ℕ) (decoy : Option SocketAddr) (router : Router) :
    Keeps (Listener.raw .xray decoy router).Guards [] [] (runRawProxy fuel .xray decoy router) := by
  have hquiet : ∀ h', Seen answers h' = false → (Listener.raw .xray decoy router).Guards h' [] := by
    intro h' hnone
    rw [Listener.Guards, tunnel_of_unanswered hnone]
    rfl
  refine stacked_handshake (fun h' _ => hquiet h') rfl rfl (Stacked.ignoring
    (stacked_handleXrayVisionSession rfl rfl (fun h hh => hquiet h hh.quiet) (fun k h _ ht => ?_)
      fuel decoy router .empty))
  rw [Listener.Guards, ht]
  rfl

theorem stacked_rawDonut (fuel : ℕ) (decoy : Option SocketAddr) (router : Router) :
    Keeps (Listener.raw .donut decoy router).Guards [] []
      (runRawProxy fuel .donut decoy router) := by
  have hidle : ∀ h', Seen versionRead h' = false → Seen answers h' = false →
      (Listener.raw .donut decoy router).Guards h' [] := by
    intro h' hunread hquiet
    rw [Listener.Guards, hunread, if_neg Bool.false_ne_true]
    exact ⟨tunnel_of_unanswered hquiet, rfl⟩
  refine stacked_await (hidle [] rfl rfl) fun accepted => ?_
  cases accepted with
  | false => exact ⟨rfl, trivial⟩
  | true =>
    refine stacked_await (hidle _ rfl rfl) fun first => ?_
    cases first with
    | none => exact ⟨rfl, trivial⟩
    | some b =>
      simp only
      split
      · next hversion =>
        subst hversion
        refine stacked_hold_handleSession rfl rfl (fun h held hh hwrapped => ?_) fuel router
        rw [Listener.Guards, if_pos (seen_of_isPrefix hh rfl)]
        exact hwrapped
      · next hversion =>
        have hunread : Seen versionRead [⟨.tlsAccept, true⟩, ⟨.peek, some b⟩] = false := by
          simp [Seen, versionRead, hversion]
        cases decoy with
        | none => exact ⟨rfl, trivial⟩
        | some d => exact ⟨hidle _ hunread rfl, fun _ => ⟨rfl, trivial⟩⟩

/-- **Every task holds what its listener says, and drops what it takes.** -/
theorem stacked_task (l : Listener) (fuel : ℕ) :
    Keeps l.Guards [] [] (l.task fuel) := by
  cases l with
  | reality dest router outbounds => exact stacked_reality fuel dest router outbounds
  | carrierBackend router =>
    exact stacked_hold_handleSession rfl rfl (fun _ _ _ hwrapped => hwrapped) fuel router
  | raw dialect decoy router =>
    cases dialect with
    | xray => exact stacked_rawXray fuel decoy router
    | donut => exact stacked_rawDonut fuel decoy router

/-! ## The connections of a server -/

/-- A connection: what is left of its task, the guards it holds, the last one first, and what has
happened on it. -/
structure Connection where
  listener : Listener
  program : Serving Unit
  held : List SessionKind
  history : History

/-- The answer of the outside to each operation; `none` means that there is none yet. -/
abbrev Reply : Type := (o : TaskOp) → Option (TaskAns o)

/-- Take and drop guards until the next operation, or the end.  A task does not wait for its guards.
Where the fuel is used up, there is no next moment. -/
def settle : Serving Unit → List SessionKind → Metrics →
    Option (Serving Unit × List SessionKind × Metrics)
  | .ask (.take k) next, held, m => settle (next ()) (k :: held) (m.tunnelStartedKind k)
  | .ask (.drop k) next, held, m => settle (next ()) (held.erase k) (m.dropGuard k)
  | .ask (.op o) next, held, m => some (.ask (.op o) next, held, m)
  | .pure a, held, m => some (.pure a, held, m)
  | .fail e, held, m => some (.fail e, held, m)
  | .halt, _, _ => none

namespace Connection

/-- The task has ended, with or without an error. -/
def ended (c : Connection) : Bool :=
  match c.program with
  | .pure _ => true
  | .fail _ => true
  | .ask _ _ => false
  | .halt => false

/-- **The tunnel session in progress**: from the response to the request until the task has
ended. -/
def session (c : Connection) : Option SessionKind := if c.ended then none else tunnel c.history

def settled (c : Connection) (m : Metrics) : Option (Connection × Metrics) :=
  (settle c.program c.held m).map fun r => ({ c with program := r.1, held := r.2.1 }, r.2.2)

/-- The operation that is awaited is answered, and the task goes on to the next one. -/
def proceed (c : Connection) (m : Metrics) (reply : Reply) : Option (Connection × Metrics) :=
  match c.program with
  | .ask (.op o) next =>
    match reply o with
    | none => none
    | some x => settled { c with program := next x, history := c.history ++ [⟨o, x⟩] } m
  | _ => none

/-- The task is dropped, and its guards with it. -/
def dropped (c : Connection) (m : Metrics) : Option (Connection × Metrics) :=
  settled { c with program := .unwind c.held } m

/-- **Counted right**, by the listener and the command: nothing but `run_raw_proxy` with the xray
dialect, what has not come to a listener's guard, and `Tcp` through `handle_session`. -/
def CountedRight (c : Connection) : Prop :=
  c.ended = true ∨
    match c.listener with
    | .raw .xray _ _ => True
    | .reality _ _ _ => Seen handshook c.history = false
    | .carrierBackend _ => tunnel c.history = some .tcp
    | .raw .donut _ _ => Seen versionRead c.history = false ∨ tunnel c.history = some .tcp

end Connection

structure System where
  connections : List Connection
  metrics : Metrics

/-- A connection is accepted, goes on, or is dropped. -/
inductive SystemEvent where
  | accept (l : Listener) (fuel : ℕ)
  | proceed (i : ℕ) (reply : Reply)
  | abandon (i : ℕ)

namespace System

def new : System := ⟨[], .new⟩

/-- A connection becomes another one. -/
def update (s : System) (i : ℕ) (f : Connection → Option (Connection × Metrics)) :
    Option System := do
  let c ← s.connections[i]?
  let r ← f c
  some ⟨s.connections.set i r.1, r.2⟩

def step (s : System) : SystemEvent → Option System
  | .accept l fuel =>
    (Connection.settled ⟨l, l.task fuel, [], []⟩ s.metrics.connectionAccepted).map fun r =>
      ⟨s.connections ++ [r.1], r.2⟩
  | .proceed i reply => s.update i fun c => c.proceed s.metrics reply
  | .abandon i => s.update i fun c => c.dropped s.metrics

/-- How many tunnel sessions are in progress. -/
def sessions (s : System) : ℕ := s.connections.countP fun c => c.session.isSome

/-- How many of them are of a kind. -/
def sessionsOf (s : System) (k : SessionKind) : ℕ :=
  s.connections.countP fun c => decide (c.session = some k)

end System

/-! ## One connection -/

/-- A task that holds what its listener says. -/
def Connection.Obeys (c : Connection) : Prop :=
  Stacked c.listener.Guards (fun _ _ => True) [] c.history c.held c.program

/-- The task waits, or has ended. -/
def Connection.AtRest (c : Connection) : Prop :=
  c.ended = true ∨ ∃ o next, c.program = .ask (.op o) next

/-- What holds of a connection at every moment. -/
structure Connection.Tidy (c : Connection) : Prop where
  obeys : c.Obeys
  rests : c.AtRest

/-- The gauges have moved by as much as the guards that are held. -/
structure GaugesFollow (m m' : Metrics) (held held' : List SessionKind) : Prop where
  active : m'.activeConnections = m.activeConnections + ((held'.length : ℤ) - held.length)
  kinds : ∀ k, m'.kindGauge k = m.kindGauge k + ((held'.count k : ℤ) - held.count k)

theorem GaugesFollow.refl (m : Metrics) (held : List SessionKind) : GaugesFollow m m held held :=
  ⟨by omega, fun k => by omega⟩

theorem gaugesFollow_take (m : Metrics) (k : SessionKind) (held : List SessionKind) :
    GaugesFollow m (m.tunnelStartedKind k) held (k :: held) := by
  refine ⟨?_, fun k' => ?_⟩
  · simp only [Metrics.tunnelStartedKind, List.length_cons]
    omega
  · simp only [Metrics.tunnelStartedKind, List.count_cons]
    by_cases hk : k' = k
    · simp [hk]
    · simp [hk, Ne.symm hk]

theorem gaugesFollow_drop (m : Metrics) (k : SessionKind) (held : List SessionKind) :
    GaugesFollow m (m.dropGuard k) (k :: held) held := by
  refine ⟨?_, fun k' => ?_⟩
  · simp only [Metrics.dropGuard, List.length_cons]
    omega
  · simp only [Metrics.dropGuard, List.count_cons]
    by_cases hk : k' = k
    · simp [hk]
      omega
    · simp [hk, Ne.symm hk]

theorem GaugesFollow.trans {m₁ m₂ m₃ : Metrics} {held₁ held₂ held₃ : List SessionKind}
    (h : GaugesFollow m₁ m₂ held₁ held₂) (h' : GaugesFollow m₂ m₃ held₂ held₃) :
    GaugesFollow m₁ m₃ held₁ held₃ := by
  refine ⟨?_, fun k => ?_⟩
  · rw [h'.active, h.active]
    omega
  · rw [h'.kinds, h.kinds]
    omega

/-- **Settling** keeps to the rule, and the gauges follow. -/
theorem settle_spec {l : Listener} {p q : Serving Unit} {held held' : List SessionKind}
    {m m' : Metrics} (hp : Stacked l.Guards (fun _ _ => True) [] h held p)
    (hsettle : settle p held m = some (q, held', m')) :
    (Connection.mk l q held' h).Tidy ∧ GaugesFollow m m' held held' := by
  induction p generalizing held m with
  | pure a =>
    cases hsettle
    exact ⟨⟨hp, Or.inl rfl⟩, GaugesFollow.refl _ _⟩
  | fail e =>
    cases hsettle
    exact ⟨⟨hp, Or.inl rfl⟩, GaugesFollow.refl _ _⟩
  | halt => cases hsettle
  | ask o next ih =>
    cases o with
    | op o =>
      cases hsettle
      exact ⟨⟨hp, Or.inr ⟨o, next, rfl⟩⟩, GaugesFollow.refl _ _⟩
    | take k =>
      obtain ⟨htidy, hfollow⟩ := ih () hp hsettle
      exact ⟨htidy, (gaugesFollow_take m k held).trans hfollow⟩
    | drop k =>
      obtain ⟨t, rfl, hnext⟩ := hp
      rw [settle, List.erase_cons_head] at hsettle
      obtain ⟨htidy, hfollow⟩ := ih () hnext hsettle
      exact ⟨htidy, (gaugesFollow_drop m k t).trans hfollow⟩

namespace Connection

variable {c c' : Connection} {m m' : Metrics} {reply : Reply}

theorem Obeys.settled (hc : c.Obeys) (h : c.settled m = some (c', m')) :
    c'.Tidy ∧ GaugesFollow m m' c.held c'.held := by
  obtain ⟨⟨q, held', m₁⟩, hsettle, heq⟩ := Option.map_eq_some_iff.mp h
  cases heq
  exact settle_spec hc hsettle

/-- **A step keeps a connection tidy, and the gauges follow.** -/
theorem Tidy.proceed (hc : c.Tidy) (h : c.proceed m reply = some (c', m')) :
    c'.Tidy ∧ GaugesFollow m m' c.held c'.held := by
  obtain ⟨listener, program, held, history⟩ := c
  unfold Connection.proceed at h
  split at h
  · next o next hprogram =>
    simp only at hprogram
    subst hprogram
    split at h
    · cases h
    · next x _ =>
      have hnext : Obeys ⟨listener, next x, held, history ++ [⟨o, x⟩]⟩ := hc.obeys.2 x
      exact hnext.settled h
  · cases h

theorem dropped_spec (h : c.dropped m = some (c', m')) :
    c'.Tidy ∧ GaugesFollow m m' c.held c'.held :=
  Obeys.settled (c := { c with program := .unwind c.held }) (Stacked.unwind c.history c.held) h

theorem Tidy.held_of_ended (hc : c.Tidy) (hend : c.ended = true) : c.held = [] := by
  obtain ⟨listener, program, held, history⟩ := c
  have hobeys := hc.obeys
  cases program with
  | pure a => exact hobeys.1
  | fail e => exact hobeys
  | ask o next => cases hend
  | halt => cases hend

/-- As long as it has not ended, a connection holds what its listener says. -/
theorem Tidy.guards (hc : c.Tidy) (hrun : c.ended = false) :
    c.listener.Guards c.history c.held := by
  rcases hc.rests with hend | ⟨o, next, hprogram⟩
  · rw [hrun] at hend
    cases hend
  · have hobeys := hc.obeys
    rw [Obeys, hprogram] at hobeys
    exact hobeys.1

/-- **Each session has a guard, and only that one exactly if the connection is counted right.** -/
theorem Tidy.held_iff (hc : c.Tidy) :
    c.session.toList.length ≤ c.held.length ∧
      (c.held.length = c.session.toList.length ↔ c.CountedRight) ∧
        (c.CountedRight → c.held = c.session.toList) := by
  unfold session CountedRight
  cases hend : c.ended with
  | true => simp [hc.held_of_ended hend]
  | false =>
    have hguards := hc.guards hend
    have hwrapped : Wrapped (tunnel c.history) c.held →
        (tunnel c.history).toList.length ≤ c.held.length ∧
          (c.held.length = (tunnel c.history).toList.length ↔ tunnel c.history = some .tcp) ∧
            (tunnel c.history = some .tcp → c.held = (tunnel c.history).toList) := by
      intro h
      unfold Wrapped at h
      split at h <;> grind
    unfold Listener.Guards at hguards
    split at hguards <;> grind

end Connection

/-! ## All of them -/

section Sums

theorem sum_map_set (f : α → ℤ) {l : List α} {i : ℕ} {a : α} (b : α) (h : l[i]? = some a) :
    ((l.set i b).map f).sum = (l.map f).sum + (f b - f a) := by
  obtain ⟨hi, rfl⟩ := List.getElem?_eq_some_iff.mp h
  rw [List.map_set, List.sum_set', dif_pos (by rwa [List.length_map]), List.getElem_map]
  omega

theorem countP_eq_sum (p : α → Bool) (l : List α) :
    (l.countP p : ℤ) = (l.map fun a => if p a then (1 : ℤ) else 0).sum := by
  induction l with
  | nil => rfl
  | cons a l ih =>
    rw [List.map_cons, List.sum_cons, ← ih, List.countP_cons]
    split
    · simp only [Nat.cast_add, Nat.cast_one]
      omega
    · simp only [Nat.add_zero]
      omega

/-- Two sums with smaller terms on one side are equal only if all terms are. -/
theorem sum_eq_sum_iff_of_le {l : List α} {f g : α → ℤ} (h : ∀ a ∈ l, f a ≤ g a) :
    (l.map g).sum = (l.map f).sum ↔ ∀ a ∈ l, g a = f a := by
  constructor
  · intro heq a ha
    by_contra hne
    have hlt := List.sum_lt_sum f g h ⟨a, ha, lt_of_le_of_ne (h a ha) (Ne.symm hne)⟩
    omega
  · intro hall
    rw [List.map_congr_left hall]

end Sums

/-- **The gauges are the numbers of guards that are held.** -/
structure System.Tracked (s : System) : Prop where
  active : s.metrics.activeConnections = (s.connections.map fun c => (c.held.length : ℤ)).sum
  kinds : ∀ k, s.metrics.kindGauge k = (s.connections.map fun c => (c.held.count k : ℤ)).sum
  tidy : ∀ c ∈ s.connections, c.Tidy

namespace System

variable {s t : System}

theorem tracked_new : new.Tracked := ⟨rfl, fun _ => rfl, fun _ hc => absurd hc List.not_mem_nil⟩

/-- A connection was replaced by what became of it, and the gauges followed. -/
theorem Tracked.update (hs : s.Tracked) {i : ℕ} {f : Connection → Option (Connection × Metrics)}
    (hf : ∀ c c' m, c.Tidy → f c = some (c', m) →
      c'.Tidy ∧ GaugesFollow s.metrics m c.held c'.held)
    (h : s.update i f = some t) : t.Tracked := by
  obtain ⟨c, hi, h⟩ := Option.bind_eq_some_iff.mp h
  obtain ⟨⟨c', m⟩, hstep, h⟩ := Option.bind_eq_some_iff.mp h
  cases h
  obtain ⟨htidy, hfollows⟩ := hf c c' m (hs.tidy c (List.mem_of_getElem? hi)) hstep
  refine ⟨?_, fun k => ?_, fun x hx => ?_⟩
  · rw [sum_map_set (fun c => (c.held.length : ℤ)) c' hi, ← hs.active]
    exact hfollows.active
  · rw [sum_map_set (fun c => (c.held.count k : ℤ)) c' hi, ← hs.kinds]
    exact hfollows.kinds k
  · rcases List.mem_or_eq_of_mem_set hx with hx | rfl
    · exact hs.tidy x hx
    · exact htidy

theorem Tracked.step (hs : s.Tracked) {e : SystemEvent} (h : s.step e = some t) : t.Tracked := by
  cases e with
  | accept l fuel =>
    obtain ⟨⟨c, m⟩, hsettled, h⟩ := Option.map_eq_some_iff.mp h
    cases h
    have hfresh : Connection.Obeys ⟨l, l.task fuel, [], []⟩ := stacked_task l fuel
    obtain ⟨htidy, hfollows⟩ := hfresh.settled hsettled
    refine ⟨?_, fun k => ?_, fun x hx => ?_⟩
    · have hmoved := hfollows.active
      simp [Metrics.connectionAccepted, hs.active] at hmoved ⊢
      exact hmoved
    · have hmoved := hfollows.kinds k
      simp [Metrics.connectionAccepted, hs.kinds] at hmoved ⊢
      exact hmoved
    · rcases List.mem_append.mp hx with hx | hx
      · exact hs.tidy x hx
      · obtain rfl := List.mem_singleton.mp hx
        exact htidy
  | proceed i reply => exact hs.update (fun _ _ _ hc hstep => hc.proceed hstep) h
  | abandon i => exact hs.update (fun _ _ _ _ hstep => Connection.dropped_spec hstep) h

/-- **Whatever happens, the gauges are the numbers of guards.** -/
theorem tracked_of_run {events : List SystemEvent}
    (h : Machine.run System.step new events = some s) : s.Tracked :=
  Machine.run_inv (fun _ _ _ hs hstep => hs.step hstep) events tracked_new h

/-! ## When a session is counted once -/

/-- **Each session that is in progress is counted once, and under the kind of its command.** -/
structure CountedOnce (s : System) : Prop where
  total : s.metrics.activeConnections = s.sessions
  kinds : ∀ k, s.metrics.kindGauge k = s.sessionsOf k

/-- The total is right exactly if each connection is counted right. -/
theorem Tracked.total_iff (hs : s.Tracked) :
    s.metrics.activeConnections = s.sessions ↔ ∀ c ∈ s.connections, c.CountedRight := by
  have hone : ∀ c : Connection,
      (if c.session.isSome then (1 : ℤ) else 0) = c.session.toList.length := by
    intro c
    cases c.session <;> rfl
  rw [hs.active, sessions, countP_eq_sum]
  simp only [hone]
  rw [sum_eq_sum_iff_of_le fun c hc => Int.ofNat_le.mpr (hs.tidy c hc).held_iff.1]
  refine forall₂_congr fun c hc => ?_
  rw [Nat.cast_inj]
  exact (hs.tidy c hc).held_iff.2.1

/-- Then each guard is that of a session, and of its kind. -/
theorem Tracked.kinds_of_right (hs : s.Tracked) (hright : ∀ c ∈ s.connections, c.CountedRight)
    (k : SessionKind) : s.metrics.kindGauge k = s.sessionsOf k := by
  rw [hs.kinds, sessionsOf, countP_eq_sum]
  refine congrArg List.sum (List.map_congr_left fun c hc => ?_)
  rw [(hs.tidy c hc).held_iff.2.2 (hright c hc)]
  cases c.session with
  | none => rfl
  | some k' => by_cases hk : k' = k <;> simp [hk]

/-- Without a running task no guard is left. -/
theorem Tracked.zero_of_ended (hs : s.Tracked) (hend : ∀ c ∈ s.connections, c.ended = true) :
    s.metrics.activeConnections = 0 ∧ ∀ k, s.metrics.kindGauge k = 0 := by
  have hzero : ∀ f : List SessionKind → ℤ, f [] = 0 →
      (s.connections.map fun c => f c.held).sum = 0 := by
    intro f hf
    refine List.sum_eq_zero fun x hx => ?_
    obtain ⟨c, hc, rfl⟩ := List.mem_map.mp hx
    rw [(hs.tidy c hc).held_of_ended (hend c hc), hf]
  exact ⟨hs.active.trans (hzero (fun held => held.length) rfl),
    fun k => (hs.kinds k).trans (hzero (fun held => held.count k) rfl)⟩

end System

/-- **The gauges count each session once exactly if every connection is counted right**, at every
moment of every run.  They return to zero in any case. -/
theorem active_gauge_iff (events : List SystemEvent) {s : System}
    (h : Machine.run System.step .new events = some s) :
    (s.CountedOnce ↔ ∀ c ∈ s.connections, c.CountedRight) ∧
      ((∀ c ∈ s.connections, c.ended = true) →
        s.metrics.activeConnections = 0 ∧ ∀ k, s.metrics.kindGauge k = 0) := by
  have hs := System.tracked_of_run h
  refine ⟨⟨fun hcounted => hs.total_iff.mp hcounted.total, fun hright => ?_⟩, hs.zero_of_ended⟩
  exact ⟨hs.total_iff.mpr hright, hs.kinds_of_right hright⟩

/-- A peer that asks for `Mux`, is known, and gets its response. -/
def muxReply : Reply
  | .triage => some (some (.tunnel [] (List.Vector.replicate 32 0)))
  | .tlsInit _ => some true
  | .handshake => some true
  | .session .readRecord => some (some (some (0 :: List.replicate 16 7 ++ [0, 3])))
  | .session .loadUsers => some (UserAuth.mk [List.Vector.replicate 16 7])
  | .session (.respond _) => some true
  | _ => none

/-- Its session through `run_raw_proxy`, with the xray dialect. -/
def rawEvents : List SystemEvent :=
  .accept (.raw .xray none ⟨[], "freedom"⟩) 1 :: List.replicate 5 (.proceed 0 muxReply)

theorem active_gauge_iff_raw :
    ∃ s, Machine.run System.step .new rawEvents = some s ∧
      s.CountedOnce ∧ s.sessions = 1 ∧ s.metrics.kindGauge .mux = 1 := by
  refine ⟨_, rfl, (active_gauge_iff rawEvents rfl).1.mpr fun c hc => ?_, rfl, rfl⟩
  obtain rfl := List.mem_singleton.mp hc
  exact Or.inr trivial

/-- A caller that passes the handshake and then speaks HTTP, and the decoy takes it. -/
def browserReply : Reply
  | .triage => some (some (.tunnel [] (List.Vector.replicate 32 0)))
  | .tlsInit _ => some true
  | .handshake => some true
  | .session .readRecord => some (some (some [71, 69, 84]))
  | .session (.connect _) => some true
  | _ => none

def realityListener : Listener :=
  .reality ⟨.v4 (List.Vector.replicate 4 1), 443⟩ ⟨[], "freedom"⟩ .empty

/-- **One session, counted twice and under two kinds**; and a caller of the decoy, without a
session, counted as one. -/
theorem session_counted_twice :
    (∃ s, Machine.run System.step .new
        (.accept realityListener 1 :: List.replicate 6 (.proceed 0 muxReply)) = some s ∧
      s.sessions = 1 ∧ s.metrics.activeConnections = 2 ∧ s.metrics.kindGauge .tcp = 1 ∧
        s.metrics.kindGauge .mux = 1 ∧ ¬ s.CountedOnce) ∧
      ∃ s, Machine.run System.step .new
          (.accept realityListener 1 :: List.replicate 5 (.proceed 0 browserReply)) = some s ∧
        s.sessions = 0 ∧ s.metrics.activeConnections = 1 ∧ ¬ s.CountedOnce := by
  refine ⟨⟨_, rfl, rfl, rfl, rfl, rfl, fun hcounted => ?_⟩, _, rfl, rfl, rfl, fun hcounted => ?_⟩
  · have htwo : (2 : ℤ) = (1 : ℕ) := hcounted.total
    omega
  · have hone : (1 : ℤ) = (0 : ℕ) := hcounted.total
    omega

end Server
end HoldTheDonut
