import HoldTheDonut.Client.Socks
import HoldTheDonut.Interaction.Complete
import HoldTheDonut.Routing.Router

/-!
# The local SOCKS sessions

The session handlers of `donut-client/src/local_proxy.rs`.  Behind the handshake of a CONNECT
request the target is routed: it is dropped, dialled from here, or reached through the tunnel, and
the tunnel is one of four.  The veil, xhttp and h3 handlers bridge a carrier stream, the raw
handler the TLS stream itself, with the flow it was started with.

A reply is what is written to the SOCKS socket behind the handshake, and the only call that
writes one is `PendingConnect::accept`, which stands behind the target or the tunnel is there.
Everything before it leaves with `?`, and the socket is dropped with the `PendingConnect` that
owns it.  `socks_answers_iff` is what follows: a request gets its one answer exactly if there is
something to connect it to.
-/

namespace HoldTheDonut
namespace Client

open Interaction
open Wire (Response WireError)

/-! ## The operations of a session -/

/-- The client a handler dials the server with. -/
inductive Tunnel where
  | veil
  | xhttp
  | h3
  | raw
  deriving DecidableEq

/-- How bytes are passed once a session is connected. -/
inductive DataPlane where
  | copy
  | vision
  deriving DecidableEq

/-- What a session awaits. -/
inductive SessionOp where
  /-- Something on the SOCKS socket. -/
  | socks (o : Stream.Op)
  | resolveOne (host : String) (port : UInt16)
  /-- `TcpStream::connect` to the target. -/
  | connect (addr : SocketAddr)
  /-- The `connect` of the client, to the server. -/
  | dial (tunnel : Tunnel) (server : SocketAddr)
  /-- The `stream-one` carrier over a veiled stream. -/
  | dialOverStream
  | writeRequest (framed : List UInt8)
  | flushRequest
  /-- `read_exact` of the two bytes in front of the response. -/
  | readPrefix
  | relay (plane : DataPlane)

/-- The answers: a Boolean says whether the operation succeeded, and `none` is an error. -/
def SessionAns : SessionOp → Type
  | .socks o => Stream.Ans o
  | .resolveOne _ _ => Option SocketAddr
  | .connect _ => Bool
  | .dial _ _ => Bool
  | .dialOverStream => Bool
  | .writeRequest _ => Bool
  | .flushRequest => Bool
  | .readPrefix => Option (Octets 2)
  | .relay _ => Unit

/-- `LocalProxyError`. -/
inductive LocalProxyError where
  | io
  | socks (e : SocksError)
  | wire (e : WireError)
  | carrier
  | resolve (d : String)

abbrev Session : Type → Type := Prog SessionOp SessionAns LocalProxyError

/-- A program on the SOCKS socket. -/
def onSocks {α : Type} (p : Handshake α) : Session α :=
  p.embed SessionOp.socks (fun _ x => x) LocalProxyError.socks

/-- The `?` behind an operation. -/
def orErr (e : LocalProxyError) : Bool → Session Unit := Prog.check e

/-! ## The handlers -/

def repSucceeded : UInt8 := 0x00

/-- `PendingConnect::accept`. -/
def accept (bound : SocketAddr) : Session Unit := onSocks (writeReply repSucceeded bound)

/-- The end of every handler that gets there: accept, and pass the bytes.  How the relay ends is
ignored. -/
def acceptAndRelay (plane : DataPlane) : Session Unit := do
  accept unspecified
  .ask (.relay plane) fun _ => pure ()

inductive Route where
  | block
  | direct
  | proxy
  deriving DecidableEq

def classifyRoute (router : Routing.Router) (target : Endpoint) : Route :=
  if router.route target = "block" ∨ router.route target = "blackhole" then .block
  else if router.route target = "direct" ∨ router.route target = "freedom" then .direct
  else .proxy

/-- The address of a target. -/
def targetAddr (target : Endpoint) : Session SocketAddr :=
  match target.address with
  | .ip ip => pure ⟨ip, target.port⟩
  | .domain d =>
    .ask (.resolveOne d target.port) (Prog.orFail (.resolve d) : Option SocketAddr → _)

/-- `handle_direct_dial`. -/
def handleDirectDial (target : Endpoint) : Session Unit := do
  let addr ← targetAddr target
  Prog.ask (.connect addr) (orErr .io)
  acceptAndRelay .copy

/-- The response of the server, of which two bytes are read. -/
def checkResponse : Option (Octets 2) → Session Unit
  | none => .fail .io
  | some bytes =>
    match Response.decode bytes.toList with
    | .error e => .fail (.wire e)
    | .ok _ => pure ()

/-- The request and its response.  `encode` panics without a target, and there is one. -/
def exchange (user : UserId) (flow : FlowKind) (target : Endpoint) : Session Unit :=
  match (bridgeRequest user flow target).encode with
  | none => .halt
  | some framed => do
    Prog.ask (.writeRequest framed) (orErr .io)
    Prog.ask .flushRequest (orErr .io)
    Prog.ask .readPrefix checkResponse

/-- `bridge_carrier_to_socks`. -/
def bridgeCarrierToSocks (user : UserId) (target : Endpoint) : Session Unit := do
  exchange user .none target
  acceptAndRelay .copy

/-- `bridge_raw_to_socks`. -/
def bridgeRawToSocks (user : UserId) (flow : FlowKind) (target : Endpoint) : Session Unit := do
  exchange user flow target
  acceptAndRelay (match flow with | .extended => .vision | .none => .copy)

/-- What the four handlers share: the handshake, the route, and the two routes that do not use
the tunnel. -/
def socksSession (router : Routing.Router) (proxy : Endpoint → Session Unit) : Session Unit := do
  let target ← onSocks handshakeConnect
  match classifyRoute router target with
  | .block => pure ()
  | .direct => handleDirectDial target
  | .proxy => proxy target

def handleVeilSocksSession (server : SocketAddr) (user : UserId) (router : Routing.Router) :
    Session Unit :=
  socksSession router fun target => do
    Prog.ask (.dial .veil server) (orErr .io)
    Prog.ask .dialOverStream (orErr .carrier)
    bridgeCarrierToSocks user target

def handleXhttpSocksSession (server : SocketAddr) (user : UserId) (router : Routing.Router) :
    Session Unit :=
  socksSession router fun target => do
    Prog.ask (.dial .xhttp server) (orErr .io)
    bridgeCarrierToSocks user target

def handleH3SocksSession (server : SocketAddr) (user : UserId) (router : Routing.Router) :
    Session Unit :=
  socksSession router fun target => do
    Prog.ask (.dial .h3 server) (orErr .io)
    bridgeCarrierToSocks user target

def handleRawSocksSession (server : SocketAddr) (user : UserId) (router : Routing.Router)
    (flow : FlowKind) : Session Unit :=
  socksSession router fun target => do
    Prog.ask (.dial .raw server) (orErr .io)
    bridgeRawToSocks user flow target

/-- The handler of each tunnel; only the raw one has a flow. -/
def handleSocksSession (server : SocketAddr) (user : UserId) (router : Routing.Router)
    (flow : FlowKind) : Tunnel → Session Unit
  | .veil => handleVeilSocksSession server user router
  | .xhttp => handleXhttpSocksSession server user router
  | .h3 => handleH3SocksSession server user router
  | .raw => handleRawSocksSession server user router flow

/-! ## Replies -/

/-- What happened in a session, with the answers. -/
abbrev Trace : Type := List (Entry SessionOp SessionAns)

/-- The code of a reply.  The choice of a method is written on the same socket and has two bytes
only. -/
def replyCode : SessionOp → Option UInt8
  | .socks (.writeAll (_ :: rep :: _ :: _)) => some rep
  | _ => none

def isRelay : SessionOp → Bool
  | .relay _ => true
  | _ => false

/-- The target is connected, or the server has answered through the tunnel. -/
def establishes : (op : SessionOp) → SessionAns op → Prop
  | .connect _, ok => ok = true
  | .readPrefix, bytes => ∃ b r, bytes = some b ∧ Response.decode b.toList = .ok r
  | _, _ => False

def Established (tr : Trace) : Prop := ∃ e ∈ tr, establishes e.1 e.2

/-- **One answer**: one reply, no relay before it, and it says success exactly if there is
something to connect to. -/
def OneAnswer (tr : Trace) : Prop :=
  ∃ (before : Trace) (e : Entry SessionOp SessionAns) (after : Trace) (rep : UInt8),
    tr = before ++ e :: after ∧ replyCode e.1 = some rep ∧
      (∀ e' ∈ before, replyCode e'.1 = none ∧ isRelay e'.1 = false) ∧
      (∀ e' ∈ after, replyCode e'.1 = none) ∧ (rep = repSucceeded ↔ Established tr)

/-- An operation that neither answers nor establishes anything. -/
def Idle (op : SessionOp) : Prop :=
  replyCode op = none ∧ isRelay op = false ∧ ∀ x, ¬ establishes op x

theorem established_append {a b : Trace} :
    Established (a ++ b) ↔ Established a ∨ Established b := by
  unfold Established
  simp only [List.mem_append, or_and_right, exists_or]

variable {tr : Trace}

theorem not_established_of_idle (h : ∀ e ∈ tr, Idle e.1) : ¬ Established tr := by
  rintro ⟨e, he, hx⟩
  exact (h e he).2.2 e.2 hx

/-! ## What opens a session -/

/-- A part of a session that writes no reply, and returns exactly if it has established
something. -/
def Opens {α : Type} (p : Session α) : Prop :=
  ∀ tr r, Ends p tr r →
    (∀ e ∈ tr, replyCode e.1 = none ∧ isRelay e.1 = false) ∧ (Established tr ↔ ∃ a, r = .ok a)

theorem Opens.bind {α β : Type} {p : Session α} {f : α → Session β}
    (hp : Only Idle (fun _ => True) p) (hf : ∀ a, Opens (f a)) : Opens (p >>= f) := by
  intro tr r h
  rcases h.of_bind with ⟨e, hfail, rfl⟩ | ⟨a, tr₁, tr₂, rfl, hfirst, hrest⟩
  · have hidle := hp.of_ends hfail
    refine ⟨fun e he => ⟨(hidle e he).1, (hidle e he).2.1⟩,
      iff_of_false (not_established_of_idle hidle) ?_⟩
    rintro ⟨a, ha⟩
    cases ha
  · have hidle := hp.of_ends hfirst
    obtain ⟨hsilent, hopen⟩ := hf a tr₂ r hrest
    refine ⟨fun e he => ?_, ?_⟩
    · rcases List.mem_append.mp he with he | he
      · exact ⟨(hidle e he).1, (hidle e he).2.1⟩
      · exact hsilent e he
    · rw [established_append, or_iff_right (not_established_of_idle hidle)]
      exact hopen

/-- One operation, and a result exactly if it establishes something. -/
theorem Opens.ask {α : Type} {op : SessionOp} {next : SessionAns op → Session α}
    (hsilent : replyCode op = none ∧ isRelay op = false)
    (hok : ∀ x, establishes op x → ∃ a, next x = .pure a)
    (herr : ∀ x, ¬ establishes op x → ∃ e, next x = .fail e) : Opens (.ask op next) := by
  intro tr r h
  obtain ⟨x, rest, rfl, hrest⟩ := h.of_ask
  by_cases hx : establishes op x
  · obtain ⟨a, ha⟩ := hok x hx
    rw [ha] at hrest
    obtain ⟨rfl, rfl⟩ := hrest.of_pure
    exact ⟨List.forall_mem_singleton.mpr hsilent,
      iff_of_true ⟨_, List.mem_singleton_self _, hx⟩ ⟨a, rfl⟩⟩
  · obtain ⟨e, he⟩ := herr x hx
    rw [he] at hrest
    obtain ⟨rfl, rfl⟩ := hrest.of_fail
    refine ⟨List.forall_mem_singleton.mpr hsilent, iff_of_false ?_ ?_⟩
    · rintro ⟨e', he', hx'⟩
      rw [List.mem_singleton.mp he'] at hx'
      exact hx hx'
    · rintro ⟨a, ha⟩
      cases ha

theorem opens_connect (addr : SocketAddr) :
    Opens (.ask (.connect addr) (orErr .io) : Session Unit) := by
  refine Opens.ask ⟨rfl, rfl⟩ ?_ ?_
  · rintro x rfl
    exact ⟨(), rfl⟩
  · intro x hx
    have hfalse : x = false := Bool.eq_false_iff.mpr hx
    exact ⟨.io, by rw [hfalse]; rfl⟩

theorem opens_readPrefix : Opens (.ask .readPrefix checkResponse) := by
  refine Opens.ask ⟨rfl, rfl⟩ ?_ ?_
  · rintro x ⟨b, r, rfl, hr⟩
    refine ⟨(), ?_⟩
    rw [checkResponse, hr]
    rfl
  · intro x hx
    cases x with
    | none => exact ⟨.io, rfl⟩
    | some b =>
      cases hdecode : Response.decode b.toList with
      | error e => exact ⟨.wire e, by rw [checkResponse, hdecode]⟩
      | ok r => exact absurd ⟨b, r, rfl, hdecode⟩ hx

theorem opens_exchange (user : UserId) (flow : FlowKind) (target : Endpoint) :
    Opens (exchange user flow target) := by
  refine Opens.bind ⟨⟨rfl, rfl, fun _ h => h⟩, fun x => Only.check _ x⟩ fun _ => ?_
  refine Opens.bind ⟨⟨rfl, rfl, fun _ h => h⟩, fun x => Only.check _ x⟩ fun _ => ?_
  exact opens_readPrefix

/-! ## What a session has answered when it ends -/

/-- One successful reply behind nothing that answers or relays. -/
def Answered (tr : Trace) : Prop :=
  ∃ (before : Trace) (e : Entry SessionOp SessionAns) (after : Trace),
    tr = before ++ e :: after ∧ replyCode e.1 = some repSucceeded ∧
      (∀ e' ∈ before, replyCode e'.1 = none ∧ isRelay e'.1 = false) ∧
      ∀ e' ∈ after, replyCode e'.1 = none

/-- Every complete run answers once if something was established, and not at all otherwise. -/
def Served (p : Session Unit) : Prop :=
  ∀ tr r, Ends p tr r →
    (Established tr ∧ Answered tr) ∨ (¬ Established tr ∧ ∀ e ∈ tr, replyCode e.1 = none)

variable {r : Except LocalProxyError Unit}

/-- The reply comes first, and nothing behind it is one. -/
theorem of_ends_acceptAndRelay {plane : DataPlane} (h : Ends (acceptAndRelay plane) tr r) :
    ∃ (e : Entry SessionOp SessionAns) (after : Trace), tr = e :: after ∧
      replyCode e.1 = some repSucceeded ∧ ∀ e' ∈ after, replyCode e'.1 = none := by
  obtain ⟨x, after, rfl, hafter⟩ := Ends.of_ask h
  refine ⟨_, after, rfl, rfl,
    Only.of_ends (P := fun op => replyCode op = none) (R := fun _ => True) ?_ hafter⟩
  cases x with
  | false => trivial
  | true =>
    refine ⟨rfl, fun y => ?_⟩
    cases y with
    | false => trivial
    | true => exact ⟨rfl, fun _ => trivial⟩

theorem served_pure : Served (pure ()) := by
  intro tr r h
  obtain ⟨rfl, -⟩ := Ends.of_pure h
  refine Or.inr ⟨?_, fun e he => absurd he List.not_mem_nil⟩
  rintro ⟨e, he, -⟩
  exact absurd he List.not_mem_nil

theorem Served.bind {α : Type} {p : Session α} {f : α → Session Unit}
    (hp : Only Idle (fun _ => True) p) (hf : ∀ a, Served (f a)) : Served (p >>= f) := by
  intro tr r h
  rcases h.of_bind with ⟨e, hfail, rfl⟩ | ⟨a, tr₁, tr₂, rfl, hfirst, hrest⟩
  · have hidle := hp.of_ends hfail
    exact Or.inr ⟨not_established_of_idle hidle, fun e he => (hidle e he).1⟩
  · have hidle := hp.of_ends hfirst
    rw [established_append, or_iff_right (not_established_of_idle hidle)]
    rcases hf a tr₂ r hrest with
      ⟨hopen, before, e, after, rfl, he, hbefore, hafter⟩ | ⟨hopen, hnone⟩
    · refine Or.inl ⟨hopen, tr₁ ++ before, e, after, ?_, he, ?_, hafter⟩
      · rw [List.append_assoc]
      · exact List.forall_mem_append.mpr
          ⟨fun e he => ⟨(hidle e he).1, (hidle e he).2.1⟩, hbefore⟩
    · exact Or.inr ⟨hopen, List.forall_mem_append.mpr ⟨fun e he => (hidle e he).1, hnone⟩⟩

/-- **What opens and then accepts is served.** -/
theorem Opens.served {p : Session Unit} (hp : Opens p) (plane : DataPlane) :
    Served (p >>= fun _ => acceptAndRelay plane) := by
  intro tr r h
  rcases h.of_bind with ⟨e, hfail, rfl⟩ | ⟨a, tr₁, tr₂, rfl, hfirst, hrest⟩
  · obtain ⟨hsilent, hopen⟩ := hp tr _ hfail
    refine Or.inr ⟨fun hest => ?_, fun e he => (hsilent e he).1⟩
    obtain ⟨a, ha⟩ := hopen.mp hest
    cases ha
  · obtain ⟨hsilent, hopen⟩ := hp tr₁ _ hfirst
    obtain ⟨e, after, rfl, he, hafter⟩ := of_ends_acceptAndRelay hrest
    refine Or.inl ⟨established_append.mpr (Or.inl (hopen.mpr ⟨a, rfl⟩)), ?_⟩
    exact ⟨tr₁, e, after, rfl, he, hsilent, hafter⟩

theorem served_handleDirectDial (target : Endpoint) : Served (handleDirectDial target) := by
  have haddr : Only Idle (fun _ => True) (targetAddr target) := by
    unfold targetAddr
    split
    · trivial
    · exact ⟨⟨rfl, rfl, fun _ h => h⟩, fun x => Only.orFail _ x⟩
  exact Served.bind haddr fun addr => (opens_connect addr).served .copy

/-- Dialling the server answers nothing. -/
theorem Served.dial {p : Session Unit} (hp : Served p) (tunnel : Tunnel) (server : SocketAddr) :
    Served (Prog.ask (.dial tunnel server) (orErr .io) >>= fun _ => p) :=
  Served.bind ⟨⟨rfl, rfl, fun _ h => h⟩, fun x => Only.check _ x⟩ fun _ => hp

theorem served_bridgeCarrierToSocks (user : UserId) (target : Endpoint) :
    Served (bridgeCarrierToSocks user target) :=
  (opens_exchange user .none target).served .copy

theorem served_bridgeRawToSocks (user : UserId) (flow : FlowKind) (target : Endpoint) :
    Served (bridgeRawToSocks user flow target) :=
  (opens_exchange user flow target).served _

/-! ## The handshake writes no reply to a request it accepts -/

/-- Where it returns, the program has written no reply. -/
def Quiet {α : Type} (p : Handshake α) : Prop :=
  ∀ tr a, Ends p tr (.ok a) → ∀ e ∈ tr, replyCode (.socks e.1) = none

section Quiet

variable {α β : Type} {p : Handshake α}

theorem Quiet.of_only (h : Only (fun o => replyCode (.socks o) = none) (fun _ => True) p) :
    Quiet p :=
  fun _ _ hrun => h.of_ends hrun

theorem Quiet.bind {f : α → Handshake β} (hp : Quiet p) (hf : ∀ a, Quiet (f a)) :
    Quiet (p >>= f) := by
  intro tr b h
  rcases h.of_bind with ⟨e, -, hr⟩ | ⟨a, tr₁, tr₂, rfl, hfirst, hrest⟩
  · cases hr
  · exact List.forall_mem_append.mpr ⟨hp tr₁ a hfirst, hf a tr₂ b hrest⟩

/-- What fails in the end may write what it likes. -/
theorem Quiet.bind_fail (e : SocksError) : Quiet (p >>= fun _ => (.fail e : Handshake β)) := by
  intro tr b h
  rcases h.of_bind with ⟨e', -, hr⟩ | ⟨a, tr₁, tr₂, rfl, -, hrest⟩
  · cases hr
  · obtain ⟨-, hr⟩ := Ends.of_fail hrest
    cases hr

theorem Quiet.fail (e : SocksError) : Quiet (.fail e : Handshake α) := Quiet.of_only trivial

theorem quiet_readBytes (n : ℕ) : Quiet (readBytes n) :=
  Quiet.of_only (Stream.only_readExactOrFail _ (fun _ => rfl) _ n)

end Quiet

theorem quiet_greet : Quiet greet := by
  refine (quiet_readBytes 2).bind fun header => ?_
  split
  · exact Quiet.fail _
  · refine (quiet_readBytes _).bind fun methods => ?_
    split
    · exact Quiet.bind_fail _
    · exact Quiet.of_only ⟨rfl, fun ok => Only.check _ ok⟩

theorem quiet_readAddress (atyp : UInt8) : Quiet (readAddress atyp) := by
  have hpure : ∀ address : Address, Quiet (pure address) := fun _ => Quiet.of_only trivial
  unfold readAddress
  split
  · exact (quiet_readBytes 4).bind fun _ => hpure _
  · split
    · exact (quiet_readBytes 16).bind fun _ => hpure _
    · split
      · refine (quiet_readBytes 1).bind fun len => (quiet_readBytes _).bind fun buf => ?_
        split
        · exact Quiet.fail _
        · split
          · exact Quiet.fail _
          · exact hpure _
      · exact Quiet.fail _

theorem quiet_handshakeConnect : Quiet handshakeConnect := by
  refine quiet_greet.bind fun _ => (quiet_readBytes 4).bind fun head => ?_
  split
  · exact Quiet.fail _
  · split
    · exact Quiet.bind_fail _
    · refine (quiet_readAddress _).bind fun address => ?_
      refine Quiet.bind ((quiet_readBytes 2).bind fun _ => Quiet.of_only trivial) fun port => ?_
      exact Quiet.of_only trivial

variable {target : Endpoint}

/-- A request that is accepted has been answered by nothing but the choice of a method. -/
theorem idle_of_ends_handshake (h : Ends (onSocks handshakeConnect) tr (.ok target)) :
    ∀ e ∈ tr, Idle e.1 := by
  obtain ⟨tr', hends, hops⟩ := Ends.of_embed h
  have hquiet := quiet_handshakeConnect tr' target hends
  intro e he
  have hmem : e.1 ∈ tr'.map fun e => SessionOp.socks e.1 := by
    rw [← hops]
    exact List.mem_map_of_mem he
  obtain ⟨e', he', hop⟩ := List.mem_map.mp hmem
  rw [← hop]
  exact ⟨hquiet e' he', rfl, fun _ h => h⟩

/-- What follows an accepted handshake. -/
theorem served_socksSession {router : Routing.Router} {proxy : Endpoint → Session Unit}
    (hproxy : ∀ target, Served (proxy target)) {hs rest : Trace}
    (haccept : Ends (onSocks handshakeConnect) hs (.ok target))
    (hrun : Ends (socksSession router proxy) (hs ++ rest) r) :
    (Established rest ∧ Answered rest) ∨
      (¬ Established rest ∧ ∀ e ∈ rest, replyCode e.1 = none) := by
  have hrest := (Ends.bind_append_iff haccept).mp hrun
  cases hroute : classifyRoute router target with
  | block =>
    simp only [hroute] at hrest
    exact served_pure rest r hrest
  | direct =>
    simp only [hroute] at hrest
    exact served_handleDirectDial target rest r hrest
  | proxy =>
    simp only [hroute] at hrest
    exact hproxy target rest r hrest

theorem served_handleSocksSession {server : SocketAddr} {user : UserId} {router : Routing.Router}
    {flow : FlowKind} (tunnel : Tunnel) {hs rest : Trace}
    (haccept : Ends (onSocks handshakeConnect) hs (.ok target))
    (hrun : Ends (handleSocksSession server user router flow tunnel) (hs ++ rest) r) :
    (Established rest ∧ Answered rest) ∨
      (¬ Established rest ∧ ∀ e ∈ rest, replyCode e.1 = none) := by
  cases tunnel with
  | veil =>
    refine served_socksSession (fun target => Served.dial ?_ .veil server) haccept hrun
    exact Served.bind ⟨⟨rfl, rfl, fun _ h => h⟩, fun x => Only.check _ x⟩
      fun _ => served_bridgeCarrierToSocks user target
  | xhttp =>
    refine served_socksSession (fun target => Served.dial ?_ .xhttp server) haccept hrun
    exact served_bridgeCarrierToSocks user target
  | h3 =>
    refine served_socksSession (fun target => Served.dial ?_ .h3 server) haccept hrun
    exact served_bridgeCarrierToSocks user target
  | raw =>
    refine served_socksSession (fun target => Served.dial ?_ .raw server) haccept hrun
    exact served_bridgeRawToSocks user flow target

theorem not_oneAnswer (h : ∀ e ∈ tr, replyCode e.1 = none) : ¬ OneAnswer tr := by
  rintro ⟨before, e, after, rep, rfl, he, -⟩
  rw [h e (List.mem_append_right before List.mem_cons_self)] at he
  cases he

/-- **Which requests get their answer.**  For every tunnel and every complete run of its handler
in which the handshake accepts a request, whatever is answered to the session on the way: there is
exactly one reply, in time and with the right code, exactly if the target or the tunnel was
established.  Otherwise there is none. -/
theorem socks_answers_iff (tunnel : Tunnel) (server : SocketAddr) (user : UserId)
    (router : Routing.Router) (flow : FlowKind) (hs rest : Trace) (target : Endpoint)
    (r : Except LocalProxyError Unit) (haccept : Ends (onSocks handshakeConnect) hs (.ok target))
    (hrun : Ends (handleSocksSession server user router flow tunnel) (hs ++ rest) r) :
    (OneAnswer (hs ++ rest) ↔ Established (hs ++ rest)) ∧
      (¬ Established (hs ++ rest) → ∀ e ∈ hs ++ rest, replyCode e.1 = none) := by
  have hidle := idle_of_ends_handshake haccept
  have hsame : Established (hs ++ rest) ↔ Established rest := by
    rw [established_append]
    exact or_iff_right (not_established_of_idle hidle)
  rcases served_handleSocksSession tunnel haccept hrun with
    ⟨hopen, before, e, after, rfl, he, hbefore, hafter⟩ | ⟨hopen, hnone⟩
  · have hest := hsame.mpr hopen
    refine ⟨iff_of_true ?_ hest, fun h => absurd hest h⟩
    refine ⟨hs ++ before, e, after, repSucceeded, (List.append_assoc _ _ _).symm, he, ?_, hafter,
      iff_of_true rfl hest⟩
    exact List.forall_mem_append.mpr ⟨fun e he => ⟨(hidle e he).1, (hidle e he).2.1⟩, hbefore⟩
  · have hsilent : ∀ e ∈ hs ++ rest, replyCode e.1 = none :=
      List.forall_mem_append.mpr ⟨fun e he => (hidle e he).1, hnone⟩
    exact ⟨iff_of_false (not_oneAnswer hsilent) (fun h => hopen (hsame.mp h)), fun _ => hsilent⟩

/-- A CONNECT to 1.2.3.4:80, as it arrives and is accepted. -/
def connectTrace : Trace :=
  [⟨.socks (.read 2), some [5, 1]⟩, ⟨.socks (.read 1), some [0]⟩,
    ⟨.socks (.writeAll [5, 0]), true⟩, ⟨.socks (.read 4), some [5, 1, 0, 1]⟩,
    ⟨.socks (.read 4), some [1, 2, 3, 4]⟩, ⟨.socks (.read 2), some [0, 80]⟩]

theorem ends_connectTrace :
    Ends (onSocks handshakeConnect) connectTrace
      (.ok ⟨.ip (.v4 (Octets.fromSlice 4 [1, 2, 3, 4])), 80⟩) := by
  iterate 6 refine Ends.ask _ ?_
  exact Ends.pure _

/-- The target is blocked. -/
theorem ends_blocked :
    Ends (handleVeilSocksSession unspecified (List.Vector.replicate 16 0) ⟨[], "block"⟩)
      (connectTrace ++ []) (.ok ()) := by
  have hroute : classifyRoute ⟨[], "block"⟩
      ⟨.ip (.v4 (Octets.fromSlice 4 [1, 2, 3, 4])), 80⟩ = .block := by decide
  refine (Ends.bind_append_iff ends_connectTrace).mpr ?_
  simp only [hroute]
  exact Ends.pure ()

/-- The answer of a target that refuses. -/
def refused : Trace := [⟨.connect ⟨.v4 (Octets.fromSlice 4 [1, 2, 3, 4]), 80⟩, false⟩]

/-- The target is dialled from here, and refuses. -/
theorem ends_refused :
    Ends (handleVeilSocksSession unspecified (List.Vector.replicate 16 0) ⟨[], "direct"⟩)
      (connectTrace ++ refused) (.error .io) := by
  have hroute : classifyRoute ⟨[], "direct"⟩
      ⟨.ip (.v4 (Octets.fromSlice 4 [1, 2, 3, 4])), 80⟩ = .direct := by decide
  refine (Ends.bind_append_iff ends_connectTrace).mpr ?_
  simp only [hroute]
  exact Ends.ask _ (Ends.fail _)

theorem replyCode_connectTrace : ∀ e ∈ connectTrace, replyCode e.1 = none := fun e he =>
  (idle_of_ends_handshake ends_connectTrace e he).1

/-- A blocked request and a refused one: the handshake accepts, the session ends, and nothing was
replied. -/
theorem socks_unanswered :
    Ends (onSocks handshakeConnect) connectTrace
        (.ok ⟨.ip (.v4 (Octets.fromSlice 4 [1, 2, 3, 4])), 80⟩) ∧
      (Ends (handleVeilSocksSession unspecified (List.Vector.replicate 16 0) ⟨[], "block"⟩)
        (connectTrace ++ []) (.ok ()) ∧ ¬ OneAnswer (connectTrace ++ [])) ∧
      (Ends (handleVeilSocksSession unspecified (List.Vector.replicate 16 0) ⟨[], "direct"⟩)
        (connectTrace ++ refused) (.error .io) ∧ ¬ OneAnswer (connectTrace ++ refused)) := by
  refine ⟨ends_connectTrace, ⟨ends_blocked, not_oneAnswer ?_⟩, ends_refused, not_oneAnswer ?_⟩
  · rw [List.append_nil]
    exact replyCode_connectTrace
  · exact List.forall_mem_append.mpr ⟨replyCode_connectTrace, List.forall_mem_singleton.mpr rfl⟩

/-- The refused request, by the theorem. -/
theorem socks_answers_iff_refused :
    ¬ Established (connectTrace ++ refused) ∧ ¬ OneAnswer (connectTrace ++ refused) := by
  have hmain := socks_answers_iff .veil unspecified (List.Vector.replicate 16 0) ⟨[], "direct"⟩
    .none connectTrace _ _ _ ends_connectTrace ends_refused
  have hnone : ¬ Established (connectTrace ++ refused) := by
    rw [established_append]
    rintro (h | ⟨e, he, hx⟩)
    · exact not_established_of_idle (idle_of_ends_handshake ends_connectTrace) h
    · rw [List.mem_singleton.mp he] at hx
      cases hx
  exact ⟨hnone, fun h => hnone (hmain.1.mp h)⟩

end Client
end HoldTheDonut
