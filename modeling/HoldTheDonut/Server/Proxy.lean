import HoldTheDonut.Server.Session

/-!
# `donut-server/src/proxy.rs`: the session handlers

Two handlers serve a client.  `handleSession` reads an opaque stream;
`handleXrayVisionSession` drives the outer TLS record by record, and shows the decoy to
a caller whose first byte is not the version.  Both read until a request header decodes,
check the user against the current snapshot of the accepted users, and then serve one of
three commands: `Mux`, a target over UDP, a target over TCP.

The check is the only gate.  The file ends with the statement that it is one, on every
path of both handlers and for every behaviour of the network: whatever is done with an
address that came out of a request, and every byte of a response, is preceded in the
same run by a complete header and by a snapshot that has its user in it.
-/

namespace HoldTheDonut
namespace Server

open Interaction Routing
open Wire (Request Response WireError)

/-- Which Vision data plane to speak for `flow=Extended`. -/
inductive VisionDialect where
  | donut
  | xray
  deriving DecidableEq

/-- `Response::default()`, encoded. -/
def defaultResponse : List UInt8 := (Response.mk ⟨"", []⟩).encode

/-- The response header goes out. -/
def respond : Handler Unit := perform (.respond defaultResponse) >>= orIo

/-- Dial, `?`. -/
def connect (u : Upstream) : Handler Upstream := do
  perform (.connect u) >>= orIo
  pure u

/-- Copy both ways between the client and the upstream, early bytes first. -/
def copyBidirectional (u : Upstream) (early : List UInt8) : Handler Unit :=
  perform (.copyBidirectional u early)

/-- The same through donut's own Vision padding. -/
def visionCopy (u : Upstream) (early : List UInt8) : Handler Unit :=
  perform (.visionCopy u early)

/-! ## `handle_session` -/

/-- Decode what has been read so far, or read more. -/
def decodeHeader {α : Type} (buf : List UInt8) (found : Request × List UInt8 → α)
    (more : Handler α) : Handler α :=
  match Wire.Request.decode buf with
  | .ok r => pure (found r)
  | .error e => if WireError.Truncated e then more else .fail (.wire e)

/-- Read until the header decodes. -/
def readHeader : ℕ → List UInt8 → Handler (Request × List UInt8)
  | 0, _ => .halt
  | fuel + 1, buf => do
    match ← perform .readClient with
    | none => .fail .io
    -- the end of the stream is `UnexpectedEof`
    | some [] => .fail .io
    | some (b :: bytes) =>
      decodeHeader (buf ++ b :: bytes) id (readHeader fuel (buf ++ b :: bytes))

/-- `Command::Udp`. -/
def serveUdp (fuel : ℕ) (router : Router) (outbounds : Outbounds) (ep : Endpoint)
    (leftover : List UInt8) : Handler Unit :=
  let tag := router.route ep
  if isBlocked tag then pure ()
  else
    match outbounds.get tag with
    | some chain => do
      let u ← connect (.chain chain ep .udp)
      respond
      copyBidirectional u leftover
    | none => do
      let addr ← resolve ep
      respond
      visionUdpRelay fuel addr leftover

/-- The egress of a TCP target: up the cascade, or direct. -/
def dialTcp (outbounds : Outbounds) (tag : String) (ep : Endpoint)
    (fragment : Option FragmentParams) : Handler Upstream :=
  match outbounds.get tag with
  | some chain => connect (.chain chain ep .tcp)
  | none => do
    let addr ← resolve ep
    connect (.target addr fragment)

/-- The client's early bytes; the ClientHello split if the egress is direct and configured
so. -/
def writeEarly (fuel : ℕ) (outbounds : Outbounds) (isDirect : Bool) (u : Upstream)
    (leftover : List UInt8) : Handler Unit :=
  match isDirect, outbounds.fragment with
  | true, some frag => do
    let r ← readFirstRecord fuel leftover
    writeFragmented u r.1 frag
    writeUpNonempty u r.2
  | _, _ => writeUpNonempty u leftover

/-- A plain flow: the early bytes, then a copy both ways. -/
def relayPlain (fuel : ℕ) (outbounds : Outbounds) (isDirect : Bool) (u : Upstream)
    (leftover : List UInt8) : Handler Unit := do
  writeEarly fuel outbounds isDirect u leftover
  copyBidirectional u []
  closeUp u
  closeClient

/-- `Command::Tcp`. -/
def serveTcp (fuel : ℕ) (dialect : VisionDialect) (router : Router) (outbounds : Outbounds)
    (flow : FlowKind) (ep : Endpoint) (leftover : List UInt8) : Handler Unit :=
  let tag := router.route ep
  if isBlocked tag then pure ()
  else do
    let u ← dialTcp outbounds tag ep none
    respond
    match flow with
    | .extended =>
      match dialect with
      | .xray => .fail .unreachable
      | .donut => visionCopy u leftover
    | .none => relayPlain fuel outbounds (outbounds.get tag).isNone u leftover

/-- Everything behind the credential check. -/
def serveSession (fuel : ℕ) (dialect : VisionDialect) (router : Router) (outbounds : Outbounds)
    (request : Request) (leftover : List UInt8) : Handler Unit :=
  match request.command with
  | .mux => do
    respond
    muxRelay fuel router outbounds none leftover
  | .udp => do
    let ep ← Prog.orFail .unsupportedCommand request.target
    serveUdp fuel router outbounds ep leftover
  | .tcp => do
    let ep ← Prog.orFail .unsupportedCommand request.target
    serveTcp fuel dialect router outbounds request.flow ep leftover

/-- `AuthHandle::is_authorized`, and what follows when it says yes. -/
def ifAuthorized (request : Request) (serve : Handler Unit) : Handler Unit := do
  let users ← perform .loadUsers
  if UserAuth.isAuthorized users request.user then serve else pure ()

def handleSession (fuel : ℕ) (dialect : VisionDialect) (router : Router) (outbounds : Outbounds) :
    Handler Unit := do
  let r ← readHeader fuel []
  ifAuthorized r.1 (serveSession fuel dialect router outbounds r.1 r.2)

/-! ## `handle_xray_vision_session` -/

/-- Relay a caller that is no client to the decoy, if there is one. -/
def selfSteal (fuel : ℕ) (decoy : Option SocketAddr) (probe : List UInt8) : Handler Unit :=
  match decoy with
  | none => pure ()
  | some d => do
    let ok : Bool ← perform (.connect (.decoy d))
    if ok then (tlsPlainRelay fuel (.decoy d) probe).ignoring else pure ()

/-- Read records until the header decodes.  `none` means that the session is over: the
stream has ended, or the caller went to the decoy. -/
def readRecordHeader (decoy : Option SocketAddr) :
    ℕ → List UInt8 → Handler (Option (Request × List UInt8))
  | 0, _ => .halt
  | fuel + 1, buf => do
    match ← perform .readRecord with
    | none => .fail .io
    | some none => pure none
    | some (some []) => pure none
    | some (some (b :: bytes)) =>
      if (buf ++ b :: bytes).headD 0 ≠ Wire.version then do
        selfSteal fuel decoy (buf ++ b :: bytes)
        pure none
      else
        decodeHeader (buf ++ b :: bytes) some (readRecordHeader decoy fuel (buf ++ b :: bytes))

/-- `Command::Udp` inside the outer TLS. -/
def serveXrayUdp (fuel : ℕ) (outbounds : Outbounds) (tag : String) (ep : Endpoint)
    (leftover : List UInt8) : Handler Unit :=
  match outbounds.get tag with
  | some chain => do
    let u ← connect (.chain chain ep .udp)
    respond
    tlsPlainRelay fuel u leftover
  | none => do
    let addr ← resolve ep
    respond
    visionUdpRelay fuel addr leftover

/-- `Command::Tcp` inside the outer TLS, or spliced out of it. -/
def serveXrayTcp (fuel : ℕ) (outbounds : Outbounds) (tag : String) (request : Request)
    (ep : Endpoint) (leftover : List UInt8) : Handler Unit := do
  let u ← dialTcp outbounds tag ep outbounds.fragment
  respond
  match request.flow with
  | .extended => perform (.visionServerSplice u request.user leftover) >>= orIo
  | .none => tlsPlainRelay fuel u leftover

def serveXraySession (fuel : ℕ) (router : Router) (outbounds : Outbounds) (request : Request)
    (leftover : List UInt8) : Handler Unit :=
  match request.command, request.target with
  | .mux, _ => do
    respond
    muxRelay fuel router outbounds (if request.flow = .extended then some request.user else none)
      leftover
  | .tcp, some ep =>
    let tag := router.route ep
    if isBlocked tag then pure () else serveXrayTcp fuel outbounds tag request ep leftover
  | .udp, some ep =>
    let tag := router.route ep
    if isBlocked tag then pure () else serveXrayUdp fuel outbounds tag ep leftover
  | _, none => .fail .unsupportedCommand

def handleXrayVisionSession (fuel : ℕ) (decoy : Option SocketAddr) (router : Router)
    (outbounds : Outbounds) : Handler Unit := do
  match ← readRecordHeader decoy fuel [] with
  | none => pure ()
  | some r => ifAuthorized r.1 (serveXraySession fuel router outbounds r.1 r.2)

/-! ## The gate -/

/-- The bytes an operation received from the client. -/
def clientBytes : (op : Op) → Ans op → List UInt8
  | .readClient, some bytes => bytes
  | .readRecord, some (some pt) => pt
  | _, _ => []

/-- The bytes received from the client. -/
def received (h : List (Entry Op Ans)) : List UInt8 := h.flatMap fun e => clientBytes e.1 e.2

/-- A complete header has been received, and a snapshot was loaded that has its user. -/
def Granted (h : List (Entry Op Ans)) : Prop :=
  ∃ before users after request leftover,
    h = before ++ ⟨.loadUsers, users⟩ :: after ∧
      Wire.Request.decode (received before) = .ok (request, leftover) ∧
        request.user ∈ UserAuth.users users

/-- What the client has sent does not start with the version. -/
def Foreign (h : List (Entry Op Ans)) : Prop :=
  ∃ b rest, received h = b :: rest ∧ b ≠ Wire.version

/-- May an operation be performed after `h`, in a session with this decoy? -/
def Cleared (decoy : Option SocketAddr) (h : List (Entry Op Ans)) (op : Op) : Prop :=
  match op.clearance with
  | .free => True
  | .decoy addr => decoy = some addr ∧ Foreign h
  | .request => Granted h

/-- Every operation of a run was cleared by what came before it. -/
def Gated (decoy : Option SocketAddr) (tr : List (Entry Op Ans)) : Prop :=
  ∀ before e after, tr = before ++ e :: after → Cleared decoy before e.1

@[simp] theorem received_append (h h' : List (Entry Op Ans)) :
    received (h ++ h') = received h ++ received h' := List.flatMap_append

variable {h : List (Entry Op Ans)}

theorem Granted.append (hg : Granted h) (rest : List (Entry Op Ans)) : Granted (h ++ rest) := by
  obtain ⟨before, users, after, request, leftover, rfl, hdecode, hmem⟩ := hg
  exact ⟨before, users, after ++ rest, request, leftover, by simp, hdecode, hmem⟩

theorem Foreign.append (hf : Foreign h) (rest : List (Entry Op Ans)) : Foreign (h ++ rest) := by
  obtain ⟨b, bytes, hb, hne⟩ := hf
  exact ⟨b, bytes ++ received rest, by rw [received_append, hb, List.cons_append], hne⟩


theorem cleared_of_free {decoy : Option SocketAddr} {op : Op} (hop : op.clearance = .free) :
    Cleared decoy h op := by
  rw [Cleared, hop]
  trivial

/-- Behind the gate everything is cleared that is not for the decoy. -/
theorem Granted.cleared {decoy : Option SocketAddr} (hg : Granted h) {op : Op} (hop : op.NotDecoy) :
    Cleared decoy h op := by
  unfold Cleared
  split
  · trivial
  · next addr hc => exact absurd hc (hop addr)
  · exact hg

/-- A foreign caller may be relayed to the decoy. -/
theorem Foreign.cleared {d : SocketAddr} {h : List (Entry Op Ans)} (hf : Foreign h) {op : Op}
    (hop : OnUpstream (.decoy d) op) : Cleared (some d) h op := by
  rcases hop with hfree | hdecoy
  · exact cleared_of_free hfree
  · rw [Cleared, hdecoy]
    exact ⟨rfl, hf⟩

/-! ## Before the gate -/

section Before

variable {decoy : Option SocketAddr}

/-- What both header loops return: nothing, or what all the bytes so far decode to. -/
def Decoded (h : List (Entry Op Ans)) (r : Option (Request × List UInt8)) : Prop :=
  ∀ x, r = some x → Wire.Request.decode (received h) = .ok x

theorem received_readClient (h : List (Entry Op Ans)) (bytes : List UInt8) :
    received (h ++ [⟨.readClient, some bytes⟩]) = received h ++ bytes := by
  rw [received_append]
  exact congrArg _ (List.append_nil _)

theorem received_readRecord (h : List (Entry Op Ans)) (bytes : List UInt8) :
    received (h ++ [⟨.readRecord, some (some bytes)⟩]) = received h ++ bytes := by
  rw [received_append]
  exact congrArg _ (List.append_nil _)

theorem ensures_decodeHeader {α : Type} {ok : List (Entry Op Ans) → Op → Prop}
    {Q : List (Entry Op Ans) → α → Prop} {buf : List UInt8} {found : Request × List UInt8 → α}
    {more : Handler α} (hfound : ∀ r, Wire.Request.decode buf = .ok r → Q h (found r))
    (hmore : Ensures ok Q h more) : Ensures ok Q h (decodeHeader buf found more) := by
  unfold decodeHeader
  split
  · next r hr => exact hfound r hr
  · split
    · exact hmore
    · trivial

/-- The header loop reads, and what it returns has been decoded from all it has read. -/
theorem ensures_readHeader (fuel : ℕ) (h : List (Entry Op Ans)) :
    Ensures (Cleared decoy) (fun h' r => Decoded h' (some r)) h
      (readHeader fuel (received h)) := by
  induction fuel generalizing h with
  | zero => trivial
  | succ fuel ih =>
    refine ⟨cleared_of_free rfl, fun x => ?_⟩
    match x with
    | none => trivial
    | some [] => trivial
    | some (b :: bytes) =>
      have hbuf := received_readClient h (b :: bytes)
      refine ensures_decodeHeader ?_ ?_
      · rintro r hr x hx
        cases hx
        rw [hbuf]
        exact hr
      · rw [← hbuf]
        exact ih _

/-- A caller whose bytes do not start with the version may be shown the decoy. -/
theorem ensures_selfSteal (fuel : ℕ) (decoy : Option SocketAddr) (probe : List UInt8)
    (hf : Foreign h) :
    Ensures (Cleared decoy) (fun _ _ => True) h (selfSteal fuel decoy probe) := by
  cases decoy with
  | none => trivial
  | some d =>
    have honly : Only (OnUpstream (.decoy d)) (fun _ => True) (selfSteal fuel (some d) probe) := by
      refine (only_perform_upstream rfl).bind fun ok _ => ?_
      split
      · exact (only_tlsPlainRelay fuel (.decoy d) probe).ignoring
      · trivial
    exact Ensures.of_only honly fun rest op hop => (hf.append rest).cleared hop

theorem ensures_readRecordHeader (fuel : ℕ) (h : List (Entry Op Ans)) :
    Ensures (Cleared decoy) Decoded h (readRecordHeader decoy fuel (received h)) := by
  induction fuel generalizing h with
  | zero => trivial
  | succ fuel ih =>
    have hnone : ∀ h', Decoded h' none := by
      intro h' x hx
      cases hx
    refine ⟨cleared_of_free rfl, fun x => ?_⟩
    match x with
    | none => trivial
    | some none => exact hnone _
    | some (some []) => exact hnone _
    | some (some (b :: bytes)) =>
      have hbuf := received_readRecord h (b :: bytes)
      change Ensures _ _ _ (if _ then _ else _)
      split
      · next hforeign =>
        refine (ensures_selfSteal fuel decoy _ ?_).bind fun h' _ _ => hnone h'
        cases hcase : received h ++ b :: bytes with
        | nil => exact absurd hcase (List.append_ne_nil_of_right_ne_nil _ (List.cons_ne_nil _ _))
        | cons c rest =>
          rw [hcase] at hforeign
          exact ⟨c, rest, hbuf.trans hcase, hforeign⟩
      · refine ensures_decodeHeader ?_ ?_
        · rintro r hr x hx
          cases hx
          rw [hbuf]
          exact hr
        · rw [← hbuf]
          exact ih _

/-- **The check opens the gate**: with a decoded header behind it, whoever passes may do
everything that is not for the decoy. -/
theorem ensures_ifAuthorized {r : Request × List UInt8} (hr : Decoded h (some r))
    {serve : Handler Unit} (hserve : AvoidsDecoy serve) :
    Ensures (Cleared decoy) (fun _ _ => True) h (ifAuthorized r.1 serve) := by
  refine ⟨cleared_of_free rfl, fun users => ?_⟩
  change Ensures _ _ _ (if _ then _ else _)
  split
  · next hauth =>
    have hgranted : Granted (h ++ [⟨.loadUsers, users⟩]) :=
      ⟨h, users, [], r.1, r.2, rfl, hr r rfl, (UserAuth.isAuthorized_iff users _).mp hauth⟩
    exact Ensures.of_only hserve fun rest op hop => (hgranted.append rest).cleared hop
  · trivial

end Before

/-! ## Behind the gate -/

section Behind

variable (fuel : ℕ) (router : Router) (outbounds : Outbounds) (leftover : List UInt8)

theorem only_respond : AvoidsDecoy respond :=
  only_fallible (only_perform_request rfl)

variable {u : Upstream}

theorem only_connect {P : Op → Prop} (hP : Dials P) (hu : u.NotDecoy) :
    Only P Upstream.NotDecoy (connect u) :=
  Only.bind (only_fallible (Only.perform (hP.connect u hu))) fun _ _ => hu

theorem notDecoy_chain (chain : ChainOutbound) (ep : Endpoint) (command : Command) :
    (Upstream.chain chain ep command).NotDecoy := by
  intro addr h
  cases h

theorem notDecoy_target (addr : SocketAddr) (fragment : Option FragmentParams) :
    (Upstream.target addr fragment).NotDecoy := by
  intro d h
  cases h

theorem only_dialTcp {P : Op → Prop} (hP : Dials P) (tag : String) (ep : Endpoint)
    (fragment : Option FragmentParams) :
    Only P Upstream.NotDecoy (dialTcp outbounds tag ep fragment) := by
  unfold dialTcp
  split
  · exact only_connect hP (notDecoy_chain _ _ _)
  · exact (only_resolve hP ep).bind fun addr _ => only_connect hP (notDecoy_target addr fragment)

theorem only_serveUdp (ep : Endpoint) :
    AvoidsDecoy (serveUdp fuel router outbounds ep leftover) := by
  unfold serveUdp
  simp only
  split
  · trivial
  · split
    · refine (only_connect dials_notDecoy (notDecoy_chain _ _ _)).bind fun u _ => ?_
      exact only_respond.bind fun _ _ => only_perform_request rfl
    · refine (only_resolve dials_notDecoy ep).bind fun addr _ => ?_
      exact only_respond.bind fun _ _ => only_visionUdpRelay fuel addr leftover

theorem only_writeEarly (isDirect : Bool) (hu : u.NotDecoy) :
    AvoidsDecoy (writeEarly fuel outbounds isDirect u leftover) := by
  have hwrite : ∀ bytes, AvoidsDecoy (writeUpNonempty u bytes) :=
    fun bytes => (only_writeUpNonempty u bytes).mono fun _ => OnUpstream.notDecoy hu
  unfold writeEarly
  split
  · refine (only_readFirstRecord fuel leftover).bind fun r _ => ?_
    exact (only_writeFragmented hu r.1 _).bind fun _ _ => hwrite r.2
  · exact hwrite leftover

theorem only_relayPlain (isDirect : Bool) (hu : u.NotDecoy) :
    AvoidsDecoy (relayPlain fuel outbounds isDirect u leftover) := by
  refine (only_writeEarly fuel outbounds leftover isDirect hu).bind fun _ _ => ?_
  refine (only_perform_request rfl).bind fun _ _ => ?_
  refine Only.bind (R := fun _ => True) ?_ fun _ _ => only_perform_notDecoy rfl
  exact (only_perform_upstream (u := u) rfl).mono fun _ => OnUpstream.notDecoy hu

theorem only_serveTcp (dialect : VisionDialect) (flow : FlowKind) (ep : Endpoint) :
    AvoidsDecoy (serveTcp fuel dialect router outbounds flow ep leftover) := by
  unfold serveTcp
  simp only
  split
  · trivial
  · refine (only_dialTcp outbounds dials_notDecoy _ ep none).bind fun u hu => ?_
    refine only_respond.bind fun _ _ => ?_
    cases flow with
    | extended =>
      cases dialect with
      | donut => exact only_perform_request rfl
      | xray => trivial
    | none => exact only_relayPlain fuel outbounds leftover _ hu

theorem only_serveSession (dialect : VisionDialect) (request : Request) :
    AvoidsDecoy (serveSession fuel dialect router outbounds request leftover) := by
  unfold serveSession
  split
  · exact only_respond.bind fun _ _ => only_muxRelay fuel router outbounds none leftover
  · exact (Only.orFail _ _).bind fun ep _ => only_serveUdp fuel router outbounds leftover ep
  · exact (Only.orFail _ _).bind fun ep _ =>
      only_serveTcp fuel router outbounds leftover dialect request.flow ep

theorem only_tlsPlainRelay_notDecoy (hu : u.NotDecoy) :
    AvoidsDecoy (tlsPlainRelay fuel u leftover) :=
  (only_tlsPlainRelay fuel u leftover).mono fun _ => OnUpstream.notDecoy hu

theorem only_serveXrayUdp (tag : String) (ep : Endpoint) :
    AvoidsDecoy (serveXrayUdp fuel outbounds tag ep leftover) := by
  unfold serveXrayUdp
  split
  · refine (only_connect dials_notDecoy (notDecoy_chain _ _ _)).bind fun u hu => ?_
    exact only_respond.bind fun _ _ => only_tlsPlainRelay_notDecoy fuel leftover hu
  · refine (only_resolve dials_notDecoy ep).bind fun addr _ => ?_
    exact only_respond.bind fun _ _ => only_visionUdpRelay fuel addr leftover

theorem only_serveXrayTcp (tag : String) (request : Request) (ep : Endpoint) :
    AvoidsDecoy (serveXrayTcp fuel outbounds tag request ep leftover) := by
  refine (only_dialTcp outbounds dials_notDecoy tag ep outbounds.fragment).bind fun u hu => ?_
  refine only_respond.bind fun _ _ => ?_
  split
  · exact only_fallible (only_perform_request rfl)
  · exact only_tlsPlainRelay_notDecoy fuel leftover hu

theorem only_serveXraySession (request : Request) :
    AvoidsDecoy (serveXraySession fuel router outbounds request leftover) := by
  unfold serveXraySession
  split
  · exact only_respond.bind fun _ _ => only_muxRelay fuel router outbounds _ leftover
  · next ep _ _ =>
    simp only
    split
    · trivial
    · exact only_serveXrayTcp fuel outbounds leftover _ request ep
  · next ep _ _ =>
    simp only
    split
    · trivial
    · exact only_serveXrayUdp fuel outbounds leftover _ ep
  · trivial

end Behind

/-! ## Both handlers -/

theorem ensures_handleSession (fuel : ℕ) (dialect : VisionDialect) (router : Router)
    (outbounds : Outbounds) :
    Ensures (Cleared none) (fun _ _ => True) []
      (handleSession fuel dialect router outbounds) :=
  (ensures_readHeader fuel []).bind fun _ r hr =>
    ensures_ifAuthorized hr (only_serveSession fuel router outbounds r.2 dialect r.1)

theorem ensures_handleXrayVisionSession (fuel : ℕ) (decoy : Option SocketAddr) (router : Router)
    (outbounds : Outbounds) :
    Ensures (Cleared decoy) (fun _ _ => True) []
      (handleXrayVisionSession fuel decoy router outbounds) := by
  refine (ensures_readRecordHeader fuel []).bind fun h r hr => ?_
  cases r with
  | none => trivial
  | some r =>
    exact ensures_ifAuthorized hr (only_serveXraySession fuel router outbounds r.2 r.1)

/-- **The credential gate.**  In every run of either handler, whatever is resolved, dialled
or sent on behalf of a request, and every byte of a response, comes after a complete header
and a snapshot of the accepted users that has its user in it; the only other connection is
to the configured decoy, for a caller whose first byte is not the version. -/
theorem sessions_gated (router : Router) (outbounds : Outbounds) (fuel : ℕ)
    (tr : List (Entry Op Ans)) :
    (∀ dialect, Performs (handleSession fuel dialect router outbounds) tr → Gated none tr) ∧
      ∀ decoy, Performs (handleXrayVisionSession fuel decoy router outbounds) tr →
        Gated decoy tr := by
  constructor
  · intro dialect htr before e after heq
    exact Ensures.of_performs htr (ensures_handleSession fuel dialect router outbounds) heq
  · intro decoy htr before e after heq
    exact Ensures.of_performs htr
      (ensures_handleXrayVisionSession fuel decoy router outbounds) heq

/-- A client asks for `Mux` in one read, is known, and gets its response. -/
def muxTrace : List (Entry Op Ans) :=
  [⟨.readClient, some (0 :: List.replicate 16 7 ++ [0, 3])⟩,
    ⟨.loadUsers, UserAuth.mk [List.Vector.replicate 16 7]⟩,
    ⟨.respond defaultResponse, true⟩]

theorem sessions_gated_mux :
    Performs (handleSession 1 .donut ⟨[], "freedom"⟩ .empty) muxTrace ∧ Gated none muxTrace := by
  have htr : Performs (handleSession 1 .donut ⟨[], "freedom"⟩ .empty) muxTrace :=
    .ask _ (.ask _ (.ask _ (.nil _)))
  exact ⟨htr, (sessions_gated ⟨[], "freedom"⟩ .empty 1 muxTrace).1 .donut htr⟩

end Server
end HoldTheDonut
