import HoldTheDonut.Core.Auth
import HoldTheDonut.Interaction.Program
import HoldTheDonut.Mux.Relay
import HoldTheDonut.Wire.Segmentation

/-!
# What a session does, and its relays

A session handler of the server is a program over the operations below: everything it
awaits is an operation, and the answer is the network's.  The relays are programs of
their own.  `tls_plain_relay`, `vision_udp_relay` and the first-record path of
`fragment.rs` are written out here; the Mux relay drives the machine of `Mux.Relay` and
performs what that logs.  The copies that only move bytes between two streams until one
of them is closed, and `vision_server_splice`, of which `Vision.Splice` is the model, are
one operation each.

Idle timeouts only end relays, which an environment can do to any of them; metrics are
left out.
-/

namespace HoldTheDonut
namespace Server

open Interaction Routing
open Wire (Request Response WireError)

inductive ProxyError where
  | io
  | wire (e : WireError)
  | unsupportedCommand
  | resolve (host : String)
  /-- The `unreachable!` of a dialect that is served elsewhere. -/
  | unreachable
  /-- A panic in the arithmetic of a pick. -/
  | overflow

/-- What a session relays to. -/
inductive Upstream where
  /-- The request's target, perhaps behind a `FragmentWriter`. -/
  | target (addr : SocketAddr) (fragment : Option FragmentParams)
  /-- A chain outbound, asked to reach an endpoint. -/
  | chain (outbound : ChainOutbound) (ep : Endpoint) (command : Command)
  /-- The site that callers who are no clients are shown. -/
  | decoy (addr : SocketAddr)
  deriving DecidableEq

/-- The outcome of a read that may reach the end of the stream; `none` is an error. -/
abbrev ReadResult : Type := Option (Option (List UInt8))

/-- What the plain relay wakes up for: the client or the upstream. -/
inductive RelayEvent where
  | tunnel (r : ReadResult)
  /-- A read of no bytes is the end; `none` is an error. -/
  | target (r : Option (List UInt8))

/-- What the UDP relay wakes up for. -/
inductive UdpEvent where
  | tunnel (r : ReadResult)
  | sock (r : Option (List UInt8))
  | idle

/-- Everything a session handler awaits. -/
inductive Op where
  /-- A read of the client's stream. -/
  | readClient
  /-- `read_record_opt`: the plaintext of one outer-TLS record. -/
  | readRecord
  /-- The snapshot of the accepted users. -/
  | loadUsers
  /-- The response header goes to the client. -/
  | respond (bytes : List UInt8)
  /-- The resolver asks its name server. -/
  | lookup (host : String)
  | connect (u : Upstream)
  | writeUp (u : Upstream) (bytes : List UInt8)
  /-- Bytes of the upstream go to the client. -/
  | relayDown (u : Upstream) (bytes : List UInt8)
  | shutdownUp (u : Upstream)
  | shutdownClient
  | select (u : Upstream) (tunnelDone targetDone : Bool)
  /-- Copy both ways, what was read early first. -/
  | copyBidirectional (u : Upstream) (early : List UInt8)
  /-- The same with donut's own padding. -/
  | visionCopy (u : Upstream) (early : List UInt8)
  | visionServerSplice (u : Upstream) (uuid : UserId) (leftover : List UInt8)
  | random
  | sleep (ms : ℕ)
  | bindUdp (ipv6 : Bool)
  | connectUdp (target : SocketAddr)
  | sendUdp (target : SocketAddr) (datagram : List UInt8)
  | selectUdp (target : SocketAddr)
  | writeDatagram (target : SocketAddr) (frame : List UInt8)
  /-- The network of a Mux relay. -/
  | muxNet
  | muxEvent
  | mux (a : Mux.Action)
  | muxDown (frame : List UInt8)

/-- The type of the answers.  A Boolean says whether the operation succeeded. -/
def Ans : Op → Type
  | .readClient => Option (List UInt8)
  | .readRecord => ReadResult
  | .loadUsers => UserAuth
  | .respond _ => Bool
  | .lookup _ => Option (List IpAddr)
  | .connect _ => Bool
  | .writeUp _ _ => Bool
  | .relayDown _ _ => Bool
  | .shutdownUp _ => Unit
  | .shutdownClient => Unit
  | .select _ _ _ => RelayEvent
  | .copyBidirectional _ _ => Unit
  | .visionCopy _ _ => Unit
  | .visionServerSplice _ _ _ => Bool
  | .random => UInt32
  | .sleep _ => Unit
  | .bindUdp _ => Bool
  | .connectUdp _ => Bool
  | .sendUdp _ _ => Bool
  | .selectUdp _ => UdpEvent
  | .writeDatagram _ _ => Bool
  | .muxNet => Mux.MuxEnv
  | .muxEvent => Mux.Event
  | .mux _ => Unit
  | .muxDown _ => Unit

/-- What an operation needs. -/
inductive Clearance where
  /-- Nothing: it reads the client, loads the snapshot or closes the client's stream. -/
  | free
  /-- A caller that is no client, and this decoy. -/
  | decoy (addr : SocketAddr)
  /-- A checked request: it resolves, dials or sends on behalf of one, or answers it. -/
  | request

def Upstream.clearance : Upstream → Clearance
  | .target _ _ => .request
  | .chain _ _ _ => .request
  | .decoy addr => .decoy addr

def Op.clearance : Op → Clearance
  | .readClient | .readRecord | .loadUsers | .shutdownClient => .free
  | .connect u | .writeUp u _ | .relayDown u _ | .shutdownUp u | .select u _ _ => u.clearance
  | _ => .request

/-- An operation on one upstream, or one that needs nothing. -/
def OnUpstream (u : Upstream) (op : Op) : Prop :=
  op.clearance = .free ∨ op.clearance = u.clearance

/-- Not for the decoy. -/
def Op.NotDecoy (op : Op) : Prop := ∀ addr, op.clearance ≠ .decoy addr

def Upstream.NotDecoy (u : Upstream) : Prop := ∀ addr, u.clearance ≠ .decoy addr

variable {u : Upstream}

theorem OnUpstream.notDecoy (hu : u.NotDecoy) {op : Op} (h : OnUpstream u op) : op.NotDecoy := by
  intro addr hop
  rcases h with hfree | hon
  · rw [hfree] at hop
    cases hop
  · exact hu addr (hon.symm.trans hop)

abbrev Handler : Type → Type := Prog Op Ans ProxyError

/-- A handler that does nothing for the decoy. -/
abbrev AvoidsDecoy {α : Type} (p : Handler α) : Prop := Only Op.NotDecoy (fun _ => True) p

/-- Looking names up and dialling are among these operations. -/
structure Dials (P : Op → Prop) : Prop where
  lookup : ∀ host, P (.lookup host)
  connect : ∀ u : Upstream, u.NotDecoy → P (.connect u)

theorem dials_notDecoy : Dials Op.NotDecoy := ⟨fun _ _ h => (by cases h), fun _ hu => hu⟩

/-- Perform an operation. -/
def perform (op : Op) : Handler (Ans op) := Prog.perform op

/-- The `?` behind a fallible write, dial or bind. -/
def orIo (ok : Bool) : Handler Unit := Prog.check .io ok

/-- Close the client's stream. -/
def closeClient : Handler Unit := perform .shutdownClient

/-- Close the upstream. -/
def closeUp (u : Upstream) : Handler Unit := perform (.shutdownUp u)

/-- `write_all`, `?`. -/
def writeUp (u : Upstream) (bytes : List UInt8) : Handler Unit :=
  perform (.writeUp u bytes) >>= orIo

/-- `write_all` unless there is nothing to write. -/
def writeUpNonempty (u : Upstream) (bytes : List UInt8) : Handler Unit :=
  if bytes = [] then pure () else writeUp u bytes

variable {P : Op → Prop}

theorem only_orIo (ok : Bool) : Only P (fun _ => True) (orIo ok) :=
  Only.check _ ok

section Clearances

variable {op : Op}

theorem only_perform_free (h : op.clearance = .free) :
    Only (OnUpstream u) (fun _ => True) (perform op) :=
  Only.perform (show OnUpstream u op from Or.inl h)

theorem only_perform_upstream (h : op.clearance = u.clearance) :
    Only (OnUpstream u) (fun _ => True) (perform op) :=
  Only.perform (show OnUpstream u op from Or.inr h)

theorem only_perform_request (h : op.clearance = .request) :
    AvoidsDecoy (perform op) := by
  refine Only.perform (P := Op.NotDecoy) fun addr hop => ?_
  rw [h] at hop
  cases hop

theorem only_perform_notDecoy (h : op.clearance = .free) :
    AvoidsDecoy (perform op) := by
  refine Only.perform (P := Op.NotDecoy) fun addr hop => ?_
  rw [h] at hop
  cases hop

end Clearances

/-- A fallible operation followed by `?`. -/
theorem only_fallible {p : Handler Bool} (hp : Only P (fun _ => True) p) :
    Only P (fun _ => True) (p >>= orIo) :=
  hp.bind fun ok _ => only_orIo ok

theorem only_writeUp (u : Upstream) (bytes : List UInt8) :
    Only (OnUpstream u) (fun _ => True) (writeUp u bytes) :=
  only_fallible (only_perform_upstream rfl)

theorem only_writeUpNonempty (u : Upstream) (bytes : List UInt8) :
    Only (OnUpstream u) (fun _ => True) (writeUpNonempty u bytes) := by
  unfold writeUpNonempty
  split
  · trivial
  · exact only_writeUp u bytes

/-- `resolve` of the proxy: addresses and literals pass through, names are looked up. -/
def resolve (ep : Endpoint) : Handler SocketAddr :=
  match ep.address with
  | .ip ip => pure ⟨ip, ep.port⟩
  | .domain d =>
    match parseIpAddr d with
    | some ip => pure ⟨ip, ep.port⟩
    | none => do
      let answer ← perform (.lookup d)
      Prog.orFail (.resolve d) ((Option.bind answer List.head?).map fun ip => ⟨ip, ep.port⟩)

theorem only_resolve (hP : Dials P) (ep : Endpoint) : Only P (fun _ => True) (resolve ep) := by
  unfold resolve
  split
  · trivial
  · split
    · trivial
    · exact Only.bind (Only.perform (hP.lookup _)) fun _ _ => Only.orFail _ _

/-! ## `tls_plain_relay` -/

/-- The loop.  Both ends done is the `else` of its `select!`. -/
def plainRelayLoop (u : Upstream) : ℕ → Bool → Bool → Handler Unit
  | 0, _, _ => .halt
  | fuel + 1, tunnelDone, targetDone =>
    if tunnelDone && targetDone then pure ()
    else do
      match ← perform (.select u tunnelDone targetDone) with
      | .tunnel r =>
        -- a branch of the `select!` that is switched off does not come back
        if tunnelDone then .halt
        else
          match r with
          | none => .fail .io
          | some none => do
            closeUp u
            plainRelayLoop u fuel true targetDone
          | some (some pt) => do
            writeUpNonempty u pt
            plainRelayLoop u fuel tunnelDone targetDone
      | .target r =>
        if targetDone then .halt
        else
          match r with
          | none => .fail .io
          | some [] => do
            closeClient
            plainRelayLoop u fuel tunnelDone true
          | some (b :: bytes) => do
            perform (.relayDown u (b :: bytes)) >>= orIo
            plainRelayLoop u fuel tunnelDone targetDone

def tlsPlainRelay (fuel : ℕ) (u : Upstream) (initialToTarget : List UInt8) : Handler Unit := do
  writeUpNonempty u initialToTarget
  plainRelayLoop u fuel false false

/-- The relay touches its own upstream and the client, nothing else. -/
theorem only_plainRelayLoop (u : Upstream) (fuel : ℕ) (tunnelDone targetDone : Bool) :
    Only (OnUpstream u) (fun _ => True) (plainRelayLoop u fuel tunnelDone targetDone) := by
  induction fuel generalizing tunnelDone targetDone with
  | zero => trivial
  | succ fuel ih =>
    rw [plainRelayLoop]
    split
    · trivial
    · refine (only_perform_upstream rfl).bind fun event _ => ?_
      cases event with
      | tunnel r =>
        simp only
        split
        · trivial
        · match r with
          | none => trivial
          | some none => exact (only_perform_upstream rfl).bind fun _ _ => ih _ _
          | some (some pt) => exact (only_writeUpNonempty u pt).bind fun _ _ => ih _ _
      | target r =>
        simp only
        split
        · trivial
        · match r with
          | none => trivial
          | some [] => exact (only_perform_free rfl).bind fun _ _ => ih _ _
          | some (b :: bytes) =>
            exact Only.bind (only_fallible (only_perform_upstream rfl)) fun _ _ => ih _ _

theorem only_tlsPlainRelay (fuel : ℕ) (u : Upstream) (initialToTarget : List UInt8) :
    Only (OnUpstream u) (fun _ => True) (tlsPlainRelay fuel u initialToTarget) :=
  (only_writeUpNonempty u initialToTarget).bind fun _ _ => only_plainRelayLoop u fuel false false

/-! ## `vision_udp_relay` -/

/-- One datagram `[len][payload]` off the front of the buffer. -/
def takeDatagram (buf : List UInt8) : Option (List UInt8 × List UInt8) :=
  if buf.length < 2 then none
  else
    let len := be16 (buf.getD 0 0) (buf.getD 1 0)
    if buf.length < 2 + len then none
    else some ((buf.drop 2).take len, buf.drop (2 + len))

/-- Send the complete datagrams of the buffer and return the rest.  Each of them takes two
bytes at least, so the length of the buffer is enough fuel. -/
def flushDatagrams (target : SocketAddr) : ℕ → List UInt8 → Handler (List UInt8)
  | 0, buf => pure buf
  | fuel + 1, buf =>
    match takeDatagram buf with
    | none => pure buf
    | some (dg, rest) => do
      if dg = [] then flushDatagrams target fuel rest
      else do
        perform (.sendUdp target dg) >>= orIo
        flushDatagrams target fuel rest

def udpRelayLoop (target : SocketAddr) : ℕ → List UInt8 → Bool → Handler Unit
  | 0, _, _ => .halt
  | fuel + 1, inbuf, tunnelDone => do
    let inbuf ← flushDatagrams target inbuf.length inbuf
    if tunnelDone then closeClient
    else
      match ← perform (.selectUdp target) with
      | .idle => closeClient
      | .tunnel none => .fail .io
      | .tunnel (some none) => udpRelayLoop target fuel inbuf true
      | .tunnel (some (some pt)) => udpRelayLoop target fuel (inbuf ++ pt) tunnelDone
      | .sock none => .fail .io
      | .sock (some data) => do
        perform (.writeDatagram target (hi8 data.length :: lo8 data.length :: data)) >>= orIo
        udpRelayLoop target fuel inbuf tunnelDone

def visionUdpRelay (fuel : ℕ) (target : SocketAddr) (leftover : List UInt8) : Handler Unit := do
  perform (.bindUdp target.isIpv6) >>= orIo
  perform (.connectUdp target) >>= orIo
  udpRelayLoop target fuel leftover false

theorem only_flushDatagrams (target : SocketAddr) (fuel : ℕ) (buf : List UInt8) :
    AvoidsDecoy (flushDatagrams target fuel buf) := by
  induction fuel generalizing buf with
  | zero => trivial
  | succ fuel ih =>
    rw [flushDatagrams]
    split
    · trivial
    · next dg rest _ =>
      split
      · exact ih rest
      · exact Only.bind (only_fallible (only_perform_request rfl)) fun _ _ => ih rest

theorem only_udpRelayLoop (target : SocketAddr) (fuel : ℕ) (inbuf : List UInt8)
    (tunnelDone : Bool) :
    AvoidsDecoy (udpRelayLoop target fuel inbuf tunnelDone) := by
  induction fuel generalizing inbuf tunnelDone with
  | zero => trivial
  | succ fuel ih =>
    rw [udpRelayLoop]
    refine (only_flushDatagrams target inbuf.length inbuf).bind fun inbuf _ => ?_
    split
    · exact only_perform_notDecoy rfl
    · refine (only_perform_request rfl).bind fun event _ => ?_
      match event with
      | .idle => exact only_perform_notDecoy rfl
      | .tunnel none => trivial
      | .tunnel (some none) => exact ih _ _
      | .tunnel (some (some pt)) => exact ih _ _
      | .sock none => trivial
      | .sock (some data) =>
        exact Only.bind (only_fallible (only_perform_request rfl)) fun _ _ => ih _ _

theorem only_visionUdpRelay (fuel : ℕ) (target : SocketAddr) (leftover : List UInt8) :
    AvoidsDecoy (visionUdpRelay fuel target leftover) := by
  refine Only.bind (only_fallible (only_perform_request rfl)) fun _ _ => ?_
  refine Only.bind (only_fallible (only_perform_request rfl)) fun _ _ => ?_
  exact only_udpRelayLoop target fuel leftover false

/-! ## `fragment.rs`: the first record of a plain flow -/

/-- Read until the buffer has `n` bytes or the stream ends. -/
def readAtLeast (n : ℕ) : ℕ → List UInt8 → Handler (List UInt8)
  | 0, _ => .halt
  | fuel + 1, buf =>
    if n ≤ buf.length then pure buf
    else do
      match ← perform .readClient with
      | none => .fail .io
      | some [] => pure buf
      | some (b :: bytes) => readAtLeast n fuel (buf ++ b :: bytes)

/-- The first record, and what was read past it. -/
def readFirstRecord (fuel : ℕ) (early : List UInt8) : Handler (List UInt8 × List UInt8) := do
  let buf ← readAtLeast 5 fuel early
  if buf.length < 5 then pure (buf, [])
  else do
    let total := 5 + be16 (buf.getD 3 0) (buf.getD 4 0)
    let buf ← readAtLeast total fuel buf
    pure (buf.take total, buf.drop total)

/-- `FragmentParams::pick`, with the random number given.  The numbers of the range of every
`u32` are too many to count: the sum panics, or it is zero and the remainder panics. -/
def pick (range : UInt32 × UInt32) (r : UInt32) : Option UInt32 :=
  if range.2 ≤ range.1 then some range.1
  else if range.2 - range.1 + 1 = 0 then none
  else some (range.1 + r % (range.2 - range.1 + 1))

/-- A pick of a handler.  For a range of one number no random number is asked for. -/
def draw (range : UInt32 × UInt32) : Handler UInt32 :=
  if range.2 ≤ range.1 then Prog.orFail .overflow (pick range 0)
  else do
    let r : UInt32 ← perform .random
    Prog.orFail .overflow (pick range r)

/-- Write a ClientHello as several records.  Every turn writes a byte at least. -/
def fragmentLoop (u : Upstream) (p : FragmentParams) (v0 v1 : UInt8) :
    ℕ → List UInt8 → Handler Unit
  | 0, _ => pure ()
  | fuel + 1, payload =>
    if payload = [] then pure ()
    else do
      let size ← draw p.len
      let chunk := min (max size.toNat 1) payload.length
      writeUp u [0x16, v0, v1, hi8 chunk, lo8 chunk]
      writeUp u (payload.take chunk)
      if payload.drop chunk = [] then pure ()
      else do
        let d ← draw p.intervalMs
        if d = 0 then fragmentLoop u p v0 v1 fuel (payload.drop chunk)
        else do
          let _ ← perform (.sleep d.toNat)
          fragmentLoop u p v0 v1 fuel (payload.drop chunk)

def writeFragmented (u : Upstream) (record : List UInt8) (p : FragmentParams) : Handler Unit :=
  if 6 ≤ record.length ∧ record.getD 0 0 = 0x16 ∧ record.getD 5 0 = 0x01 then
    fragmentLoop u p (record.getD 1 0) (record.getD 2 0) (record.drop 5).length (record.drop 5)
  else writeUp u record

/-- One piece of a ClientHello as a record of its own. -/
def pieceRecord (v0 v1 : UInt8) (piece : List UInt8) : List UInt8 :=
  0x16 :: v0 :: v1 :: hi8 piece.length :: lo8 piece.length :: piece

/-- The loop over the payload, which panics where a pick does.  Every turn takes a byte at
least. -/
def pieceLoop (len : UInt32 × UInt32) (v0 v1 : UInt8) :
    ℕ → List UInt32 → List UInt8 → Option (List UInt8)
  | 0, _, _ => some []
  | fuel + 1, picks, payload =>
    if payload = [] then some []
    else do
      let size ← pick len (picks.headD 0)
      let chunk := min (max size.toNat 1) payload.length
      let rest ← pieceLoop len v0 v1 fuel picks.tail (payload.drop chunk)
      pure (pieceRecord v0 v1 (payload.take chunk) ++ rest)

/-- A handshake record whose message is a ClientHello. -/
def IsClientHello (record : List UInt8) : Prop :=
  6 ≤ record.length ∧ record.getD 0 0 = 0x16 ∧ record.getD 5 0 = 0x01

instance : DecidablePred IsClientHello := fun _ => inferInstanceAs (Decidable (_ ∧ _ ∧ _))

/-- `fragment_clienthello_to_vec`; `none` is a panic. -/
def fragmentClienthelloToVec (record : List UInt8) (p : FragmentParams) (picks : List UInt32) :
    Option (List UInt8) :=
  if IsClientHello record then
    pieceLoop p.len (record.getD 1 0) (record.getD 2 0) (record.drop 5).length picks
      (record.drop 5)
  else some record

theorem only_readAtLeast (n fuel : ℕ) (buf : List UInt8) :
    AvoidsDecoy (readAtLeast n fuel buf) := by
  induction fuel generalizing buf with
  | zero => trivial
  | succ fuel ih =>
    rw [readAtLeast]
    split
    · trivial
    · refine (only_perform_notDecoy rfl).bind fun r _ => ?_
      match r with
      | none => trivial
      | some [] => trivial
      | some (b :: bytes) => exact ih _

theorem only_readFirstRecord (fuel : ℕ) (early : List UInt8) :
    AvoidsDecoy (readFirstRecord fuel early) := by
  refine (only_readAtLeast 5 fuel early).bind fun buf _ => ?_
  split
  · trivial
  · exact (only_readAtLeast _ fuel buf).bind fun _ _ => trivial

theorem only_draw (range : UInt32 × UInt32) :
    AvoidsDecoy (draw range) := by
  unfold draw
  split
  · exact Only.orFail _ _
  · exact (only_perform_request rfl).bind fun _ _ => Only.orFail _ _

theorem only_fragmentLoop (hu : u.NotDecoy) (p : FragmentParams) (v0 v1 : UInt8) (fuel : ℕ)
    (payload : List UInt8) : AvoidsDecoy (fragmentLoop u p v0 v1 fuel payload) := by
  have hwrite : ∀ bytes, AvoidsDecoy (writeUp u bytes) :=
    fun bytes => (only_writeUp u bytes).mono fun _ => OnUpstream.notDecoy hu
  induction fuel generalizing payload with
  | zero => trivial
  | succ fuel ih =>
    rw [fragmentLoop]
    split
    · trivial
    · refine (only_draw p.len).bind fun size _ => ?_
      refine (hwrite _).bind fun _ _ => (hwrite _).bind fun _ _ => ?_
      split
      · trivial
      · refine (only_draw p.intervalMs).bind fun d _ => ?_
        split
        · exact ih _
        · exact (only_perform_request rfl).bind fun _ _ => ih _

theorem only_writeFragmented (hu : u.NotDecoy) (record : List UInt8) (p : FragmentParams) :
    AvoidsDecoy (writeFragmented u record p) := by
  unfold writeFragmented
  split
  · exact only_fragmentLoop hu p _ _ _ _
  · exact (only_writeUp u record).mono fun _ => OnUpstream.notDecoy hu

/-! ## `mux_relay` -/

/-- Perform a list of operations that answer nothing. -/
def performAll {α : Type} (f : α → Handler Unit) : List α → Handler Unit
  | [] => pure ()
  | x :: xs => do
    f x
    performAll f xs

/-- What the relay has done and written between two of its states. -/
def muxCatchUp (s t : Mux.Relay) : Handler Unit := do
  performAll (fun a => perform (.mux a)) ((t.log.drop s.log.length).flatMap Mux.Handled.actions)
  performAll (fun frame => perform (.muxDown frame)) (t.written.drop s.written.length)

def muxRelayLoop (env : Mux.MuxEnv) (router : Router) (outbounds : Outbounds) :
    ℕ → Mux.Relay → Handler Unit
  | 0, _ => .halt
  | fuel + 1, s =>
    match s.ended with
    | some (.ok _) => closeClient
    | some (.error _) => .fail .io
    | none => do
      let event ← perform .muxEvent
      match Mux.step env router outbounds s event with
      | none => .halt
      | some t => do
        muxCatchUp s t
        muxRelayLoop env router outbounds fuel t

def muxRelay (fuel : ℕ) (router : Router) (outbounds : Outbounds) (visionUuid : Option UserId)
    (leftover : List UInt8) : Handler Unit := do
  let env ← perform .muxNet
  let s := Mux.start env router outbounds visionUuid leftover
  muxCatchUp ⟨none, none, [], ∅, [], [], none⟩ s
  muxRelayLoop env router outbounds fuel s

theorem only_performAll {α : Type} {f : α → Handler Unit} (hf : ∀ x, Only P (fun _ => True) (f x))
    (xs : List α) : Only P (fun _ => True) (performAll f xs) := by
  induction xs with
  | nil => trivial
  | cons x xs ih => exact (hf x).bind fun _ _ => ih

theorem only_muxCatchUp (s t : Mux.Relay) :
    AvoidsDecoy (muxCatchUp s t) :=
  (only_performAll (fun _ => only_perform_request rfl) _).bind
    fun _ _ => only_performAll (fun _ => only_perform_request rfl) _

theorem only_muxRelayLoop (env : Mux.MuxEnv) (router : Router) (outbounds : Outbounds)
    (fuel : ℕ) (s : Mux.Relay) :
    AvoidsDecoy (muxRelayLoop env router outbounds fuel s) := by
  induction fuel generalizing s with
  | zero => trivial
  | succ fuel ih =>
    rw [muxRelayLoop]
    split
    · exact only_perform_notDecoy rfl
    · trivial
    · refine (only_perform_request rfl).bind fun event _ => ?_
      split
      · trivial
      · exact (only_muxCatchUp _ _).bind fun _ _ => ih _

theorem only_muxRelay (fuel : ℕ) (router : Router) (outbounds : Outbounds)
    (visionUuid : Option UserId) (leftover : List UInt8) :
    AvoidsDecoy (muxRelay fuel router outbounds visionUuid leftover) := by
  refine (only_perform_request rfl).bind fun env _ => ?_
  exact (only_muxCatchUp _ _).bind fun _ _ => only_muxRelayLoop env router outbounds fuel _

end Server
end HoldTheDonut
