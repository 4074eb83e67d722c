import HoldTheDonut.Interaction.Stream
import HoldTheDonut.Wire.Request

/-!
# `donut-socks`: from a SOCKS5 CONNECT to the request of a tunnel

A local application asks for a target in the words of SOCKS5,

    [5][n][methods n]   [5][1][reserved][type][address][port 2]

and the client asks the server for it in the words of VLESS, which has other codes for the types
of addresses and puts the port first.  `handshake_connect` reads the one, and the bridges of
`local_proxy.rs` put the target it returns into a `Request` and encode it.

The application's next bytes belong to the connection it asked for, so the handshake must not read
any of them: `handshakeConnect_inv` says that what it has read is a greeting and a CONNECT request,
in the format above, and that everything behind them is still there.  What SOCKS can say can be
sent (`SocksAddress.addressOk`), and the rest is the round trip of `Wire.Request`.
-/

namespace HoldTheDonut
namespace Client

open Interaction Interaction.Stream
open Wire (AddressOk Request)

def ver : UInt8 := 0x05
def rsv : UInt8 := 0x00
def methodNoAuth : UInt8 := 0x00
def methodNoneAcceptable : UInt8 := 0xff
def cmdConnect : UInt8 := 0x01
def repCommandNotSupported : UInt8 := 0x07
def atypIpv4 : UInt8 := 0x01
def atypDomain : UInt8 := 0x03
def atypIpv6 : UInt8 := 0x04

inductive SocksError where
  | io
  | badVersion (v : UInt8)
  | noAcceptableAuth
  | unsupportedCommand (c : UInt8)
  | badAddressType (t : UInt8)
  | badDomain
  deriving DecidableEq

abbrev Handshake : Type → Type := Prog Op Ans SocksError

/-- `read_exact` with `?`: the end of the stream is an error like others. -/
def readBytes (n : ℕ) : Handshake (List UInt8) := readExactOrFail .io .io n

/-! ## The handshake -/

def writeReply (rep : UInt8) (bound : SocketAddr) : Handshake Unit := do
  let address :=
    match bound.ip with
    | .v4 a => atypIpv4 :: a.toList
    | .v6 a => atypIpv6 :: a.toList
  writeBytes .io
    ([ver, rep, rsv] ++ address ++ [hi8 bound.port.toNat, lo8 bound.port.toNat])
  flush .io

/-- `0.0.0.0:0`. -/
def unspecified : SocketAddr := ⟨.v4 (List.Vector.replicate 4 0), 0⟩

/-- The greeting: version, number of methods, methods. -/
def greet : Handshake Unit := do
  let header ← readBytes 2
  if header.getD 0 0 ≠ ver then .fail (.badVersion (header.getD 0 0))
  else do
    let methods ← readBytes (header.getD 1 0).toNat
    if methodNoAuth ∉ methods then do
      writeBytes .io [ver, methodNoneAcceptable]
      .fail .noAcceptableAuth
    else writeBytes .io [ver, methodNoAuth]

def readDomain : Handshake Address := do
  let len ← readBytes 1
  let buf ← readBytes (len.getD 0 0).toNat
  match fromUtf8 buf with
  | none => .fail .badDomain
  | some s =>
    match Address.mkDomain s with
    | .error _ => .fail .badDomain
    | .ok address => pure address

/-- The address behind its type. -/
def readAddress (atyp : UInt8) : Handshake Address :=
  if atyp = atypIpv4 then do
    let buf ← readBytes 4
    pure (.ip (.v4 (Octets.fromSlice 4 buf)))
  else if atyp = atypIpv6 then do
    let buf ← readBytes 16
    pure (.ip (.v6 (Octets.fromSlice 16 buf)))
  else if atyp = atypDomain then readDomain
  else .fail (.badAddressType atyp)

def readPort : Handshake UInt16 := do
  let buf ← readBytes 2
  pure (UInt16.ofNat (be16 (buf.getD 0 0) (buf.getD 1 0)))

/-- The CONNECT request behind the greeting. -/
def readConnect : Handshake Endpoint := do
  let head ← readBytes 4
  if head.getD 0 0 ≠ ver then .fail (.badVersion (head.getD 0 0))
  else if head.getD 1 0 ≠ cmdConnect then do
    (writeReply repCommandNotSupported unspecified).ignoring
    .fail (.unsupportedCommand (head.getD 1 0))
  else do
    let address ← readAddress (head.getD 3 0)
    let port ← readPort
    pure ⟨address, port⟩

/-- Greet the client and read a CONNECT request.  Returns its target. -/
def handshakeConnect : Handshake Endpoint := do
  greet
  readConnect

/-! ## What the client has to say -/

/-- A greeting that offers to go without authentication. -/
def IsGreeting (bytes : List UInt8) : Prop :=
  ∃ (n : UInt8) (methods : List UInt8), bytes = ver :: n :: methods ∧ methods.length = n.toNat ∧
    methodNoAuth ∈ methods

/-- The bytes of an address behind its type, with the type. -/
inductive SocksAddress : UInt8 → List UInt8 → Address → Prop
  | ipv4 (a : Octets 4) : SocksAddress atypIpv4 a.toList (.ip (.v4 a))
  | ipv6 (a : Octets 16) : SocksAddress atypIpv6 a.toList (.ip (.v6 a))
  | domain (n : UInt8) (d : String) (hlen : (utf8 d).length = n.toNat)
      (hok : Address.mkDomain d = .ok (.domain d)) :
      SocksAddress atypDomain (n :: utf8 d) (.domain d)

/-- A CONNECT request for a target. -/
def IsConnect (bytes : List UInt8) (target : Endpoint) : Prop :=
  ∃ (reserved atyp hi lo : UInt8) (address : List UInt8),
    bytes = [ver, cmdConnect, reserved, atyp] ++ (address ++ [hi, lo]) ∧
      SocksAddress atyp address target.address ∧ target.port = UInt16.ofNat (be16 hi lo)

/-! ## Exact consumption -/

section Inversion

variable {w w' : World} {s : List UInt8}

/-- A step of the handshake that only reads. -/
theorem of_exec_readBytes {n : ℕ} {bytes : List UInt8} (h : w.Holds s)
    (hrun : exec World.answer (readBytes n) w = (.returned bytes, w')) :
    ∃ rest, s = bytes ++ rest ∧ bytes.length = n ∧ w'.Holds rest :=
  of_exec_readExactOrFail _ h hrun

theorem of_exec_greet (h : w.Holds s)
    (hrun : exec World.answer greet w = (.returned (), w')) :
    ∃ greeting rest, s = greeting ++ rest ∧ IsGreeting greeting ∧ w'.Holds rest := by
  obtain ⟨header, w₁, hheader, hrun⟩ := of_exec_bind hrun
  obtain ⟨s₁, rfl, hlen, hholds₁⟩ := of_exec_readBytes h hheader
  match header, hlen with
  | [v, n], _ =>
    simp only [List.getD_cons_zero, List.getD_cons_succ] at hrun
    by_cases hver : v = ver
    · rw [if_neg (not_not.mpr hver)] at hrun
      obtain ⟨methods, w₂, hmethods, hrun⟩ := of_exec_bind hrun
      obtain ⟨rest, rfl, hcount, hholds₂⟩ := of_exec_readBytes hholds₁ hmethods
      by_cases hauth : methodNoAuth ∈ methods
      · rw [if_neg (not_not.mpr hauth), exec_writeBytes] at hrun
        cases hrun
        exact ⟨v :: n :: methods, rest, rfl, ⟨n, methods, by rw [hver], hcount, hauth⟩,
          hholds₂.wrote _⟩
      · rw [if_pos hauth] at hrun
        cases hrun
    · rw [if_pos hver] at hrun
      cases hrun

theorem of_exec_readDomain {address : Address} (h : w.Holds s)
    (hrun : exec World.answer readDomain w = (.returned address, w')) :
    ∃ bytes rest, s = bytes ++ rest ∧ SocksAddress atypDomain bytes address ∧ w'.Holds rest := by
  obtain ⟨len, w₁, hlen, hrun⟩ := of_exec_bind hrun
  obtain ⟨s₁, rfl, hone, hholds₁⟩ := of_exec_readBytes h hlen
  match len, hone with
  | [n], _ =>
    obtain ⟨buf, w₂, hbuf, hrun⟩ := of_exec_bind hrun
    obtain ⟨rest, rfl, hcount, hholds₂⟩ := of_exec_readBytes hholds₁ hbuf
    split at hrun
    · cases hrun
    · next d htext =>
      split at hrun
      · cases hrun
      · next a hdomain =>
        cases hrun
        obtain ⟨-, -, rfl⟩ := (Address.mkDomain_eq_ok_iff d _).mp hdomain
        have hutf8 := utf8_of_fromUtf8 htext
        refine ⟨n :: buf, rest, rfl, ?_, hholds₂⟩
        rw [← hutf8]
        exact .domain n d (by rw [hutf8]; exact hcount) hdomain

/-- An address of fixed length. -/
theorem of_exec_readOctets {n : ℕ} (mk : Octets n → Address) {address : Address} (h : w.Holds s)
    (hrun : exec World.answer (do
        let buf ← readBytes n
        pure (mk (Octets.fromSlice n buf))) w = (.returned address, w')) :
    ∃ (o : Octets n) (rest : List UInt8), s = o.toList ++ rest ∧ address = mk o ∧
      w'.Holds rest := by
  obtain ⟨buf, w₁, hbuf, hrun⟩ := of_exec_bind hrun
  obtain ⟨rest, rfl, hlen, hholds⟩ := of_exec_readBytes h hbuf
  cases hrun
  exact ⟨Octets.fromSlice n buf, rest, by rw [Octets.toList_fromSlice hlen], rfl, hholds⟩

variable (h : w.Holds s)

include h

theorem of_exec_readAddress {atyp : UInt8} {address : Address}
    (hrun : exec World.answer (readAddress atyp) w = (.returned address, w')) :
    ∃ bytes rest, s = bytes ++ rest ∧ SocksAddress atyp bytes address ∧ w'.Holds rest := by
  unfold readAddress at hrun
  split at hrun
  · next htype =>
    obtain ⟨o, rest, rfl, rfl, hholds⟩ := of_exec_readOctets (fun o => .ip (.v4 o)) h hrun
    rw [htype]
    exact ⟨o.toList, rest, rfl, .ipv4 o, hholds⟩
  · split at hrun
    · next htype =>
      obtain ⟨o, rest, rfl, rfl, hholds⟩ := of_exec_readOctets (fun o => .ip (.v6 o)) h hrun
      rw [htype]
      exact ⟨o.toList, rest, rfl, .ipv6 o, hholds⟩
    · split at hrun
      · next htype =>
        rw [htype]
        exact of_exec_readDomain h hrun
      · cases hrun

theorem of_exec_readPort {port : UInt16}
    (hrun : exec World.answer readPort w = (.returned port, w')) :
    ∃ hi lo rest, s = hi :: lo :: rest ∧ port = UInt16.ofNat (be16 hi lo) ∧ w'.Holds rest := by
  obtain ⟨buf, w₁, hbuf, hrun⟩ := of_exec_bind hrun
  obtain ⟨rest, rfl, hlen, hholds⟩ := of_exec_readBytes h hbuf
  obtain ⟨hi, lo, rfl⟩ := List.length_eq_two.mp hlen
  rw [exec_pure] at hrun
  have hport : Stop.returned (UInt16.ofNat (be16 hi lo)) =
      (Stop.returned port : Stop Op SocksError UInt16) := congrArg Prod.fst hrun
  have hw : w₁ = w' := congrArg Prod.snd hrun
  rw [hw] at hholds
  exact ⟨hi, lo, rest, rfl, (Stop.returned.inj hport).symm, hholds⟩

theorem of_exec_readConnect {target : Endpoint}
    (hrun : exec World.answer readConnect w = (.returned target, w')) :
    ∃ request rest, s = request ++ rest ∧ IsConnect request target ∧ w'.Holds rest := by
  obtain ⟨head, w₁, hhead, hrun⟩ := of_exec_bind hrun
  obtain ⟨s₁, rfl, hlen, hholds₁⟩ := of_exec_readBytes h hhead
  match head, hlen with
  | [v, c, reserved, atyp], _ =>
    simp only [List.getD_cons_zero, List.getD_cons_succ] at hrun
    by_cases hver : v = ver
    · by_cases hcmd : c = cmdConnect
      · rw [if_neg (not_not.mpr hver), if_neg (not_not.mpr hcmd)] at hrun
        obtain ⟨address, w₂, haddress, hrun⟩ := of_exec_bind hrun
        obtain ⟨bytes, s₂, rfl, hbytes, hholds₂⟩ := of_exec_readAddress hholds₁ haddress
        obtain ⟨port, w₃, hport, hrun⟩ := of_exec_bind hrun
        cases hrun
        obtain ⟨hi, lo, rest, rfl, hvalue, hholds₃⟩ := of_exec_readPort hholds₂ hport
        refine ⟨[v, c, reserved, atyp] ++ (bytes ++ [hi, lo]), rest, ?_, ?_, hholds₃⟩
        · simp
        · rw [hver, hcmd]
          exact ⟨reserved, atyp, hi, lo, bytes, rfl, hbytes, hvalue⟩
      · rw [if_neg (not_not.mpr hver), if_pos hcmd] at hrun
        cases hrun
    · rw [if_pos hver] at hrun
      cases hrun

/-- **What the handshake has read is a greeting and a CONNECT request**, and the rest is still
there. -/
theorem handshakeConnect_inv {target : Endpoint}
    (hrun : exec World.answer handshakeConnect w = (.returned target, w')) :
    ∃ greeting request rest, s = greeting ++ (request ++ rest) ∧ IsGreeting greeting ∧
      IsConnect request target ∧ w'.Holds rest := by
  obtain ⟨_, w₁, hgreet, hrun⟩ := of_exec_bind hrun
  obtain ⟨greeting, s₁, rfl, hgreeting, hholds₁⟩ := of_exec_greet h hgreet
  obtain ⟨request, rest, rfl, hconnect, hholds₂⟩ := of_exec_readConnect hholds₁ hrun
  exact ⟨greeting, request, rest, rfl, hgreeting, hconnect, hholds₂⟩

end Inversion

/-! ## The request -/

/-- The request the bridges build. -/
def bridgeRequest (user : UserId) (flow : FlowKind) (target : Endpoint) : Request where
  user := user
  flow := flow
  command := .tcp
  target := some target
  seed := []

/-- An address that SOCKS can say can be sent. -/
theorem SocksAddress.addressOk {atyp : UInt8} {bytes : List UInt8} {address : Address}
    (h : SocksAddress atyp bytes address) : AddressOk address := by
  intro d hd
  cases h with
  | ipv4 a => cases hd
  | ipv6 a => cases hd
  | domain n d' hlen hok =>
    cases hd
    exact hok

theorem bridgeRequest_sendable (user : UserId) (flow : FlowKind) {target : Endpoint}
    (h : AddressOk target.address) : (bridgeRequest user flow target).Sendable where
  target_none_iff := by simp [bridgeRequest]
  domain_ok := by
    intro ep hep
    cases hep
    exact h
  addons_le := by
    show Wire.Addons.encodedLen ⟨flow.asStr, []⟩ ≤ 255
    cases flow
    · decide
    · decide

/-- **The target survives to the server.**  Whatever the client has sent, in whatever pieces: if
the handshake accepts it, it has taken a greeting and a CONNECT request off the front and left the
rest, and the request of the bridges for the target it returns meets the assertions of `encode`
--- the addons fit their length byte, there is a target, and a domain name is neither empty nor
too long --- and is decoded to itself, whatever follows it. -/
theorem handshakeConnect_target (s : List UInt8) (w w' : World) (hs : w.Holds s)
    (target : Endpoint)
    (hrun : exec World.answer handshakeConnect w = (.returned target, w')) :
    (∃ greeting request rest, s = greeting ++ (request ++ rest) ∧ IsGreeting greeting ∧
      IsConnect request target ∧ w'.Holds rest) ∧
    ∀ (user : UserId) (flow : FlowKind),
      (bridgeRequest user flow target).addons.encodedLen ≤ 255 ∧
      (∀ d, target.address = .domain d → d ≠ "" ∧ d.utf8ByteSize ≤ 255) ∧
      ∃ bytes, (bridgeRequest user flow target).encode = some bytes ∧
        ∀ rest, Request.decode (bytes ++ rest) = .ok (bridgeRequest user flow target, rest) := by
  obtain ⟨greeting, request, rest, hsplit, hgreeting, hconnect, hholds⟩ :=
    handshakeConnect_inv hs hrun
  refine ⟨⟨greeting, request, rest, hsplit, hgreeting, hconnect, hholds⟩, fun user flow => ?_⟩
  obtain ⟨reserved, atyp, hi, lo, address, -, haddress, -⟩ := hconnect
  have hok := haddress.addressOk
  have hsend := bridgeRequest_sendable user flow hok
  refine ⟨hsend.addons_le, fun d hd => ?_, ?_⟩
  · obtain ⟨hne, hle, -⟩ := (Address.mkDomain_eq_ok_iff d _).mp (hok d hd)
    exact ⟨hne, hle⟩
  · obtain ⟨bytes, hencode, -, -⟩ := hsend.decode_encode []
    refine ⟨bytes, hencode, fun rest => ?_⟩
    obtain ⟨bytes', hencode', -, hdecode⟩ := hsend.decode_encode rest
    rw [hencode] at hencode'
    cases hencode'
    exact hdecode

/-- A request for `a:80`, in two pieces and with three bytes behind it. -/
theorem handshakeConnect_target_domain :
    ∃ w', exec World.answer handshakeConnect
        ⟨[[5, 1, 0, 5], [1, 0, 3, 1, 97, 0, 80, 7, 7, 7]], [], [], false⟩ =
          (.returned ⟨.domain "a", 80⟩, w') ∧ w'.Holds [7, 7, 7] := by
  have hrun : exec World.answer handshakeConnect
      ⟨[[5, 1, 0, 5], [1, 0, 3, 1, 97, 0, 80, 7, 7, 7]], [], [], false⟩ =
        (.returned ⟨.domain "a", 80⟩, ⟨[[7, 7, 7]], [], [5, 0], false⟩) := by decide +kernel
  obtain ⟨⟨_, _, rest, -, -, -, hholds⟩, -⟩ :=
    handshakeConnect_target _ _ _ ⟨rfl, by decide⟩ _ hrun
  exact ⟨_, hrun, rfl, by decide⟩

end Client
end HoldTheDonut
