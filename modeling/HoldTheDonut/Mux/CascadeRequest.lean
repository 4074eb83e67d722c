import HoldTheDonut.Mux.Cascade
import HoldTheDonut.Wire.Normal

/-!
# What the exit is asked for

The first datagram of a sub-session for a chained target dials the chain, and `dial_command`
opens the new tunnel with a request for that target, "so the exit dials it".  The target was a
field of a Mux frame and becomes a field of a VLESS request.  Both carry a domain as a length
byte and the bytes, so what was written into one fits the other.

In between it is a `String`.  `read_addr` makes it with `String::from_utf8_lossy`, which accepts
any bytes, and `endpoint_of` wraps it without the check of `Address::domain`.  A byte that is no
UTF-8 becomes the three bytes of U+FFFD, so the exit is asked for another name, or for one that
does not fit the length byte; and a domain of no bytes stays one, which `Request::encode`
forbids.  The request is right exactly if the domain in the frame is text and not empty
(`cascade_request_iff`).
-/

namespace HoldTheDonut
namespace Server

/-- The request `dial_command` opens the tunnel to an upstream with. -/
def ChainOutbound.request (chain : ChainOutbound) (target : Endpoint) (command : Command) :
    Wire.Request where
  user := chain.uuid
  flow := .none
  command := command
  target := some target
  seed := []

/-- Its addons are empty, so it may be sent if its target may. -/
theorem ChainOutbound.sendable_request (chain : ChainOutbound) {target : Endpoint}
    {command : Command} (hcommand : command ≠ .mux) (h : Wire.AddressOk target.address) :
    (chain.request target command).Sendable where
  target_none_iff := ⟨(fun hnone => by cases hnone), fun hmux => absurd hmux hcommand⟩
  domain_ok := by
    intro ep hep
    cases hep
    exact h
  addons_le := by
    show Wire.Addons.encodedLen ⟨"", []⟩ ≤ 255
    decide

end Server

namespace Mux

open Routing Server
open Wire (Request)

/-! ## The domain in the frame -/

/-- The address part of a frame: its metadata, behind id, status, option and network. -/
def addressPart (buf : List UInt8) : List UInt8 :=
  ((buf.drop 2).take (be16 (buf.getD 0 0) (buf.getD 1 0))).drop 5

/-- The bytes of the domain, behind port, type and length byte. -/
def domainBytes (buf : List UInt8) : List UInt8 :=
  ((addressPart buf).drop 4).take ((addressPart buf).getD 3 0).toNat

def domainPort (buf : List UInt8) : UInt16 :=
  UInt16.ofNat (be16 ((addressPart buf).getD 0 0) ((addressPart buf).getD 1 0))

theorem domainBytes_length_le (buf : List UInt8) : (domainBytes buf).length ≤ 255 := by
  have hlt := ((addressPart buf).getD 3 0).toNat_lt
  rw [domainBytes, List.length_take]
  omega

variable {host : String}

/-- A domain is read from its bytes, whatever they are. -/
theorem readAddr_eq_domain {b : List UInt8} {port : UInt16} {used : ℕ}
    (h : readAddr b = some (.domain host port, used)) :
    host = fromUtf8Lossy ((b.drop 4).take (b.getD 3 0).toNat) ∧
      port = UInt16.ofNat (be16 (b.getD 0 0) (b.getD 1 0)) := by
  unfold readAddr at h
  simp only at h
  split_ifs at h <;> cases h
  exact ⟨rfl, rfl⟩

theorem target_eq_domain {buf rest : List UInt8} {f : Frame} {host : String} {port : UInt16}
    (hparse : parseFrame buf = .ok (some (f, rest)))
    (htarget : f.target = some (.domain host port)) :
    host = fromUtf8Lossy (domainBytes buf) ∧ port = domainPort buf := by
  have hmeta := (parsedFrom_of_parseFrame hparse).target_eq
  rw [htarget, metaTarget] at hmeta
  split at hmeta
  · split at hmeta
    · cases hmeta
    · split at hmeta
      · next a used hread =>
        cases hmeta
        exact readAddr_eq_domain hread
      · cases hmeta
  · cases hmeta

/-- What serving a frame dials is what the frame states. -/
theorem endpoint_of_dial {env : MuxEnv} {router : Router} {outbounds : Outbounds} {n : ℕ}
    {sess : UdpSession} {f : Frame} {chain : ChainOutbound} {ep : Endpoint}
    (h : Action.dial chain ep ∈ (serve env router outbounds n sess f).2) :
    ∃ t, f.target = some t ∧ ep = endpointOf t := by
  have hmem : ep ∈ (serve env router outbounds n sess f).2.filterMap Action.dialled :=
    List.mem_filterMap.mpr ⟨_, h, rfl⟩
  rcases serve_dialled_cases router outbounds env n sess f with hnil | ⟨t, htarget, -, hone⟩
  · rw [hnil] at hmem
    cases hmem
  · rw [hone] at hmem
    exact ⟨t, htarget, List.mem_singleton.mp hmem⟩

/-! ## The request -/

/-- **The exit gets this domain and port.**  The request triggers no assertion, and what it is
decoded to names the domain byte for byte, with nothing left over. -/
def Asks (request : Request) (domain : List UInt8) (port : UInt16) : Prop :=
  ∃ bytes received name, request.encodeChecked = some bytes ∧
    Request.decode bytes = .ok (received, []) ∧
    received.target = some ⟨.domain name, port⟩ ∧ utf8 name = domain

/-- A text that `encode` does not assert against is asked for as it is. -/
theorem decode_request (chain : ChainOutbound) (port : UInt16)
    (hhost : host ≠ "" ∧ host.utf8ByteSize ≤ 255) :
    ∃ bytes, (chain.request ⟨.domain host, port⟩ .udp).encodeChecked = some bytes ∧
      Request.decode bytes = .ok (chain.request ⟨.domain host, port⟩ .udp, []) := by
  have hok : Wire.AddressOk (.domain host) := by
    intro d hd
    cases hd
    exact (Address.mkDomain_eq_ok_iff host _).mpr ⟨hhost.1, hhost.2, rfl⟩
  have hsend : (chain.request ⟨.domain host, port⟩ .udp).Sendable :=
    chain.sendable_request (by decide) hok
  obtain ⟨bytes, hencode, -, hdecode⟩ := hsend.decode_encode []
  rw [List.append_nil] at hdecode
  exact ⟨bytes, hsend.encodeChecked_eq.trans hencode, hdecode⟩

/-- The other texts trigger an assertion. -/
theorem encodeChecked_request {chain : ChainOutbound} {port : UInt16} {bytes : List UInt8}
    (h : (chain.request ⟨.domain host, port⟩ .udp).encodeChecked = some bytes) :
    host ≠ "" ∧ host.utf8ByteSize ≤ 255 := by
  have haddons : ¬ 255 < (chain.request ⟨.domain host, port⟩ .udp).addons.encodedLen := by
    show ¬ 255 < Wire.Addons.encodedLen ⟨"", []⟩
    decide
  rw [Request.encodeChecked, if_neg haddons] at h
  change (if host = "" ∨ 255 < host.utf8ByteSize then none else _) = some bytes at h
  split at h
  · cases h
  · next hfine => exact ⟨fun he => hfine (Or.inl he), Nat.not_lt.mp fun hl => hfine (Or.inr hl)⟩

/-- **The exit is asked for a text exactly if that is what the bytes are.** -/
theorem asks_lossy_iff (chain : ChainOutbound) {domain : List UInt8} (port : UInt16)
    (hlen : domain.length ≤ 255) :
    Asks (chain.request ⟨.domain (fromUtf8Lossy domain), port⟩ .udp) domain port ↔
      domain ≠ [] ∧ (fromUtf8 domain).isSome := by
  constructor
  · rintro ⟨bytes, received, name, hencode, hdecode, htarget, hname⟩
    have hhost := encodeChecked_request hencode
    obtain ⟨bytes', hencode', hdecode'⟩ := decode_request chain port hhost
    rw [hencode] at hencode'
    cases hencode'
    rw [hdecode] at hdecode'
    cases hdecode'
    cases htarget
    constructor
    · rintro rfl
      exact hhost.1 ((utf8_eq_nil_iff _).mp hname)
    · rw [← hname, fromUtf8_utf8]
      rfl
  · rintro ⟨hne, htext⟩
    obtain ⟨host, hhost⟩ := Option.isSome_iff_exists.mp htext
    obtain rfl := utf8_of_fromUtf8 hhost
    rw [fromUtf8Lossy_utf8]
    rw [utf8_length] at hlen
    obtain ⟨bytes, hencode, hdecode⟩ := decode_request chain port
      ⟨fun he => hne ((utf8_eq_nil_iff host).mpr he), hlen⟩
    exact ⟨bytes, _, host, hencode, hdecode, rfl, rfl⟩

/-- **Cascade requests are right exactly for domains that are text.**  For any frame with a
domain, any sub-session and any answers of the network: if serving the frame dials a chain, the
exit is asked for the domain and the port of the frame exactly if the bytes of the domain are
valid UTF-8 and not empty. -/
theorem cascade_request_iff {buf rest : List UInt8} {f : Frame} {host : String} {port : UInt16}
    {env : MuxEnv} {router : Router} {outbounds : Outbounds} {n : ℕ} {sess : UdpSession}
    {chain : ChainOutbound} {ep : Endpoint}
    (hparse : parseFrame buf = .ok (some (f, rest)))
    (htarget : f.target = some (.domain host port))
    (hdial : Action.dial chain ep ∈ (serve env router outbounds n sess f).2) :
    Asks (chain.request ep .udp) (domainBytes buf) (domainPort buf) ↔
      domainBytes buf ≠ [] ∧ (fromUtf8 (domainBytes buf)).isSome := by
  obtain ⟨t, ht, rfl⟩ := endpoint_of_dial hdial
  rw [htarget] at ht
  cases ht
  obtain ⟨rfl, rfl⟩ := target_eq_domain hparse htarget
  exact asks_lossy_iff chain (domainPort buf) (domainBytes_length_le buf)

/-- A `New` frame with one byte for UDP to port 53 of this domain. -/
def domainFrame (domain : List UInt8) : List UInt8 :=
  [0, UInt8.ofNat (9 + domain.length), 0, 7, 1, 1, 2, 0, 53, 2, UInt8.ofNat domain.length] ++
    domain ++ [0, 1, 42]

/-- What it does in a new sub-session when everything goes up one chain. -/
def domainActions (domain : List UInt8) : List Action :=
  (serve openNet chainAll exitOnly 0 .default
    ⟨7, statusNew, some (.domain (fromUtf8Lossy domain) 53), some [42]⟩).2

theorem cascade_request_iff_letter :
    Asks (exitChain.request ⟨.domain "a", 53⟩ .udp) (domainBytes (domainFrame [0x61]))
      (domainPort (domainFrame [0x61])) := by
  have hparse : parseFrame (domainFrame [0x61]) =
      .ok (some (⟨7, statusNew, some (.domain "a" 53), some [42]⟩, [])) := by decide +kernel
  have hdial : Action.dial exitChain ⟨.domain "a", 53⟩ ∈
      (serve openNet chainAll exitOnly 0 .default
        ⟨7, statusNew, some (.domain "a" 53), some [42]⟩).2 := by decide +kernel
  exact (cascade_request_iff hparse rfl hdial).mpr ⟨by decide, by decide +kernel⟩

/-- A byte that is no text and a domain of no bytes are dialled.  For the first, the exit is
asked for U+FFFD; the second triggers the assertion. -/
theorem cascade_request_replaced :
    parseFrame (domainFrame [0xFF]) =
      .ok (some (⟨7, statusNew, some (.domain "\uFFFD" 53), some [42]⟩, [])) ∧
    Action.dial exitChain ⟨.domain "\uFFFD", 53⟩ ∈ domainActions [0xFF] ∧
    domainBytes (domainFrame [0xFF]) = [0xFF] ∧ utf8 "\uFFFD" = [0xEF, 0xBF, 0xBD] ∧
    ¬ Asks (exitChain.request ⟨.domain "\uFFFD", 53⟩ .udp) [0xFF] 53 ∧
    parseFrame (domainFrame []) =
      .ok (some (⟨7, statusNew, some (.domain "" 53), some [42]⟩, [])) ∧
    Action.dial exitChain ⟨.domain "", 53⟩ ∈ domainActions [] ∧
    (exitChain.request ⟨.domain "", 53⟩ .udp).encodeChecked = none := by
  refine ⟨by decide +kernel, by decide +kernel, by decide +kernel, by decide +kernel,
    fun h => ?_, by decide +kernel, by decide +kernel, by decide +kernel⟩
  have hlossy : fromUtf8Lossy [0xFF] = "\uFFFD" := by decide +kernel
  have hlen : [(0xFF : UInt8)].length ≤ 255 := by decide
  rw [← hlossy] at h
  exact absurd ((asks_lossy_iff exitChain 53 hlen).mp h).2 (by decide +kernel)

end Mux
end HoldTheDonut
