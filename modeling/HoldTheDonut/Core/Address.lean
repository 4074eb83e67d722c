import HoldTheDonut.Core.Bytes

/-!
# `donut-core`: addresses, commands and flows

The vocabulary the other crates share.  A Rust `String` is valid UTF-8 by
construction and so is a Lean `String`; `utf8` and `fromUtf8` are `as_bytes` and
`from_utf8` between the two views of it.

An address is an IP address, kept as its octets, or a domain name.  The length
bounds of a domain are *not* part of the type: `Address::Domain` is a public
constructor of the source, and `Address::domain` the checked way in.
-/

namespace HoldTheDonut

/-! ## Text -/

/-- `str::as_bytes`. -/
def utf8 (s : String) : List UInt8 := s.toUTF8.data.toList

/-- `str::from_utf8`. -/
def fromUtf8 (bytes : List UInt8) : Option String := String.fromUTF8? ⟨bytes.toArray⟩

@[simp] theorem fromUtf8_utf8 (s : String) : fromUtf8 (utf8 s) = some s := by
  simp [fromUtf8, utf8, String.fromUTF8?, s.isValidUTF8, String.fromUTF8]

/-- What `from_utf8` accepts are the bytes of the text it returns. -/
theorem utf8_of_fromUtf8 {bytes : List UInt8} {s : String} (h : fromUtf8 bytes = some s) :
    utf8 s = bytes := by
  unfold fromUtf8 String.fromUTF8? at h
  split at h
  · cases h
    simp [utf8, String.fromUTF8]
  · cases h

@[simp] theorem utf8_length (s : String) : (utf8 s).length = s.utf8ByteSize := by
  simp [utf8]

theorem utf8_append (s t : String) : utf8 (s ++ t) = utf8 s ++ utf8 t := by
  simp [utf8]

theorem utf8_eq_nil_iff (s : String) : utf8 s = [] ↔ s = "" := by
  constructor
  · intro h
    have hs := fromUtf8_utf8 s
    rw [h] at hs
    exact (Option.some.inj hs).symm
  · rintro rfl
    rfl

/-! ## Addresses -/

/-- `std::net::IpAddr`, as octets in network order. -/
inductive IpAddr where
  | v4 (octets : Octets 4)
  | v6 (octets : Octets 16)
  deriving DecidableEq

/-- `std::net::SocketAddr`, without the flow and scope of IPv6. -/
structure SocketAddr where
  ip : IpAddr
  port : UInt16
  deriving DecidableEq

/-- Is the address an IPv6 one? -/
def SocketAddr.isIpv6 (a : SocketAddr) : Bool :=
  match a.ip with
  | .v4 _ => false
  | .v6 _ => true

/-- A target address: an IP address or an unresolved name. -/
inductive Address where
  | ip (addr : IpAddr)
  | domain (name : String)
  deriving DecidableEq

inductive AddressParseError where
  | domainLen (len : ℕ)
  | badEndpoint
  deriving DecidableEq

namespace Address

def maxDomainLen : ℕ := 255

/-- `Address::domain`, the checked constructor. -/
def mkDomain (s : String) : Except AddressParseError Address :=
  if s = "" ∨ s.utf8ByteSize > maxDomainLen then .error (.domainLen s.utf8ByteSize)
  else .ok (.domain s)

theorem mkDomain_eq_ok_iff (s : String) (a : Address) :
    mkDomain s = .ok a ↔ s ≠ "" ∧ s.utf8ByteSize ≤ maxDomainLen ∧ a = .domain s := by
  unfold mkDomain
  by_cases h : s = "" ∨ s.utf8ByteSize > maxDomainLen
  · rw [if_pos h]
    simp only [reduceCtorEq, false_iff]
    rintro ⟨hne, hle, -⟩
    rcases h with h | h
    · exact hne h
    · omega
  · rw [if_neg h]
    rw [not_or, not_lt] at h
    simp only [Except.ok.injEq]
    exact ⟨fun ha => ⟨h.1, h.2, ha.symm⟩, fun ha => ha.2.2.symm⟩

end Address

/-- Host and port. -/
structure Endpoint where
  address : Address
  port : UInt16
  deriving DecidableEq

/-! ## Commands and flows -/

/-- The command byte of a request. -/
inductive Command where
  | tcp
  | udp
  | mux
  deriving DecidableEq

namespace Command

/-- `self.command as u8`. -/
def toU8 : Command → UInt8
  | tcp => 0x01
  | udp => 0x02
  | mux => 0x03

def fromU8 (v : UInt8) : Option Command :=
  if v = 0x01 then some tcp
  else if v = 0x02 then some udp
  else if v = 0x03 then some mux
  else none

@[simp] theorem fromU8_toU8 (c : Command) : fromU8 c.toU8 = some c := by
  cases c <;> rfl

end Command

/-- The flow selector carried in the addons. -/
inductive FlowKind where
  | none
  | extended
  deriving DecidableEq

namespace FlowKind

def extendedWire : String := "xtls-rprx-vision"

def asStr : FlowKind → String
  | none => ""
  | extended => extendedWire

def fromWire (s : String) : Option FlowKind :=
  if s = "" ∨ s = "none" then some none
  else if s = extendedWire then some extended
  else Option.none

@[simp] theorem fromWire_asStr (f : FlowKind) : fromWire f.asStr = some f := by
  cases f <;> decide

end FlowKind

/-- A user id: the 16 bytes of a UUID. -/
abbrev UserId : Type := Octets 16

end HoldTheDonut
