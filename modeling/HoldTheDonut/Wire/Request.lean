import HoldTheDonut.Wire.Addons

/-!
# `donut-wire/src/request.rs`: the inner-frame header

    [version 1][uuid 16][L 1][addons L][command 1] [port 2][address type 1][address]

with the bracketed trailer absent for `Mux`.  The decoder is a parser in the sense
of `Streaming.Incremental`: every field is preceded by an `ensure` that reports
`Truncated` when the buffer holds too little of it.

`encode` panics on a request without a target that is not `Mux`; it is an `Option`
here.  Its two `debug_assert`s speak about requests outside `Request.Sendable`; a
release build writes a truncated length byte for those, and so does the model.
-/

namespace HoldTheDonut
namespace Wire

open Streaming

def version : UInt8 := 0x00

def addrIpv4 : UInt8 := 0x01
def addrDomain : UInt8 := 0x02
def addrIpv6 : UInt8 := 0x03

/-- The request header a client opens its tunnel payload with. -/
structure Request where
  user : UserId
  flow : FlowKind
  command : Command
  target : Option Endpoint
  seed : List UInt8
  deriving DecidableEq

/-- The header the server answers with. -/
structure Response where
  addons : Addons
  deriving DecidableEq

/-! ## Encoding -/

/-- The length of an address behind its type byte. -/
def addressLen : Address → ℕ
  | .ip (.v4 _) => 4
  | .ip (.v6 _) => 16
  | .domain d => 1 + d.utf8ByteSize

/-- Address type and address. -/
def addressBytes : Address → List UInt8
  | .ip (.v4 a) => addrIpv4 :: a.toList
  | .ip (.v6 a) => addrIpv6 :: a.toList
  | .domain d => addrDomain :: UInt8.ofNat d.utf8ByteSize :: utf8 d

/-- Port, address type and address. -/
def endpointBytes (ep : Endpoint) : List UInt8 :=
  hi8 ep.port.toNat :: lo8 ep.port.toNat :: addressBytes ep.address

namespace Request

def addons (r : Request) : Addons := ⟨r.flow.asStr, r.seed⟩

def encodedLen (r : Request) : ℕ :=
  1 + 16 + 1 + r.addons.encodedLen + 1 +
    match r.target with
    | none => 0
    | some ep => 2 + 1 + addressLen ep.address

/-- The fields every request has. -/
def head (r : Request) : List UInt8 :=
  version :: (r.user.toList ++
    UInt8.ofNat r.addons.encodedLen :: (r.addons.encode ++ [r.command.toU8]))

/-- `none` is the panic on a missing target. -/
def encode (r : Request) : Option (List UInt8) :=
  match r.target, r.command with
  | none, .mux => some r.head
  | some ep, _ => some (r.head ++ endpointBytes ep)
  | none, _ => none

end Request

namespace Response

def encodedLen (r : Response) : ℕ := 1 + 1 + r.addons.encodedLen

def encode (r : Response) : List UInt8 :=
  version :: UInt8.ofNat r.addons.encodedLen :: r.addons.encode

end Response

/-! ## Decoding -/

abbrev Decode : Type → Type := Parser UInt8 WireError

def ensure (n : ℕ) : Decode Unit := fun buf =>
  if buf.length < n then .error (.truncated n buf.length) else .ok ((), buf)

/-- `Buf::get_u8`; like its siblings it is only reached behind an `ensure`. -/
def getU8 : Decode UInt8 := fun buf => .ok (buf.headD 0, buf.drop 1)

def getU16 : Decode UInt16 := fun buf =>
  .ok (UInt16.ofNat (be16 (buf.headD 0) ((buf.drop 1).headD 0)), buf.drop 2)

/-- `Buf::copy_to_slice` into a buffer of `n` bytes. -/
def copyToSlice (n : ℕ) : Decode (List UInt8) := fun buf => .ok (buf.take n, buf.drop n)

/-- One byte, if there is one. -/
def readU8 : Decode UInt8 := do
  ensure 1
  getU8

/-- `n` bytes, if there are as many. -/
def readSlice (n : ℕ) : Decode (List UInt8) := do
  ensure n
  copyToSlice n

/-- Port and address type, three bytes ensured at once. -/
def readPortAndType : Decode (UInt16 × UInt8) := do
  ensure 3
  let port ← getU16
  let atype ← getU8
  pure (port, atype)

/-- The length-prefixed domain name. -/
def readDomain : Decode Address := do
  let dl ← readU8
  if dl = 0 then throw .zeroDomain
  else do
    let d ← readSlice dl.toNat
    match fromUtf8 d with
    | none => throw .invalidDomainUtf8
    | some s =>
      match Address.mkDomain s with
      | .error _ => throw .invalidDomainUtf8
      | .ok addr => pure addr

def readAddress (atype : UInt8) : Decode Address :=
  if atype = addrIpv4 then do
    let b ← readSlice 4
    pure (.ip (.v4 (Octets.fromSlice 4 b)))
  else if atype = addrIpv6 then do
    let b ← readSlice 16
    pure (.ip (.v6 (Octets.fromSlice 16 b)))
  else if atype = addrDomain then readDomain
  else throw (.unknownAddressType atype)

def readTarget : Decode Endpoint := do
  let (port, atype) ← readPortAndType
  let addr ← readAddress atype
  pure ⟨addr, port⟩

/-- The version byte, which everything else hangs on. -/
def readVersion : Decode Unit := do
  let v ← readU8
  if v ≠ version then throw (.badVersion v) else pure ()

/-- The length-prefixed addons. -/
def readAddons : Decode Addons := do
  let addonLen ← readU8
  let addonBuf ← readSlice addonLen.toNat
  liftM (Addons.decode addonBuf)

def readFlow (addons : Addons) : Decode FlowKind :=
  match FlowKind.fromWire addons.flow with
  | none => throw .unknownFlow
  | some flow => pure flow

def readCommand : Decode Command := do
  let cmdByte ← readU8
  match Command.fromU8 cmdByte with
  | none => throw (.unknownCommand cmdByte)
  | some command => pure command

/-- A `Mux` request carries no target. -/
def readTargetFor (command : Command) : Decode (Option Endpoint) :=
  if command = .mux then pure none
  else do
    let ep ← readTarget
    pure (some ep)

def Request.decode : Decode Request := do
  readVersion
  let uuid ← readSlice 16
  let addons ← readAddons
  let flow ← readFlow addons
  let command ← readCommand
  let target ← readTargetFor command
  pure
    { user := Octets.fromSlice 16 uuid
      flow := flow
      command := command
      target := target
      seed := addons.seed }

def Response.decode : Decode Response := do
  readVersion
  let addons ← readAddons
  pure ⟨addons⟩

/-! ## What the readers do with a full buffer -/

variable {n : ℕ}

theorem ensure_of_le {buf : List UInt8} (h : n ≤ buf.length) :
    ensure n buf = .ok ((), buf) := if_neg (not_lt.mpr h)

theorem ensure_of_lt {buf : List UInt8} (h : buf.length < n) :
    ensure n buf = .error (.truncated n buf.length) := if_pos h

theorem readU8_cons (b : UInt8) (rest : List UInt8) : readU8 (b :: rest) = .ok (b, rest) := by
  unfold readU8
  rw [Parser.bind_of_ok _ (ensure_of_le (Nat.le_add_left 1 rest.length))]
  rfl

theorem readSlice_eq (n : ℕ) (buf : List UInt8) :
    readSlice n buf =
      if buf.length < n then .error (.truncated n buf.length)
      else .ok (buf.take n, buf.drop n) := by
  unfold readSlice
  split
  · next h => rw [Parser.bind_of_error _ (ensure_of_lt h)]
  · next h =>
    rw [Parser.bind_of_ok _ (ensure_of_le (not_lt.mp h))]
    rfl

theorem readSlice_append {l : List UInt8} (h : l.length = n) (rest : List UInt8) :
    readSlice n (l ++ rest) = .ok (l, rest) := by
  rw [readSlice_eq, if_neg (by rw [List.length_append]; omega), List.take_left' h,
    List.drop_left' h]

theorem readPortAndType_cons (hi lo atype : UInt8) (rest : List UInt8) :
    readPortAndType (hi :: lo :: atype :: rest) =
      .ok ((UInt16.ofNat (be16 hi lo), atype), rest) := by
  unfold readPortAndType
  rw [Parser.bind_of_ok _ (ensure_of_le (Nat.le_add_left 3 rest.length))]
  rfl

theorem readVersion_cons (rest : List UInt8) : readVersion (version :: rest) = .ok ((), rest) := by
  unfold readVersion
  rw [Parser.bind_of_ok _ (readU8_cons version rest)]
  rfl

/-- A length that fits a byte is read back from it. -/
theorem toNat_ofNat_of_le (h : n ≤ 255) : (UInt8.ofNat n).toNat = n := by
  rw [UInt8.toNat_ofNat']
  omega

/-! ## Round trip -/

theorem readAddons_encode (a : Addons) (h : a.encodedLen ≤ 255) (rest : List UInt8) :
    readAddons (UInt8.ofNat a.encodedLen :: (a.encode ++ rest)) = .ok (a, rest) := by
  have hlen : a.encode.length = (UInt8.ofNat a.encodedLen).toNat := by
    rw [a.encode_length, toNat_ofNat_of_le h]
  unfold readAddons
  rw [Parser.bind_of_ok _ (readU8_cons _ _), Parser.bind_of_ok _ (readSlice_append hlen rest),
    a.decode_encode (by omega)]
  rfl

theorem readFlow_asStr (r : Request) (rest : List UInt8) :
    readFlow r.addons rest = .ok (r.flow, rest) := by
  unfold readFlow Request.addons
  rw [FlowKind.fromWire_asStr]
  rfl

theorem readCommand_toU8 (c : Command) (rest : List UInt8) :
    readCommand (c.toU8 :: rest) = .ok (c, rest) := by
  unfold readCommand
  rw [Parser.bind_of_ok _ (readU8_cons _ _), Command.fromU8_toU8]
  rfl

/-- A domain name that `Address::domain` accepts. -/
theorem readDomain_utf8 {d : String} (h : Address.mkDomain d = .ok (.domain d))
    (rest : List UInt8) :
    readDomain (UInt8.ofNat d.utf8ByteSize :: (utf8 d ++ rest)) = .ok (.domain d, rest) := by
  obtain ⟨hne, hle, -⟩ := (Address.mkDomain_eq_ok_iff d _).mp h
  have hnat : (UInt8.ofNat d.utf8ByteSize).toNat = d.utf8ByteSize := toNat_ofNat_of_le hle
  have hpos : UInt8.ofNat d.utf8ByteSize ≠ 0 := by
    intro hz
    rw [hz] at hnat
    have hnil : utf8 d = [] := List.eq_nil_of_length_eq_zero (by rw [utf8_length, ← hnat]; rfl)
    exact hne ((utf8_eq_nil_iff d).mp hnil)
  unfold readDomain
  rw [Parser.bind_of_ok _ (readU8_cons _ _), if_neg hpos,
    Parser.bind_of_ok _ (readSlice_append (by rw [utf8_length, hnat]) rest), fromUtf8_utf8]
  simp only [h]
  rfl

/-- An address that can be sent: its domain name, if it is one, is accepted by
`Address::domain`. -/
def AddressOk (a : Address) : Prop :=
  ∀ d, a = .domain d → Address.mkDomain d = .ok (.domain d)

/-- Once the address is read back, so is the target. -/
theorem readTarget_of_readAddress (port : UInt16) {atype : UInt8} {bytes rest : List UInt8}
    {address : Address} (h : readAddress atype bytes = .ok (address, rest)) :
    readTarget (hi8 port.toNat :: lo8 port.toNat :: atype :: bytes) =
      .ok (⟨address, port⟩, rest) := by
  have hport : UInt16.ofNat (be16 (hi8 port.toNat) (lo8 port.toNat)) = port := by
    rw [be16_hi8_lo8 port.toNat_lt, UInt16.ofNat_toNat]
  unfold readTarget
  rw [Parser.bind_of_ok _ (readPortAndType_cons _ _ _ _)]
  simp only
  rw [Parser.bind_of_ok _ h, hport]
  rfl

theorem readTarget_endpointBytes (ep : Endpoint) (h : AddressOk ep.address)
    (rest : List UInt8) : readTarget (endpointBytes ep ++ rest) = .ok (ep, rest) := by
  obtain ⟨address, port⟩ := ep
  cases address with
  | ip addr =>
    cases addr with
    | v4 a =>
      have hslice : readAddress addrIpv4 (a.toList ++ rest) = .ok (.ip (.v4 a), rest) := by
        unfold readAddress
        rw [if_pos rfl, Parser.bind_of_ok _ (readSlice_append a.toList_length rest),
          Octets.fromSlice_toList]
        rfl
      exact readTarget_of_readAddress port hslice
    | v6 a =>
      have hslice : readAddress addrIpv6 (a.toList ++ rest) = .ok (.ip (.v6 a), rest) := by
        unfold readAddress
        rw [if_neg (by decide), if_pos rfl,
          Parser.bind_of_ok _ (readSlice_append a.toList_length rest), Octets.fromSlice_toList]
        rfl
      exact readTarget_of_readAddress port hslice
  | domain d =>
    have hdom : readAddress addrDomain (UInt8.ofNat d.utf8ByteSize :: (utf8 d ++ rest)) =
        .ok (.domain d, rest) := by
      unfold readAddress
      rw [if_neg (by decide), if_neg (by decide), if_pos rfl]
      exact readDomain_utf8 (h d rfl) rest
    exact readTarget_of_readAddress port hdom

/-- **The requests a client may send**: a target unless the command is `Mux`, a
domain that `Address::domain` accepts, and addons that fit their length byte. -/
structure Request.Sendable (r : Request) : Prop where
  target_none_iff : r.target = none ↔ r.command = .mux
  domain_ok : ∀ ep, r.target = some ep → AddressOk ep.address
  addons_le : r.addons.encodedLen ≤ 255

theorem addressBytes_length (a : Address) : (addressBytes a).length = 1 + addressLen a := by
  rcases a with (a | a) | d
  · simp [addressBytes, addressLen]
  · simp [addressBytes, addressLen]
  · simp only [addressBytes, addressLen, List.length_cons, utf8_length]
    omega

namespace Request

theorem head_length (r : Request) : r.head.length = 1 + 16 + 1 + r.addons.encodedLen + 1 := by
  unfold head
  simp only [List.length_cons, List.length_append, r.user.toList_length, r.addons.encode_length,
    List.length_nil]
  omega

/-- The fields every request has, read back; what is left depends on the command. -/
theorem decode_head {r : Request} (h : r.addons.encodedLen ≤ 255) (rest : List UInt8) :
    decode (r.head ++ rest) =
      (readTargetFor r.command >>= fun target => pure { r with target := target } :
        Decode Request) rest := by
  have hassoc : r.head ++ rest =
      version :: (r.user.toList ++ (UInt8.ofNat r.addons.encodedLen ::
        (r.addons.encode ++ (r.command.toU8 :: rest)))) := by
    simp [head]
  rw [hassoc]
  unfold decode
  rw [Parser.bind_of_ok _ (readVersion_cons _),
    Parser.bind_of_ok _ (readSlice_append r.user.toList_length _),
    Parser.bind_of_ok _ (readAddons_encode r.addons h _),
    Parser.bind_of_ok _ (readFlow_asStr r _), Parser.bind_of_ok _ (readCommand_toU8 r.command _),
    Octets.fromSlice_toList]
  rfl

/-- The two shapes of a request that can be sent. -/
theorem Sendable.decode_encode {r : Request} (h : r.Sendable) (rest : List UInt8) :
    ∃ bytes, r.encode = some bytes ∧ bytes.length = r.encodedLen ∧
      decode (bytes ++ rest) = .ok (r, rest) := by
  obtain ⟨user, flow, command, target, seed⟩ := r
  cases target with
  | none =>
    have hcmd : command = .mux := h.target_none_iff.mp rfl
    subst hcmd
    refine ⟨_, rfl, ?_, ?_⟩
    · rw [head_length]
      rfl
    · rw [decode_head h.addons_le]
      rfl
  | some ep =>
    have hcmd : command ≠ .mux := fun hc => by
      have := h.target_none_iff.mpr hc
      cases this
    refine ⟨_, rfl, ?_, ?_⟩
    · rw [List.length_append, head_length, endpointBytes, List.length_cons, List.length_cons,
        addressBytes_length]
      simp only [encodedLen]
      omega
    · rw [List.append_assoc, decode_head h.addons_le, readTargetFor, if_neg hcmd, bind_assoc,
        Parser.bind_of_ok _ (readTarget_endpointBytes ep (h.domain_ok ep rfl) rest)]
      rfl

end Request

theorem Response.decode_encode (r : Response) (h : r.addons.encodedLen ≤ 255)
    (rest : List UInt8) :
    r.encode.length = r.encodedLen ∧ Response.decode (r.encode ++ rest) = .ok (r, rest) := by
  constructor
  · unfold encode encodedLen
    rw [List.length_cons, List.length_cons, r.addons.encode_length]
    omega
  · unfold encode Response.decode
    rw [List.cons_append, List.cons_append, Parser.bind_of_ok _ (readVersion_cons _),
      Parser.bind_of_ok _ (readAddons_encode r.addons h rest)]
    rfl

/-- **Requests and responses are read back, and nothing behind them is touched.** -/
theorem request_response_round_trip (rest : List UInt8) :
    (∀ r : Request, r.Sendable → ∃ bytes, r.encode = some bytes ∧
      bytes.length = r.encodedLen ∧ Request.decode (bytes ++ rest) = .ok (r, rest)) ∧
    (∀ r : Response, r.addons.encodedLen ≤ 255 → r.encode.length = r.encodedLen ∧
      Response.decode (r.encode ++ rest) = .ok (r, rest)) :=
  ⟨fun _ h => h.decode_encode rest, fun r h => r.decode_encode h rest⟩

/-- An extended-flow request for a domain, with a seed. -/
theorem request_response_round_trip_domain :
    ∃ bytes, Request.encode ⟨Octets.fromSlice 16 [1], .extended, .tcp,
        some ⟨.domain "a.example", 443⟩, [7]⟩ = some bytes ∧ bytes.length = 53 ∧
      Request.decode (bytes ++ [9]) = .ok (⟨Octets.fromSlice 16 [1], .extended, .tcp,
        some ⟨.domain "a.example", 443⟩, [7]⟩, [9]) := by
  have hsend : Request.Sendable ⟨Octets.fromSlice 16 [1], .extended, .tcp,
      some ⟨.domain "a.example", 443⟩, [7]⟩ := by
    refine ⟨by simp, ?_, by decide⟩
    intro ep hep d hd
    cases hep
    cases hd
    decide
  exact (request_response_round_trip [9]).1 _ hsend

end Wire
end HoldTheDonut
