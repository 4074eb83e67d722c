import Mathlib.Data.List.Induction
import Mathlib.Data.Nat.Bitwise
import HoldTheDonut.Routing.Router

/-!
# Networks: what a mask compares, and what a geo database says

`masked_eq` builds a mask of 128 bits by shifting ones up and down again and compares two
addresses under it.  In the source each shift amount is a subtraction, and a subtraction below
zero or a shift by 128 would panic; the first section runs the function with both checked
(`maskedEqChecked`) and finds that neither happens.  What the mask compares is said bit by bit:
two addresses of one family agree on their first bits (`contains_iff`), bit `j` being a bit of
octet `j / 8`.

A GeoIP database is a list of entries with a country code, networks, and a flag that turns the
meaning of the entry around.  `GeoIpDb::parse` merges the entries of a code into one list of
networks.  On the way it narrows the prefix length from 32 bits to 8, so that `/264` becomes
`/8`, and it never looks at the flag.  `Meant` is what the entries say, `contains_iff_meant_iff`
when the database answers that.
-/

namespace HoldTheDonut

/-! ## Bits of an address -/

namespace IpAddr

/-- The octets in network order. -/
def octets : IpAddr → List UInt8
  | .v4 o => o.toList
  | .v6 o => o.toList

def isIpv4 : IpAddr → Bool
  | .v4 _ => true
  | .v6 _ => false

/-- The number of bits of the family. -/
def width : IpAddr → ℕ
  | .v4 _ => 32
  | .v6 _ => 128

theorem width_eq (a : IpAddr) : a.width = 8 * a.octets.length := by
  cases a with
  | v4 o => rw [octets, o.toList_length]; rfl
  | v6 o => rw [octets, o.toList_length]; rfl

theorem isIpv4_eq_iff {a b : IpAddr} :
    a.isIpv4 = b.isIpv4 ↔ a.octets.length = b.octets.length := by
  cases a <;> cases b <;> simp [isIpv4, octets, List.Vector.toList_length]

end IpAddr

/-- Bit `j` of an address, counted from the highest bit of the first octet. -/
def addressBit (octets : List UInt8) (j : ℕ) : Bool :=
  (octets.getD (j / 8) 0).toNat.testBit (7 - j % 8)

/-- Octets as one number, the first in the highest place. -/
def octetsValue (octets : List UInt8) : ℕ := octets.foldl (fun acc b => acc * 256 + b.toNat) 0

theorem octetsValue_append_singleton (octets : List UInt8) (b : UInt8) :
    octetsValue (octets ++ [b]) = 2 ^ 8 * octetsValue octets + b.toNat := by
  rw [octetsValue, List.foldl_append]
  show octetsValue octets * 256 + b.toNat = 256 * octetsValue octets + b.toNat
  rw [Nat.mul_comm]

/-- The bits of the number are the bits of the address. -/
theorem testBit_octetsValue (octets : List UInt8) {j : ℕ} (h : j < 8 * octets.length) :
    (octetsValue octets).testBit (8 * octets.length - 1 - j) = addressBit octets j := by
  induction octets using List.reverseRecOn with
  | nil => simp at h
  | append_singleton octets b ih =>
    rw [List.length_append, List.length_singleton] at h ⊢
    rw [octetsValue_append_singleton, Nat.testBit_two_pow_mul_add _ b.toNat_lt]
    unfold addressBit
    by_cases hj : j < 8 * octets.length
    · have hindex : 8 * (octets.length + 1) - 1 - j - 8 = 8 * octets.length - 1 - j := by omega
      rw [if_neg (by omega), hindex, ih hj, addressBit,
        List.getD_append _ _ _ _ (by omega)]
    · have hoctet : j / 8 = octets.length := by omega
      have hindex : 8 * (octets.length + 1) - 1 - j = 7 - j % 8 := by omega
      rw [if_pos (by omega), hindex, hoctet, List.getD_append_right _ _ _ _ le_rfl,
        Nat.sub_self]
      rfl

/-! ## The mask -/

/-- `a - b` of unsigned numbers, which panics below zero. -/
def checkedSub (a b : ℕ) : Option ℕ := if b ≤ a then some (a - b) else none

/-- `x << n` of a `u128`, which panics when all bits are shifted out. -/
def checkedShl (x : BitVec 128) (n : ℕ) : Option (BitVec 128) :=
  if n < 128 then some (x <<< n) else none

/-- `x >> n` of a `u128`. -/
def checkedShr (x : BitVec 128) (n : ℕ) : Option (BitVec 128) :=
  if n < 128 then some (x >>> n) else none

/-- `masked_eq` with every subtraction and shift checked; `none` is a panic. -/
def maskedEqChecked (net ip : BitVec 128) (prefixLen bits : ℕ) : Option Bool :=
  if prefixLen = 0 then some true
  else if bits < prefixLen then some false
  else do
    let up ← checkedSub 128 prefixLen
    let top ← checkedShl (BitVec.allOnes 128) up
    let down ← checkedSub 128 bits
    let mask ← checkedShr top down
    pure (decide (net &&& mask = ip &&& mask))

/-- **Nothing overflows**, for any prefix length. -/
theorem maskedEqChecked_eq (net ip : BitVec 128) (prefixLen : ℕ) {bits : ℕ} (hpos : 0 < bits)
    (hbits : bits ≤ 128) :
    maskedEqChecked net ip prefixLen bits = some (maskedEq net ip prefixLen bits) := by
  unfold maskedEqChecked maskedEq
  by_cases hzero : prefixLen = 0
  · rw [if_pos hzero, if_pos hzero]
  · by_cases hlong : bits < prefixLen
    · rw [if_neg hzero, if_neg hzero, if_pos hlong, if_pos hlong]
    · have hup : checkedSub 128 prefixLen = some (128 - prefixLen) := if_pos (by omega)
      have hdown : checkedSub 128 bits = some (128 - bits) := if_pos hbits
      rw [if_neg hzero, if_neg hzero, if_neg hlong, if_neg hlong, hup, hdown]
      simp only [bind, Option.bind, checkedShl, checkedShr, pure]
      rw [if_pos (by omega)]
      simp only
      rw [if_pos (by omega)]

/-- The mask has ones from bit `bits - prefixLen` to bit `bits - 1`. -/
theorem getLsbD_mask {prefixLen bits i : ℕ} (hshort : prefixLen ≤ bits) (hbits : bits ≤ 128) :
    ((BitVec.allOnes 128 <<< (128 - prefixLen)) >>> (128 - bits)).getLsbD i =
      decide (bits - prefixLen ≤ i ∧ i < bits) := by
  rw [BitVec.getLsbD_ushiftRight, BitVec.getLsbD_shiftLeft, BitVec.getLsbD_allOnes]
  rw [Bool.eq_iff_iff]
  simp only [Bool.and_eq_true, Bool.not_eq_true', decide_eq_true_eq, decide_eq_false_iff_not]
  omega

/-- Equal under the mask is equal in those bits. -/
theorem maskedEq_iff {x y : BitVec 128} {prefixLen bits : ℕ} (hshort : prefixLen ≤ bits)
    (hbits : bits ≤ 128) :
    maskedEq x y prefixLen bits = true ↔
      ∀ i, bits - prefixLen ≤ i → i < bits → x.getLsbD i = y.getLsbD i := by
  unfold maskedEq
  by_cases hzero : prefixLen = 0
  · rw [if_pos hzero]
    exact ⟨fun _ i hlow hhigh => absurd hhigh (by omega), fun _ => rfl⟩
  · rw [if_neg hzero, if_neg (Nat.not_lt.mpr hshort), decide_eq_true_iff]
    constructor
    · intro h i hlow hhigh
      have hbit := congrArg (fun v : BitVec 128 => v.getLsbD i) h
      simp only [BitVec.getLsbD_and, getLsbD_mask hshort hbits] at hbit
      simpa [hlow, hhigh] using hbit
    · intro h
      refine BitVec.eq_of_getLsbD_eq fun i _ => ?_
      rw [BitVec.getLsbD_and, BitVec.getLsbD_and, getLsbD_mask hshort hbits]
      by_cases hin : bits - prefixLen ≤ i ∧ i < bits
      · rw [h i hin.1 hin.2]
      · rw [decide_eq_false hin, Bool.and_false, Bool.and_false]

/-- **Under the mask, two addresses are compared by their first bits.** -/
theorem maskedEq_octets_iff (net ip : List UInt8) (prefixLen : ℕ) (hlen : ip.length = net.length)
    (hmax : net.length ≤ 16) (hshort : prefixLen ≤ 8 * net.length) :
    maskedEq (addressBits net) (addressBits ip) prefixLen (8 * net.length) = true ↔
      ∀ j, j < prefixLen → addressBit net j = addressBit ip j := by
  have hbit : ∀ {octets : List UInt8} {i : ℕ}, octets.length = net.length → i < 8 * net.length →
      (addressBits octets).getLsbD i = addressBit octets (8 * net.length - 1 - i) := by
    intro octets i hoctets hi
    rw [addressBits, BitVec.getLsbD_ofNat, decide_eq_true (by omega), Bool.true_and,
      ← testBit_octetsValue octets (by omega), hoctets]
    congr 1
    omega
  rw [maskedEq_iff hshort (by omega)]
  constructor
  · intro h j hj
    have hi := h (8 * net.length - 1 - j) (by omega) (by omega)
    rw [hbit rfl (by omega), hbit hlen (by omega)] at hi
    have hj' : 8 * net.length - 1 - (8 * net.length - 1 - j) = j := by omega
    rwa [hj'] at hi
  · intro h i hlow hhigh
    rw [hbit rfl hhigh, hbit hlen hhigh]
    exact h _ (by omega)

/-! ## Networks -/

namespace Network

/-- `contains` in the words both crates use, with `masked_eq` checked. -/
def containsChecked (c : Network) (ip : IpAddr) : Option Bool :=
  match c.net, ip with
  | .v4 net, .v4 ip =>
    maskedEqChecked (addressBits net.toList) (addressBits ip.toList) c.prefixLen.toNat 32
  | .v6 net, .v6 ip =>
    maskedEqChecked (addressBits net.toList) (addressBits ip.toList) c.prefixLen.toNat 128
  | _, _ => some false

theorem containsChecked_eq (c : Network) (ip : IpAddr) :
    c.containsChecked ip = some (c.contains ip) := by
  obtain ⟨net, prefixLen⟩ := c
  cases net <;> cases ip
  · exact maskedEqChecked_eq _ _ _ (by decide) (by decide)
  · rfl
  · rfl
  · exact maskedEqChecked_eq _ _ _ (by decide) (by decide)

theorem maskedEq_of_lt {x y : BitVec 128} {prefixLen bits : ℕ} (h : bits < prefixLen) :
    maskedEq x y prefixLen bits = false := by
  rw [maskedEq, if_neg (by omega), if_pos h]

/-- The comparison inside one family. -/
theorem maskedEq_family_iff {k : ℕ} (hk : k ≤ 16) (net ip : Octets k) (prefixLen : ℕ) :
    maskedEq (addressBits net.toList) (addressBits ip.toList) prefixLen (8 * k) = true ↔
      prefixLen ≤ 8 * k ∧
        ∀ j, j < prefixLen → addressBit net.toList j = addressBit ip.toList j := by
  by_cases hshort : prefixLen ≤ 8 * k
  · have hnet := net.toList_length
    have hiff := maskedEq_octets_iff net.toList ip.toList prefixLen
      (ip.toList_length.trans hnet.symm) (by omega) (by omega)
    rw [hnet] at hiff
    rw [hiff, and_iff_right hshort]
  · rw [maskedEq_of_lt (Nat.not_le.mp hshort)]
    exact ⟨(fun h => by cases h), fun h => absurd h.1 hshort⟩

/-- **A network holds the addresses of its family that share its first bits.** -/
theorem contains_iff (c : Network) (a : IpAddr) :
    c.contains a = true ↔ a.isIpv4 = c.net.isIpv4 ∧ c.prefixLen.toNat ≤ c.net.width ∧
      ∀ j, j < c.prefixLen.toNat → addressBit c.net.octets j = addressBit a.octets j := by
  obtain ⟨net, prefixLen⟩ := c
  cases net with
  | v4 net =>
    cases a with
    | v4 ip =>
      have hiff := maskedEq_family_iff (by decide) net ip prefixLen.toNat
      exact hiff.trans (and_iff_right rfl).symm
    | v6 ip => exact ⟨(fun h => by cases h), fun h => by cases h.1⟩
  | v6 net =>
    cases a with
    | v4 ip => exact ⟨(fun h => by cases h), fun h => by cases h.1⟩
    | v6 ip =>
      have hiff := maskedEq_family_iff (by decide) net ip prefixLen.toNat
      exact hiff.trans (and_iff_right rfl).symm

end Network

/-- `GeoCidr::contains`, panics included. -/
def Geo.GeoCidr.containsChecked (c : Geo.GeoCidr) (ip : IpAddr) : Option Bool :=
  Network.containsChecked c ip

namespace Routing

/-- `Cidr::contains`, panics included. -/
def Cidr.containsChecked (c : Cidr) (ip : IpAddr) : Option Bool := Network.containsChecked c ip

/-- **A CIDR compares first bits, in both crates, and nothing overflows on the way.** -/
theorem cidr_contains_exact (n : IpAddr) (p : UInt8) (hp : p.toNat ≤ n.width) (a : IpAddr) :
    (∃ answer : Bool, Cidr.containsChecked ⟨n, p⟩ a = some answer ∧
      Geo.GeoCidr.containsChecked ⟨n, p⟩ a = some answer ∧
      (answer = true ↔ a.isIpv4 = n.isIpv4 ∧
        ∀ j, j < p.toNat → addressBit n.octets j = addressBit a.octets j)) ∧
    Cidr.containsChecked ⟨n, p⟩ a = some (Network.contains ⟨n, p⟩ a) := by
  have hchecked : Cidr.containsChecked ⟨n, p⟩ a = some (Network.contains ⟨n, p⟩ a) :=
    Network.containsChecked_eq _ _
  refine ⟨⟨Network.contains ⟨n, p⟩ a, hchecked, Network.containsChecked_eq _ _, ?_⟩, hchecked⟩
  rw [Network.contains_iff, and_iff_right hp]

/-- An address inside `10.0.0.0/8` and one outside. -/
theorem cidr_contains_exact_ten :
    (∀ j, j < 8 → addressBit [10, 0, 0, 0] j = addressBit [10, 1, 2, 3] j) ∧
      Cidr.containsChecked ⟨.v4 (Octets.fromSlice 4 [10, 0, 0, 0]), 8⟩
        (.v4 (Octets.fromSlice 4 [10, 1, 2, 3])) = some true ∧
      Cidr.containsChecked ⟨.v4 (Octets.fromSlice 4 [10, 0, 0, 0]), 8⟩
        (.v4 (Octets.fromSlice 4 [11, 0, 0, 1])) = some false := by
  obtain ⟨⟨answer, hanswer, -, hiff⟩, -⟩ := cidr_contains_exact
    (.v4 (Octets.fromSlice 4 [10, 0, 0, 0])) 8 (by decide) (.v4 (Octets.fromSlice 4 [10, 1, 2, 3]))
  have hbits : ∀ j, j < 8 → addressBit [10, 0, 0, 0] j = addressBit [10, 1, 2, 3] j := by decide
  refine ⟨hbits, ?_, by decide⟩
  rw [hanswer, hiff.mpr ⟨rfl, hbits⟩]

end Routing

/-! ## The GeoIP database -/

namespace Geo

/-- `Cidr` of the schema. -/
structure ProtoCidr where
  ip : List UInt8
  prefixLen : UInt32

/-- `GeoIp` of the schema: the entry of a country. -/
structure ProtoGeoIp where
  countryCode : String
  cidr : List ProtoCidr
  reverseMatch : Bool

/-- `GeoIpList` of the schema. -/
structure GeoIpList where
  entry : List ProtoGeoIp

inductive GeoError where
  | decode
  | cidrLen (n : ℕ)
  deriving DecidableEq

/-- `GeoCidr::from_proto`.  The prefix length is cut to its low eight bits. -/
def GeoCidr.fromProto (c : ProtoCidr) : Except GeoError GeoCidr :=
  if c.ip.length = 4 then .ok ⟨.v4 (Octets.fromSlice 4 c.ip), c.prefixLen.toUInt8⟩
  else if c.ip.length = 16 then .ok ⟨.v6 (Octets.fromSlice 16 c.ip), c.prefixLen.toUInt8⟩
  else .error (.cidrLen c.ip.length)

/-- The inner loop of `parse`. -/
def cidrLoop : List ProtoCidr → Except GeoError (List GeoCidr)
  | [] => .ok []
  | c :: cs =>
    match GeoCidr.fromProto c with
    | .error e => .error e
    | .ok cidr =>
      match cidrLoop cs with
      | .error e => .error e
      | .ok cidrs => .ok (cidr :: cidrs)

/-- The outer loop of `parse`. -/
def entryLoop : Table GeoCidr → List ProtoGeoIp → Except GeoError (Table GeoCidr)
  | byCode, [] => .ok byCode
  | byCode, e :: es =>
    match cidrLoop e.cidr with
    | .error err => .error err
    | .ok cidrs => entryLoop (extend byCode e.countryCode cidrs) es

/-- `GeoIpDb::parse`, over what the protobuf library decodes. -/
def GeoIpDb.parse (decode : List UInt8 → Option GeoIpList) (data : List UInt8) :
    Except GeoError GeoIpDb :=
  match decode data with
  | none => .error .decode
  | some list =>
    match entryLoop ∅ list.entry with
    | .error e => .error e
    | .ok byCode => .ok ⟨byCode⟩

/-! ## What the entries say -/

/-- Every address of the list has the length of an IPv4 or an IPv6 address. -/
def GeoIpList.Sized (list : GeoIpList) : Prop :=
  ∀ e ∈ list.entry, ∀ c ∈ e.cidr, c.ip.length = 4 ∨ c.ip.length = 16

/-- The address is of the network's family and shares its first `n` bits, of which the network
has as many. -/
def ProtoCidr.Shares (c : ProtoCidr) (n : ℕ) (a : IpAddr) : Prop :=
  a.octets.length = c.ip.length ∧ n ≤ 8 * c.ip.length ∧
    ∀ j, j < n → addressBit c.ip j = addressBit a.octets j

/-- The address lies in the network. -/
def ProtoCidr.Holds (c : ProtoCidr) (a : IpAddr) : Prop := c.Shares c.prefixLen.toNat a

/-- The entry matches the address: in one of its networks, or in none if it is reversed. -/
def ProtoGeoIp.Meant (e : ProtoGeoIp) (a : IpAddr) : Prop :=
  if e.reverseMatch then ¬ ∃ c ∈ e.cidr, c.Holds a else ∃ c ∈ e.cidr, c.Holds a

/-- The entries of a code, in any letter case. -/
def GeoIpList.Of (list : GeoIpList) (code : String) (e : ProtoGeoIp) : Prop :=
  e ∈ list.entry ∧ lowercase e.countryCode = lowercase code

/-- **What a database says about a code and an address.** -/
def GeoIpList.Meant (list : GeoIpList) (code : String) (a : IpAddr) : Prop :=
  ∃ e, list.Of code e ∧ e.Meant a

/-! ## What the database answers -/

theorem asciiUpper_asciiLower (b : UInt8) : asciiUpper (asciiLower b) = asciiUpper b := by
  revert b
  refine forall_uint8 ?_
  decide +kernel

theorem asciiLower_asciiUpper (b : UInt8) : asciiLower (asciiUpper b) = asciiLower b := by
  revert b
  refine forall_uint8 ?_
  decide +kernel

/-- Upper-cased codes are compared without regard to letter case. -/
theorem uppercase_eq_iff {s t : String} :
    uppercase s = uppercase t ↔ lowercase s = lowercase t := by
  have hlower : ∀ s : String, (uppercase s).map asciiLower = lowercase s := fun s => by
    simp [uppercase, lowercase, asciiLower_asciiUpper]
  have hupper : ∀ s : String, (lowercase s).map asciiUpper = uppercase s := fun s => by
    simp [uppercase, lowercase, asciiUpper_asciiLower]
  constructor
  · intro h
    rw [← hlower, ← hlower, h]
  · intro h
    rw [← hupper, ← hupper, h]

/-- A network of the list, as the database keeps it: with its prefix length cut. -/
def ProtoCidr.Kept (c : ProtoCidr) (a : IpAddr) : Prop := c.Shares (c.prefixLen.toNat % 256) a

variable {c : ProtoCidr}

/-- Up to `/255` nothing is cut. -/
theorem ProtoCidr.kept_iff_holds (h : c.prefixLen.toNat < 256) (a : IpAddr) :
    c.Kept a ↔ c.Holds a := by
  rw [Kept, Holds, Nat.mod_eq_of_lt h]

/-- A network of an address that has too few bits for its prefix length holds nothing. -/
theorem ProtoCidr.lt_of_holds (hsize : c.ip.length = 4 ∨ c.ip.length = 16) {a : IpAddr}
    (h : c.Holds a) : c.prefixLen.toNat < 256 := by
  have hle : c.prefixLen.toNat ≤ 8 * c.ip.length := h.2.1
  omega

theorem contains_iff_shares {n : GeoCidr} (hnet : n.net.octets = c.ip)
    (hshort : n.prefixLen = c.prefixLen.toUInt8) (a : IpAddr) :
    n.contains a = true ↔ c.Kept a := by
  have hcut : n.prefixLen.toNat = c.prefixLen.toNat % 256 := by
    rw [hshort, UInt32.toNat_toUInt8]
  rw [Network.contains_iff, IpAddr.isIpv4_eq_iff, IpAddr.width_eq, hnet, hcut]
  exact Iff.rfl

theorem fromProto_spec (hsize : c.ip.length = 4 ∨ c.ip.length = 16) :
    ∃ n, GeoCidr.fromProto c = .ok n ∧ ∀ a, n.contains a = true ↔ c.Kept a := by
  unfold GeoCidr.fromProto
  by_cases hfour : c.ip.length = 4
  · rw [if_pos hfour]
    exact ⟨_, rfl, contains_iff_shares (Octets.toList_fromSlice hfour) rfl⟩
  · have hsixteen : c.ip.length = 16 := hsize.resolve_left hfour
    rw [if_neg hfour, if_pos hsixteen]
    exact ⟨_, rfl, contains_iff_shares (Octets.toList_fromSlice hsixteen) rfl⟩

theorem cidrLoop_spec {cs : List ProtoCidr}
    (hsize : ∀ c ∈ cs, c.ip.length = 4 ∨ c.ip.length = 16) :
    ∃ cidrs, cidrLoop cs = .ok cidrs ∧
      ∀ a, (∃ n ∈ cidrs, n.contains a = true) ↔ ∃ c ∈ cs, c.Kept a := by
  induction cs with
  | nil => exact ⟨[], rfl, fun a => by simp⟩
  | cons c cs ih =>
    obtain ⟨n, hn, hkept⟩ := fromProto_spec (hsize c List.mem_cons_self)
    obtain ⟨cidrs, hcidrs, hrest⟩ := ih fun d hd => hsize d (List.mem_cons_of_mem _ hd)
    refine ⟨n :: cidrs, by rw [cidrLoop, hn, hcidrs], fun a => ?_⟩
    simp only [List.mem_cons, exists_eq_or_imp, hkept a, hrest a]

/-- A network under the code holds the address. -/
def InTable (t : Table GeoCidr) (code : String) (a : IpAddr) : Prop :=
  ∃ n ∈ (t.lookup (uppercase code)).getD [], n.contains a = true

theorem inTable_extend {t : Table GeoCidr} {code code' : String} {cidrs : List GeoCidr}
    {a : IpAddr} :
    InTable (extend t code' cidrs) code a ↔ InTable t code a ∨
      (lowercase code' = lowercase code ∧ ∃ n ∈ cidrs, n.contains a = true) := by
  unfold InTable extend
  by_cases hcode : uppercase code' = uppercase code
  · rw [hcode, AList.lookup_insert, Option.getD_some, and_iff_right (uppercase_eq_iff.mp hcode)]
    simp only [List.mem_append, or_and_right, exists_or]
  · rw [AList.lookup_insert_ne (Ne.symm hcode)]
    have hne : ¬ lowercase code' = lowercase code := fun h => hcode (uppercase_eq_iff.mpr h)
    simp only [hne, false_and, or_false]

theorem entryLoop_spec {es : List ProtoGeoIp}
    (hsize : ∀ e ∈ es, ∀ c ∈ e.cidr, c.ip.length = 4 ∨ c.ip.length = 16) (t : Table GeoCidr) :
    ∃ t', entryLoop t es = .ok t' ∧ ∀ code a, InTable t' code a ↔ InTable t code a ∨
      ∃ e ∈ es, lowercase e.countryCode = lowercase code ∧ ∃ c ∈ e.cidr, c.Kept a := by
  induction es generalizing t with
  | nil => exact ⟨t, rfl, fun code a => by simp⟩
  | cons e es ih =>
    obtain ⟨cidrs, hcidrs, hkept⟩ := cidrLoop_spec (hsize e List.mem_cons_self)
    obtain ⟨t', ht', hspec⟩ := ih (fun e' he' => hsize e' (List.mem_cons_of_mem _ he'))
      (extend t e.countryCode cidrs)
    refine ⟨t', by rw [entryLoop, hcidrs]; exact ht', fun code a => ?_⟩
    rw [hspec, inTable_extend, hkept a, or_assoc]
    simp only [List.mem_cons, exists_eq_or_imp]

theorem contains_iff_inTable (db : GeoIpDb) (code : String) (a : IpAddr) :
    db.contains code a = true ↔ InTable db.byCode code a := by
  unfold GeoIpDb.contains GeoIpDb.cidrs InTable
  cases db.byCode.lookup (uppercase code) <;> simp

/-- **What a parsed database answers:** some network of the code, as it is kept, holds the
address. -/
theorem parse_spec {decode : List UInt8 → Option GeoIpList} {data : List UInt8}
    {list : GeoIpList} (hdecode : decode data = some list) (hsize : list.Sized) :
    ∃ db, GeoIpDb.parse decode data = .ok db ∧ ∀ code a, db.contains code a = true ↔
      ∃ e, list.Of code e ∧ ∃ c ∈ e.cidr, c.Kept a := by
  obtain ⟨t, ht, hspec⟩ := entryLoop_spec hsize ∅
  refine ⟨⟨t⟩, by rw [GeoIpDb.parse, hdecode]; simp only [ht], fun code a => ?_⟩
  have hempty : ¬ InTable ∅ code a := by simp [InTable]
  rw [contains_iff_inTable, hspec, or_iff_right hempty]
  simp only [GeoIpList.Of, and_assoc]

/-! ## Where the answer is what the entries say -/

/-- **The answer is right for a code and an address.**  An entry that is not reversed holds the
address, and then so does the database.  Otherwise the database says yes by mistake, to an
address that a reversed entry lists or a cut prefix length lets in, exactly when the entries
say yes, because a reversed one does not list the address. -/
def GeoIpList.AnswersRight (list : GeoIpList) (code : String) (a : IpAddr) : Prop :=
  (∃ e, list.Of code e ∧ e.reverseMatch = false ∧ ∃ c ∈ e.cidr, c.Holds a) ∨
  ((∃ e, list.Of code e ∧
      ∃ c ∈ e.cidr, (e.reverseMatch = true ∨ 256 ≤ c.prefixLen.toNat) ∧ c.Kept a) ↔
    ∃ e, list.Of code e ∧ e.reverseMatch = true ∧ ∀ c ∈ e.cidr, ¬ c.Holds a)

/-- Without reversed entries and with prefix lengths of one byte, every answer is right. -/
theorem GeoIpList.answersRight_of_plain {list : GeoIpList} {code : String}
    (hplain : ∀ e, list.Of code e → e.reverseMatch = false ∧
      ∀ c ∈ e.cidr, c.prefixLen.toNat < 256) (a : IpAddr) : list.AnswersRight code a := by
  refine Or.inr ⟨?_, ?_⟩
  · rintro ⟨e, he, c, hc, hreverse | hlong, -⟩
    · rw [(hplain e he).1] at hreverse
      cases hreverse
    · exact absurd ((hplain e he).2 c hc) (Nat.not_lt.mpr hlong)
  · rintro ⟨e, he, hreverse, -⟩
    rw [(hplain e he).1] at hreverse
    cases hreverse

section Answers

variable {list : GeoIpList} {code : String} {a : IpAddr}

/-- What an entry that is not reversed holds is both meant and kept. -/
theorem meant_and_kept_of_forward (hsize : list.Sized) {e : ProtoGeoIp} (he : list.Of code e)
    (hforward : e.reverseMatch = false) (hc : c ∈ e.cidr) (hholds : c.Holds a) :
    list.Meant code a ∧ ∃ e, list.Of code e ∧ ∃ c ∈ e.cidr, c.Kept a := by
  have hshort := c.lt_of_holds (hsize e he.1 c hc) hholds
  refine ⟨⟨e, he, ?_⟩, e, he, c, hc, (c.kept_iff_holds hshort a).mpr hholds⟩
  rw [ProtoGeoIp.Meant, hforward]
  exact ⟨c, hc, hholds⟩

variable (hno : ¬ ∃ e, list.Of code e ∧ e.reverseMatch = false ∧ ∃ c ∈ e.cidr, c.Holds a)

include hno

/-- Where no such entry holds the address, only reversed ones can mean it. -/
theorem meant_iff_of_no_forward :
    list.Meant code a ↔
      ∃ e, list.Of code e ∧ e.reverseMatch = true ∧ ∀ c ∈ e.cidr, ¬ c.Holds a := by
  constructor
  · rintro ⟨e, he, hmeant⟩
    cases hreverse : e.reverseMatch with
    | false =>
      rw [ProtoGeoIp.Meant, hreverse] at hmeant
      exact absurd ⟨e, he, hreverse, hmeant⟩ hno
    | true =>
      rw [ProtoGeoIp.Meant, hreverse] at hmeant
      exact ⟨e, he, hreverse, fun c hc hholds => hmeant ⟨c, hc, hholds⟩⟩
  · rintro ⟨e, he, hreverse, hnone⟩
    refine ⟨e, he, ?_⟩
    rw [ProtoGeoIp.Meant, hreverse]
    exact fun ⟨c, hc, hholds⟩ => hnone c hc hholds

/-- And only a mistake can let it in. -/
theorem kept_iff_of_no_forward :
    (∃ e, list.Of code e ∧ ∃ c ∈ e.cidr, c.Kept a) ↔ ∃ e, list.Of code e ∧
      ∃ c ∈ e.cidr, (e.reverseMatch = true ∨ 256 ≤ c.prefixLen.toNat) ∧ c.Kept a := by
  constructor
  · rintro ⟨e, he, c, hc, hkept⟩
    refine ⟨e, he, c, hc, ?_, hkept⟩
    by_contra hplain
    rw [not_or, Bool.not_eq_true, Nat.not_le] at hplain
    exact hno ⟨e, he, hplain.1, c, hc, (c.kept_iff_holds hplain.2 a).mp hkept⟩
  · rintro ⟨e, he, c, hc, -, hkept⟩
    exact ⟨e, he, c, hc, hkept⟩

end Answers

/-- **When a parsed database answers what its entries say.** -/
theorem contains_iff_meant_iff (decode : List UInt8 → Option GeoIpList) (data : List UInt8)
    {list : GeoIpList} (hdecode : decode data = some list) (hsize : list.Sized) :
    ∃ db, GeoIpDb.parse decode data = .ok db ∧ ∀ code a,
      ((db.contains code a = true ↔ list.Meant code a) ↔ list.AnswersRight code a) := by
  obtain ⟨db, hdb, hspec⟩ := parse_spec hdecode hsize
  refine ⟨db, hdb, fun code a => ?_⟩
  rw [hspec, GeoIpList.AnswersRight]
  by_cases hforward : ∃ e, list.Of code e ∧ e.reverseMatch = false ∧ ∃ c ∈ e.cidr, c.Holds a
  · obtain ⟨e, he, hfalse, c, hc, hholds⟩ := id hforward
    obtain ⟨hmeant, hkept⟩ := meant_and_kept_of_forward hsize he hfalse hc hholds
    exact ⟨fun _ => Or.inl hforward, fun _ => ⟨fun _ => hmeant, fun _ => hkept⟩⟩
  · rw [meant_iff_of_no_forward hforward, kept_iff_of_no_forward hforward,
      or_iff_right hforward]

/-- One country with one network. -/
def oneNetwork (prefixLen : UInt32) (reverseMatch : Bool) : GeoIpList :=
  ⟨[⟨"CN", [⟨[10, 0, 0, 0], prefixLen⟩], reverseMatch⟩]⟩

theorem sized_oneNetwork (prefixLen : UInt32) (reverseMatch : Bool) :
    (oneNetwork prefixLen reverseMatch).Sized := by
  simp [GeoIpList.Sized, oneNetwork]

/-- In a plain database the address of a network is found under its code. -/
theorem contains_iff_meant_iff_plain :
    ∃ db, GeoIpDb.parse (fun _ => some (oneNetwork 8 false)) [] = .ok db ∧
      db.contains "cn" (.v4 (Octets.fromSlice 4 [10, 1, 2, 3])) = true := by
  obtain ⟨db, hdb, hiff⟩ := contains_iff_meant_iff (fun _ => some (oneNetwork 8 false)) [] rfl
    (sized_oneNetwork 8 false)
  refine ⟨db, hdb, ((hiff "cn" (.v4 (Octets.fromSlice 4 [10, 1, 2, 3]))).mpr ?_).mpr ?_⟩
  · refine GeoIpList.answersRight_of_plain (fun e he => ?_) _
    obtain rfl := List.mem_singleton.mp he.1
    exact ⟨rfl, by decide⟩
  · exact ⟨_, ⟨List.mem_singleton.mpr rfl, by decide⟩, _, List.mem_singleton.mpr rfl,
      by decide, by decide, by decide⟩

/-- A reversed entry is read as if it were not, and `/264` as `/8`. -/
theorem reversed_and_long_misread :
    (∃ db, GeoIpDb.parse (fun _ => some (oneNetwork 8 true)) [] = .ok db ∧
      db.contains "cn" (.v4 (Octets.fromSlice 4 [8, 8, 8, 8])) = false ∧
      (oneNetwork 8 true).Meant "cn" (.v4 (Octets.fromSlice 4 [8, 8, 8, 8]))) ∧
    ∃ db, GeoIpDb.parse (fun _ => some (oneNetwork 264 false)) [] = .ok db ∧
      db.contains "cn" (.v4 (Octets.fromSlice 4 [10, 1, 2, 3])) = true ∧
      ¬ (oneNetwork 264 false).Meant "cn" (.v4 (Octets.fromSlice 4 [10, 1, 2, 3])) := by
  refine ⟨⟨_, rfl, by decide, ?_⟩, _, rfl, by decide, ?_⟩
  · refine ⟨_, ⟨List.mem_singleton.mpr rfl, by decide⟩, fun ⟨c, hc, hholds⟩ => ?_⟩
    obtain rfl := List.mem_singleton.mp hc
    exact absurd (hholds.2.2 6 (by decide)) (by decide)
  · rintro ⟨e, he, hmeant⟩
    obtain rfl := List.mem_singleton.mp he.1
    obtain ⟨c, hc, hholds⟩ := hmeant
    obtain rfl := List.mem_singleton.mp hc
    exact absurd hholds.2.1 (by decide)

end Geo

end HoldTheDonut
