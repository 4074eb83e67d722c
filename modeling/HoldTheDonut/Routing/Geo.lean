import HoldTheDonut.Core.Address
import Mathlib.Data.List.AList

/-!
# `donut-geo`: networks, domain rules and the geo databases

Lookups by country or category code.  `masked_eq` and the `contains` built on it
stand in two crates in the same words, so there is one `Network` here, under both
of their names.

Text is compared as bytes.  ASCII case folding moves ASCII letters only, which is
also what it does to the bytes of a UTF-8 text, and a substring of a text is a
substring of its bytes.
-/

namespace HoldTheDonut

/-! ## ASCII text -/

/-- `u8::to_ascii_lowercase`. -/
def asciiLower (b : UInt8) : UInt8 := if 65 ≤ b ∧ b ≤ 90 then b + 32 else b

/-- `u8::to_ascii_uppercase`. -/
def asciiUpper (b : UInt8) : UInt8 := if 97 ≤ b ∧ b ≤ 122 then b - 32 else b

/-- `str::to_ascii_lowercase`, as bytes. -/
def lowercase (s : String) : List UInt8 := (utf8 s).map asciiLower

/-- `str::to_ascii_uppercase`, as bytes. -/
def uppercase (s : String) : List UInt8 := (utf8 s).map asciiUpper

/-- `str::contains`. -/
def hasInfix (text pattern : List UInt8) : Bool := text.tails.any pattern.isPrefixOf

/-- `h == d || h.ends_with(".d")`. -/
def matchesSuffix (h d : List UInt8) : Bool := decide (h = d) || (46 :: d).isSuffixOf h

/-! ## Networks -/

/-- The bits of an IP address, the first octet in the highest of its own width. -/
def addressBits (octets : List UInt8) : BitVec 128 :=
  BitVec.ofNat 128 (octets.foldl (fun acc b => acc * 256 + b.toNat) 0)

/-- `masked_eq`: do two addresses of `bits` bits share their top `prefixLen` bits? -/
def maskedEq (net ip : BitVec 128) (prefixLen bits : ℕ) : Bool :=
  if prefixLen = 0 then true
  else if bits < prefixLen then false
  else
    let mask := (BitVec.allOnes 128 <<< (128 - prefixLen)) >>> (128 - bits)
    decide (net &&& mask = ip &&& mask)

/-- An IP network. -/
structure Network where
  net : IpAddr
  prefixLen : UInt8
  deriving DecidableEq

namespace Network

def contains (c : Network) (ip : IpAddr) : Bool :=
  match c.net, ip with
  | .v4 net, .v4 ip =>
    maskedEq (addressBits net.toList) (addressBits ip.toList) c.prefixLen.toNat 32
  | .v6 net, .v6 ip =>
    maskedEq (addressBits net.toList) (addressBits ip.toList) c.prefixLen.toNat 128
  | _, _ => false

end Network

namespace Geo

/-- `GeoCidr`. -/
abbrev GeoCidr : Type := Network

/-! ## Databases -/

/-- A table of the databases: by upper-cased code. -/
abbrev Table (α : Type) : Type := AList fun _ : List UInt8 => List α

/-- `by_code.entry(code).or_default().extend(items)`. -/
def extend {α : Type} (t : Table α) (code : String) (items : List α) : Table α :=
  t.insert (uppercase code) ((t.lookup (uppercase code)).getD [] ++ items)

structure GeoIpDb where
  byCode : Table GeoCidr

namespace GeoIpDb

/-- The networks of a country code, in any case. -/
def cidrs (db : GeoIpDb) (code : String) : Option (List GeoCidr) :=
  db.byCode.lookup (uppercase code)

def contains (db : GeoIpDb) (code : String) (ip : IpAddr) : Bool :=
  (db.cidrs code).any fun cidrs => cidrs.any fun c => c.contains ip

end GeoIpDb

/-- A domain rule of a database; its text is lower-case bytes, which is what parsing a
database leaves. -/
inductive DomainRule where
  | full (value : List UInt8)
  | suffix (value : List UInt8)
  | keyword (value : List UInt8)
  | regex (value : List UInt8)
  deriving DecidableEq

/-- A regular expression is kept but never evaluated. -/
def DomainRule.matches (r : DomainRule) (host : String) : Bool :=
  match r with
  | .full v => decide (lowercase host = v)
  | .suffix v => matchesSuffix (lowercase host) v
  | .keyword v => hasInfix (lowercase host) v
  | .regex _ => false

structure GeoSiteDb where
  byCode : Table DomainRule

def GeoSiteDb.rules (db : GeoSiteDb) (code : String) : Option (List DomainRule) :=
  db.byCode.lookup (uppercase code)

def GeoSiteDb.matches (db : GeoSiteDb) (code : String) (host : String) : Bool :=
  (db.rules code).any fun rules => rules.any fun r => r.matches host

end Geo
end HoldTheDonut
