import HoldTheDonut.Core.Address
import Mathlib.Data.List.AList

/-!
# `donut-server/src/outbound.rs`: chain outbounds

The outbounds of a server: upstream proxies keyed by routing tag, and whether the
direct egress splits a ClientHello.  How an upstream is dialled is the network's
business; what the other modules ask is which upstream a tag selects.
-/

namespace HoldTheDonut
namespace Server

/-- Fragment sizes and delays, both as inclusive ranges. -/
structure FragmentParams where
  len : UInt32 × UInt32
  intervalMs : UInt32 × UInt32
  deriving DecidableEq

/-- One upstream proxy: its tag, where it is and the credential presented to it. -/
structure ChainOutbound where
  tag : String
  server : String
  uuid : UserId
  deriving DecidableEq

structure Outbounds where
  map : AList fun _ : String => ChainOutbound
  fragment : Option FragmentParams

/-- The chain outbound a routing tag selects, if any. -/
def Outbounds.get (o : Outbounds) (tag : String) : Option ChainOutbound := o.map.lookup tag

/-- No chains and no fragmentation: direct egress only. -/
def Outbounds.empty : Outbounds := ⟨∅, none⟩

/-- The tags that drop a connection. -/
def isBlocked (tag : String) : Bool := tag = "block" ∨ tag = "blackhole"

end Server
end HoldTheDonut
