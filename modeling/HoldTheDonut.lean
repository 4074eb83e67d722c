import HoldTheDonut.Core.Bytes
import HoldTheDonut.Core.Address
import HoldTheDonut.Streaming.Transducer
import HoldTheDonut.Streaming.Incremental
import HoldTheDonut.Wire.Addons
import HoldTheDonut.Wire.Request
import HoldTheDonut.Wire.Segmentation
import HoldTheDonut.Vision.Padding
import HoldTheDonut.Vision.Chunking
import HoldTheDonut.Vision.RoundTrip
import HoldTheDonut.Vision.Downlink
import HoldTheDonut.Vision.Splice
import HoldTheDonut.Core.IpLiteral
import HoldTheDonut.Routing.Geo
import HoldTheDonut.Routing.Router
import HoldTheDonut.Core.Lossy
import HoldTheDonut.Mux.Frame
import HoldTheDonut.Mux.Relay
import HoldTheDonut.Carrier.PacketUp
import HoldTheDonut.Core.Auth
import HoldTheDonut.Interaction.Program
import HoldTheDonut.Server.Session
import HoldTheDonut.Server.Proxy
import HoldTheDonut.Veil.Parse
import HoldTheDonut.Veil.Fingerprint
import HoldTheDonut.Veil.Handshake
import HoldTheDonut.Veil.ZeroShare
import HoldTheDonut.Streaming.Deframe
import HoldTheDonut.Mux.Segmentation
import HoldTheDonut.Mux.Downlink
import HoldTheDonut.Carrier.Announce
import HoldTheDonut.Carrier.Sequential
import HoldTheDonut.Carrier.Faults
import HoldTheDonut.Carrier.Placement
import HoldTheDonut.Carrier.StreamOne
import HoldTheDonut.Carrier.Client
import HoldTheDonut.Carrier.StreamUp
import HoldTheDonut.Interaction.Exec
import HoldTheDonut.Server.RecordHeader
import HoldTheDonut.Server.FirstRecord
import HoldTheDonut.Server.FragmentWriter
import HoldTheDonut.Mux.Cascade
import HoldTheDonut.Server.Users
import HoldTheDonut.Server.UsersCrash
import HoldTheDonut.Machine.HalfDuplex
import HoldTheDonut.Server.Duplex
import HoldTheDonut.Mux.CascadeFlow
import HoldTheDonut.Vision.Adversarial
import HoldTheDonut.Wire.Vision
import HoldTheDonut.Interaction.Stream
import HoldTheDonut.Vision.Framing
import HoldTheDonut.Client.Socks
import HoldTheDonut.Server.Triage
import HoldTheDonut.Mux.Network
import HoldTheDonut.Mux.Family
import HoldTheDonut.Mux.Isolation
import HoldTheDonut.Routing.Names
import HoldTheDonut.Veil.ShareLookup
import HoldTheDonut.Routing.Config
import HoldTheDonut.Server.Fragments
import HoldTheDonut.Vision.Cipher
import HoldTheDonut.Vision.Writer
import HoldTheDonut.Wire.Normal
import HoldTheDonut.Wire.Varint
import HoldTheDonut.Core.ConstantTime
import HoldTheDonut.Carrier.SessionId
import HoldTheDonut.Mux.SendErrors
import HoldTheDonut.Server.Ranges
import HoldTheDonut.Carrier.Lifetime
import HoldTheDonut.Mux.CascadeRequest
import HoldTheDonut.Server.Admin
import HoldTheDonut.Server.AdminFraming
import HoldTheDonut.Interaction.Guard
import HoldTheDonut.Server.Gauge
import HoldTheDonut.Vision.Records
import HoldTheDonut.Client.Link
import HoldTheDonut.Client.PercentDecode
import HoldTheDonut.Client.ShareLink
import HoldTheDonut.Client.Import
import HoldTheDonut.Client.LocalProxy
import HoldTheDonut.Client.Download
import HoldTheDonut.Server.Revocation
