import Wispr.Foundation.ByteBuffer
import Wispr.Foundation.Run
import Wispr.Foundation.WindowFilter
import Wispr.Foundation.FlowTable
import Wispr.Foundation.Effects
import Wispr.Foundation.Worklist
import Wispr.Foundation.Journeys
import Wispr.Foundation.OnesComplement
import Wispr.Foundation.LinkedRing
import Wispr.Daemon.Proto
import Wispr.Daemon.Net
import Wispr.Daemon.Codec
import Wispr.Daemon.Striping
import Wispr.Daemon.RoundTrip
import Wispr.Daemon.Dedupe
import Wispr.Daemon.EndToEnd
import Wispr.Daemon.Bounds
import Wispr.Daemon.Checksum
import Wispr.Daemon.Sockets
import Wispr.Daemon.Uthash
import Wispr.Daemon.HashRequests
import Wispr.Daemon.HashGrowth
import Wispr.Daemon.HashedTables
import Wispr.Gre.Daemon
import Wispr.Gre.Encapsulation
import Wispr.Gre.TwoNodes
import Wispr.Gre.Headers
import Wispr.Gre.FullFrames
import Wispr.Gre.SequenceKeys
import Wispr.Controller.Paths
import Wispr.Controller.LinkPorts
import Wispr.Controller.Install
import Wispr.Controller.PortMaps
import Wispr.Controller.Forwarding
import Wispr.Controller.Backward
import Wispr.Controller.Access
import Wispr.Controller.Tags
import Wispr.Controller.Coherence
import Wispr.Controller.PacketIn
import Wispr.Controller.Pairs
import Wispr.Controller.Confinement
import Wispr.Controller.Failures
import Wispr.Multipath.Search
import Wispr.Multipath.Groups
import Wispr.Multipath.Tables
import Wispr.Multipath.Delivery
import Wispr.Multipath.Cycles
import Wispr.Multipath.Weights
import Wispr.Multipath.GroupIds
import Wispr.Multipath.TaggedPaths
import Wispr.Network.Model
import Wispr.Network.Schedule
import Wispr.Network.HostLocations
import Wispr.Network.PacketOuts
import Wispr.Network.Wire
import Wispr.Network.HostToHost
import Wispr.Discovery.Lldp
import Wispr.Discovery.LldpPacket
import Wispr.Discovery.Ports
import Wispr.Discovery.Switches
import Wispr.Discovery.Links
import Wispr.Discovery.Probing
import Wispr.Discovery.MovedCables
import Wispr.Discovery.PortOrder
import Wispr.Network.Discovered
