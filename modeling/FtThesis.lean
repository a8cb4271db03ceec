import FtThesis.Library.Runs
import FtThesis.Library.Memory
import FtThesis.Library.Decimals
import FtThesis.Library.Lists
import FtThesis.PacketId.Basic
import FtThesis.PacketId.Generator
import FtThesis.PacketId.Uniqueness
import FtThesis.DetLogger.PalsManager
import FtThesis.DetLogger.Server
import FtThesis.DetLogger.Agreement
import FtThesis.DetLogger.Determinants
import FtThesis.PacketLogger.Server
import FtThesis.PacketLogger.Versions
import FtThesis.Elements.Packet
import FtThesis.Elements.Tags
import FtThesis.Library.Sockets
import FtThesis.Transport.Message
import FtThesis.Transport.AsyncServer
import FtThesis.Transport.Framing
import FtThesis.Transport.Client
import FtThesis.Transport.Pairing
import FtThesis.Library.Programs
import FtThesis.Manager.Lists
import FtThesis.Manager.Commands
import FtThesis.Manager.System
import FtThesis.Manager.Clearing
import FtThesis.Manager.Replays
import FtThesis.Manager.Quiet
import FtThesis.Manager.Rounds
import FtThesis.PacketLogger.Codec
import FtThesis.Transport.Sending
import FtThesis.Elements.Socket
import FtThesis.Manager.IdLists
import FtThesis.Transport.Registry
import FtThesis.PacketLogger.Interleaving
import FtThesis.Elements.Failover
import FtThesis.Tsa.Network
import FtThesis.Tsa.Requests
import FtThesis.Tsa.Rules
import FtThesis.Tsa.Server
import FtThesis.Tsa.Handlers
import FtThesis.Tsa.Chains
import FtThesis.Tsa.Commands
import FtThesis.Tsa.Removal
import FtThesis.Tsa.Forwarding
import FtThesis.Tsa.Ways
import FtThesis.Tsa.Traversal
import FtThesis.DetLogger.Scanning
import FtThesis.Library.ReadLoops
import FtThesis.Library.SendLoops
import FtThesis.Transport.SyncServer
import FtThesis.Manager.Differences
import FtThesis.Manager.Deletions
import FtThesis.Manager.Acknowledgements
import FtThesis.Library.Overlays
import FtThesis.PacketLogger.Overlay
import FtThesis.Elements.RoundTrip
import FtThesis.PacketLogger.Deletions
import FtThesis.Elements.Passes
import FtThesis.Transport.Incomplete
import FtThesis.Transport.Writing
import FtThesis.Manager.TsaRequests
import FtThesis.DetLogger.FirstVersions
import FtThesis.Tsa.Tagging
import FtThesis.Library.Separated
import FtThesis.Tsa.Unregistering
import FtThesis.Tsa.Texts
import FtThesis.Tsa.Replacement
import FtThesis.Tsa.Keys
import FtThesis.Tsa.VlanIds
import FtThesis.Tsa.Links
import FtThesis.Tsa.Cables
import FtThesis.DetLogger.Careful
import FtThesis.DetLogger.CarefulDeletions
import FtThesis.DetLogger.CarefulStores
import FtThesis.DetLogger.Linearizability
import FtThesis.DetLogger.Locks
import FtThesis.DetLogger.Calls
import FtThesis.PacketLogger.Calls
import FtThesis.PacketLogger.Linearizability
import FtThesis.Journey.Cleanup
import FtThesis.Journey.Deployment
import FtThesis.Tsa.Isolation
