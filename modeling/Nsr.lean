import Nsr.Lib.BoundedLoop
import Nsr.Lib.Checked
import Nsr.Lib.Layout
import Nsr.Lib.Utf8
import Nsr.Lib.CyclicBuffer
import Nsr.Lib.Fold
import Nsr.Lib.LinearProbing
import Nsr.Lib.Lines
import Nsr.Lib.LossyQueue
import Nsr.Lib.OnesComplement
import Nsr.Lib.OrderedDict
import Nsr.Lib.Reachable
import Nsr.Lib.Roster
import Nsr.Lib.Service
import Nsr.Lib.Records
import Nsr.Lib.RequestRouting
import Nsr.Lib.RingLog
import Nsr.Lib.Rollup
import Nsr.Lib.Scan
import Nsr.Lib.Scope
import Nsr.Lib.TableCount
import Nsr.Ring.ShmRing
import Nsr.Ring.Spsc
import Nsr.Ring.LargeRing
import Nsr.Session.Telemetry
import Nsr.Session.Receive
import Nsr.Session.Headers
import Nsr.Session.Gatekeeper
import Nsr.Session.Logic
import Nsr.Session.Aliases
import Nsr.Session.System
import Nsr.Session.Accounting
import Nsr.Session.Conservation
import Nsr.Session.Progress
import Nsr.Session.Respawn
import Nsr.Session.Checksum
import Nsr.Session.Correlation
import Nsr.Session.Snapshot
import Nsr.Session.Handover
import Nsr.Session.Timeouts
import Nsr.Topology.Store
import Nsr.Topology.Invariant
import Nsr.Topology.Destination
import Nsr.Topology.Path
import Nsr.Topology.Health
import Nsr.Config.Store
import Nsr.Config.Law
import Nsr.Config.Plugged
import Nsr.Json.Syntax
import Nsr.Json.Encoder
import Nsr.Json.Decoder
import Nsr.Json.Bounds
import Nsr.Json.Compact
import Nsr.Json.Text
import Nsr.Json.Traversal
import Nsr.Json.Roundtrip
import Nsr.Json.Whitespace
import Nsr.Plugin.Rpc
import Nsr.Plugin.Entry
import Nsr.Plugin.Operations
import Nsr.Plugin.Parts
import Nsr.Plugin.Protocol
import Nsr.Plugin.Wire
import Nsr.Plugin.Routing
import Nsr.Plugin.KeyDelivery
import Nsr.Plugin.Shape
import Nsr.Plugin.Spawn
import Nsr.Plugin.Pipe
import Nsr.Plugin.Deadlines
import Nsr.Plugin.Restart
import Nsr.Plugin.Lifecycle
import Nsr.Plugin.Registry
import Nsr.Plugin.Dispatch
import Nsr.Plugin.Annotations
import Nsr.Plugin.Announce
import Nsr.Plugin.Server
import Nsr.Plugin.Conversation
import Nsr.Plugin.Drawing
import Nsr.Ui.KeySlots
import Nsr.Ui.Remap
import Nsr.Ui.Tui
import Nsr.Ui.Reserved
import Nsr.Ui.Modal
import Nsr.Ui.Tree
import Nsr.Sniffer.Packet
import Nsr.Sniffer.Tls
import Nsr.Sniffer.Hello
import Nsr.Sniffer.Dns
import Nsr.Sniffer.DnsMessage
import Nsr.Sniffer.Capture
import Nsr.Sniffer.Safety
import Nsr.Sniffer.Trailer
import Nsr.Sniffer.Dashboard
import Nsr.Sniffer.Countdown
import Nsr.Sniffer.Typing
import Nsr.Geoip.Cache
import Nsr.Geoip.Lookup
import Nsr.Geoip.Service
import Nsr.Geoip.Conversation
import Nsr.Percentile.Store
import Nsr.Percentile.Windows
import Nsr.Percentile.Recency
import Nsr.Percentile.Repeats
import Nsr.Percentile.Service
import Nsr.Lib.ProcessTable
import Nsr.Core.Supervision
import Nsr.Core.Posts
import Nsr.Core.Serving
import Nsr.Session.Memories
import Nsr.Session.Pacing
import Nsr.Core.System
