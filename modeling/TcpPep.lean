import TcpPep.Lib.Machine
import TcpPep.Lib.Serial
import TcpPep.Lib.ErasureCode
import TcpPep.Lib.Table
import TcpPep.Lib.Pacing
import TcpPep.Lib.Ranking
import TcpPep.Lib.Progress
import TcpPep.Lib.Watch
import TcpPep.Lib.Simulation
import TcpPep.Lib.Locks
import TcpPep.Lib.Decimal
import TcpPep.Protocol.Header
import TcpPep.Protocol.Codec
import TcpPep.Fec.Fec
import TcpPep.Fec.TwoOne
import TcpPep.Fec.Cache
import TcpPep.Shaper.Shaper
import TcpPep.Shaper.Fifo
import TcpPep.Shaper.Lifecycle
import TcpPep.Proxy.Sender
import TcpPep.Proxy.Receiver
import TcpPep.Proxy.Session
import TcpPep.Proxy.Recovery
import TcpPep.Proxy.Block
import TcpPep.Proxy.History
import TcpPep.Proxy.Delivery
import TcpPep.Proxy.Link
import TcpPep.Proxy.Window
import TcpPep.Proxy.Aliasing
import TcpPep.Proxy.Horizon
import TcpPep.Proxy.Repair
import TcpPep.Proxy.Sequence
import TcpPep.Proxy.Parity
import TcpPep.Proxy.Outstanding
import TcpPep.Proxy.Shutdown
import TcpPep.Proxy.CloseAgreement
import TcpPep.Proxy.Isolation
import TcpPep.Proxy.Connect
import TcpPep.Proxy.Registry
import TcpPep.Proxy.Client
import TcpPep.Proxy.Pair
import TcpPep.Proxy.Handshake
import TcpPep.Proxy.StreamIds
import TcpPep.Proxy.Allocation
import TcpPep.Proxy.Slots
import TcpPep.Proxy.Conservation
import TcpPep.Proxy.FailedFlush
import TcpPep.Proxy.Fragmentation
import TcpPep.Proxy.Bandwidth
import TcpPep.Proxy.Reports
import TcpPep.Proxy.Losses
import TcpPep.Proxy.Wakeup
import TcpPep.Proxy.Teardown
import TcpPep.Proxy.Mending
import TcpPep.Proxy.CatchUp
import TcpPep.Proxy.Relay
import TcpPep.Proxy.Download
import TcpPep.Proxy.Backlog
import TcpPep.Proxy.Demux
import TcpPep.Proxy.Locking
import TcpPep.Proxy.Idle
import TcpPep.Proxy.Statistics
import TcpPep.Proxy.Stop
import TcpPep.Proxy.Establish
import TcpPep.Config.Router
