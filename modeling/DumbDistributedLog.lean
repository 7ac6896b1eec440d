import DumbDistributedLog.Library.Tables
import DumbDistributedLog.Library.U64
import DumbDistributedLog.Library.Runs
import DumbDistributedLog.Library.Codec
import DumbDistributedLog.Library.Ring
import DumbDistributedLog.Ownership.Machine
import DumbDistributedLog.Ownership.Topics
import DumbDistributedLog.Library.Grants
import DumbDistributedLog.Ownership.Leases
import DumbDistributedLog.Ownership.Sweep
import DumbDistributedLog.Ownership.OneLease
import DumbDistributedLog.Ownership.Holders
import DumbDistributedLog.Ownership.Exclusion
import DumbDistributedLog.Cluster.Replicas
import DumbDistributedLog.Cluster.LocalExpiry
import DumbDistributedLog.Cluster.LeaseCalls
import DumbDistributedLog.Storage.Effects
import DumbDistributedLog.Storage.Encoding
import DumbDistributedLog.Storage.LogReader
import DumbDistributedLog.Storage.Applied
import DumbDistributedLog.Storage.Handles
import DumbDistributedLog.Storage.LogState
import DumbDistributedLog.Storage.SnapshotSoundness
import DumbDistributedLog.Storage.SnapshotState
import DumbDistributedLog.Storage.Persistence
import DumbDistributedLog.Storage.Restart
import DumbDistributedLog.Storage.RoundTrip
import DumbDistributedLog.Queue.TopicQueue
import DumbDistributedLog.Queue.Retention
import DumbDistributedLog.Queue.Subscribers
import DumbDistributedLog.Queue.Delivery
import DumbDistributedLog.Queue.Cleanup
import DumbDistributedLog.Queue.Standalone
import DumbDistributedLog.Wal.Log
import DumbDistributedLog.Wal.Recovery
import DumbDistributedLog.Wal.Durable
import DumbDistributedLog.Wal.Restarts
import DumbDistributedLog.Queue.Spmc
import DumbDistributedLog.Gossip.Coordinator
import DumbDistributedLog.Gossip.Convergence
import DumbDistributedLog.Gossip.Epochs
import DumbDistributedLog.Gossip.Network
import DumbDistributedLog.Gossip.SplitBrain
import DumbDistributedLog.Gossip.Liveness
import DumbDistributedLog.Gossip.Horizon
import DumbDistributedLog.Storage.Batches
import DumbDistributedLog.Cluster.SingleWriter
import DumbDistributedLog.Library.BufWriter
import DumbDistributedLog.Queue.TopicLimit
import DumbDistributedLog.Storage.AtomicFiles
import DumbDistributedLog.Storage.DirtyFlag
import DumbDistributedLog.Library.Framing
import DumbDistributedLog.Network.Tcp
import DumbDistributedLog.Peer.Fetcher
import DumbDistributedLog.Peer.Wire
import DumbDistributedLog.Ownership.Replay
import DumbDistributedLog.Ownership.Boundaries
import DumbDistributedLog.Ownership.Renewals
import DumbDistributedLog.Cluster.Locks
import DumbDistributedLog.Ownership.LeaseIds
import DumbDistributedLog.Ownership.Validation
import DumbDistributedLog.Cluster.LeaseAnswers
import DumbDistributedLog.Ownership.Commuting
import DumbDistributedLog.Storage.FailedCalls
import DumbDistributedLog.Storage.Ranges
import DumbDistributedLog.Queue.Acknowledgements
import DumbDistributedLog.Queue.Producers
import DumbDistributedLog.Queue.Backpressure
import DumbDistributedLog.Cluster.TopicCount
import DumbDistributedLog.Cluster.RaftNodes
import DumbDistributedLog.Cluster.OwnershipChecks
import DumbDistributedLog.Library.Paths
import DumbDistributedLog.Wal.Paths
import DumbDistributedLog.Library.Calls
import DumbDistributedLog.Wal.Handles
import DumbDistributedLog.Queue.Latest
import DumbDistributedLog.Cluster.FailureDetector
import DumbDistributedLog.Library.Tokens
import DumbDistributedLog.Peer.Tracker
import DumbDistributedLog.Peer.Delivery
import DumbDistributedLog.Peer.Cache
import DumbDistributedLog.Peer.CircuitBreaker
import DumbDistributedLog.Peer.Leaks
import DumbDistributedLog.Peer.Registry
import DumbDistributedLog.Peer.Health
import DumbDistributedLog.Peer.Routing
import DumbDistributedLog.Cluster.PoisonBudget
import DumbDistributedLog.Library.TextCodec
import DumbDistributedLog.Network.FrameLimit
import DumbDistributedLog.Library.Utf8
import DumbDistributedLog.Network.ZmqFrames
import DumbDistributedLog.Network.Subscriptions
import DumbDistributedLog.Config.Nodes
import DumbDistributedLog.Config.Ports
import DumbDistributedLog.Config.Variables
import DumbDistributedLog.Library.Decimals
import DumbDistributedLog.Queue.PersistedLines
import DumbDistributedLog.Wal.LastId
import DumbDistributedLog.Library.Arcs
import DumbDistributedLog.Queue.Persistence
import DumbDistributedLog.Network.RaftRpc
import DumbDistributedLog.Library.TextLines
import DumbDistributedLog.Node.ClientApi
import DumbDistributedLog.Gossip.Queries
import DumbDistributedLog.Gossip.Senders
import DumbDistributedLog.Network.Transport
import DumbDistributedLog.Queue.Sources
import DumbDistributedLog.Library.Ranks
import DumbDistributedLog.Node.Metrics
import DumbDistributedLog.Ownership.Refinement
import DumbDistributedLog.Gossip.Membership
import DumbDistributedLog.Peer.Wiring
import DumbDistributedLog.Node.Arguments
import DumbDistributedLog.Library.Tickets
import DumbDistributedLog.Queue.SharedConsumer
import DumbDistributedLog.Wal.Concurrent
