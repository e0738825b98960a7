import ChwellCore.Core.TimerLedger
import ChwellCore.Core.TimerExpiry
import ChwellCore.Core.TimerMap
import ChwellCore.Core.TimerRate
import ChwellCore.Core.TimerCascade
import ChwellCore.Protocol.Parser
import ChwellCore.Codec.VarintHeaders
import ChwellCore.Redis.Fencing
import ChwellCore.CircuitBreaker
import ChwellCore.CircuitBreaker.Threads
import ChwellCore.Discovery.ServiceIndex
import ChwellCore.LoadBalance.WeightedRoundRobin
import ChwellCore.Cluster.NodeRegistry
import ChwellCore.Aoi.GridMoves
import ChwellCore.Aoi.CrossList
import ChwellCore.Sync.Membership
import ChwellCore.Sync.StateCodec
import ChwellCore.Rpc.Streams
import ChwellCore.Rpc.Lifecycle
import ChwellCore.Rpc.Breaker
import ChwellCore.Rpc.Permits
import ChwellCore.Rpc.SyncCalls
import ChwellCore.Service.Router
import ChwellCore.Game.Rooms
import ChwellCore.Game.Sessions
import ChwellCore.Game.Cleanup
import ChwellCore.Task.Waiting
import ChwellCore.Net.PoolWaiters
import ChwellCore.Sync.Locks
import ChwellCore.Sync.Snapshots
import ChwellCore.Sync.FrameInputs
import ChwellCore.Storage.Repository
import ChwellCore.Storage.Backends
import ChwellCore.Storage.Draining
import ChwellCore.Storage.Wakeups
import ChwellCore.Gateway.Forwarder
import ChwellCore.Event.Dispatch
import ChwellCore.Pool.ObjectPool
import ChwellCore.Slg.Stranded
import ChwellCore.Slg.Cities
import ChwellCore.Storage.Reads
import ChwellCore.Storage.Document
import ChwellCore.Http.Session
import ChwellCore.Game.ChatRooms
import ChwellCore.Redis.SortedSets
import ChwellCore.Redis.PlainSet
import ChwellCore.Redis.Ranges
import ChwellCore.RateLimit.Looking
import ChwellCore.RateLimit.WindowBound
import ChwellCore.RateLimit.WindowCounts
import ChwellCore.Task.Order
import ChwellCore.Redis.RenewThread
import ChwellCore.Slg.Battle
import ChwellCore.Slg.Cancel
import ChwellCore.Slg.Paths
import ChwellCore.Rpc.EndToEnd
import ChwellCore.Core.PoolDrain
import ChwellCore.Core.Config
import ChwellCore.Cluster.Heartbeats
import ChwellCore.Net.Serving
import ChwellCore.Storage.Table
import ChwellCore.Net.Sending
