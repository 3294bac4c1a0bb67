import Sucredb.Lib.VecMap
import Sucredb.Lib.Reachable
import Sucredb.Lib.Binary
import Sucredb.Lib.MinHeap
import Sucredb.Types
import Sucredb.VersionVector.Basic
import Sucredb.VersionVector.Bitmapped
import Sucredb.VersionVector.BitmappedTheorems
import Sucredb.VersionVector.BitmappedSets
import Sucredb.VersionVector.Causal
import Sucredb.Cubes
import Sucredb.Storage
import Sucredb.VNode.State
import Sucredb.Command.Mutators
import Sucredb.VNode.Flush
import Sucredb.VNode.FlushTheorems
import Sucredb.VNode.Sync
import Sucredb.VNode.Handlers
import Sucredb.Replication.Partition
import Sucredb.Replication.Lifecycle
import Sucredb.Replication.SyncTheorems
import Sucredb.Replication.RemoteWrite
import Sucredb.Replication.Truthful
import Sucredb.CubeTheorems
import Sucredb.Replication.DotLog
import Sucredb.Replication.StatusMachine
import Sucredb.Dht.Ring
import Sucredb.Dht.Rebalance
import Sucredb.Dht.Cluster
import Sucredb.Dht.RingTheorems
import Sucredb.Dht.Ownership
import Sucredb.Resp
import Sucredb.RespTheorems
import Sucredb.Database.Syncs
import Sucredb.Database.SyncsTheorems
import Sucredb.VNode.Requests
import Sucredb.VNode.RequestsTheorems
import Sucredb.Command.Connection
import Sucredb.Command.ConnectionTheorems
import Sucredb.Command.KeyChecks
import Sucredb.CounterTheorems
import Sucredb.Dht.Hash
import Sucredb.VersionVector.Delta
import Sucredb.VersionVector.DeltaSets
import Sucredb.Fabric.Codec
import Sucredb.VNode.SyncKeys
import Sucredb.InFlightMap
import Sucredb.InFlightMapTheorems
import Sucredb.Config
import Sucredb.VNode.Resend
import Sucredb.RespSize
import Sucredb.Storage.Keys
import Sucredb.Storage.Shared
import Sucredb.Fabric.Connections
import Sucredb.Dht.Queries
import Sucredb.Database.Routing
import Sucredb.VersionVector.Serde
import Sucredb.Workers
import Sucredb.Replication.SyncRouting
